import PhytiumSdk.Sdif.ErrorReport
import PhytiumSdk.Sdif.TimeoutSteps
import Mathlib.Data.List.Nodup

/-!
# Callbacks run at most once

A request leaves `sc->req` when `sdif_finish_command` completes it, but not when
the timeout does. The stale pointer is harmless as long as the next command that
is started is that of a request, which overwrites it first; a block count
command does not, and its `CMD_DONE` completes the stale request again.

The timeout handler itself completes the request it has read from `sc->req`,
whatever became of it since: an event that comes before the controller is reset
may have completed it already.
-/

namespace Phytium.Sdif

open Lib

variable {cfg : SdifConfig} {s s' : SdifState} {k : ℕ}

def CallPc.isReturned : CallPc → Bool
  | .returned _ => true
  | _ => false

/-- What the clients and the controller promise: a request is submitted after
the callback of the one before has run or its call has returned, and events
arrive only for a command that was started and not cancelled. -/
def promised (s : SdifState) : SdifEvent → Prop
  | .submit _ _ =>
      ∀ k < s.submitted, k + 1 = s.submitted → k ∈ s.doneReqs ∨ (s.pc k).isReturned = true
  | .cmdDone _ => s.hc.started = true
  | .dataDone _ => s.hc.started = true
  | .errOccure => s.hc.started = true
  | _ => True

/-- The current request has been completed already. -/
def Stale (s : SdifState) : Prop := ∃ r ∈ s.req, r ∈ s.doneReqs

/-- No block count command is started while the current request has been
completed already. -/
def onceOk (s : SdifState) : SdifEvent → Prop
  | .call k ok => s.pc k = .blockCount .start → ok = true → ¬ Stale s
  | _ => True

instance (s : SdifState) (e : SdifEvent) : Decidable (promised s e) := by
  cases e <;>
    · unfold promised
      infer_instance

instance (s : SdifState) : Decidable (Stale s) :=
  inferInstanceAs (Decidable (∃ r ∈ s.req, r ∈ s.doneReqs))

instance (s : SdifState) (e : SdifEvent) : Decidable (onceOk s e) := by
  cases e <;>
    · unfold onceOk
      infer_instance

/-! ## What a good run keeps -/

/-- Callbacks have run once, for requests that have been current or were
skipped, and nothing is under way for a stale one. -/
structure OnceInv (s : SdifState) : Prop where
  nodup : s.doneReqs.Nodup
  fresh : ∀ k, (s.pc k).fresh = true → k ∉ s.doneReqs
  stale : Stale s →
    s.hc.started = false ∧ s.callout = .idle ∧ ∀ k, (s.pc k).issuing = false

theorem doneReqs_snoc {d : DoneCall} (hlog : s'.doneLog = s.doneLog ++ [d]) :
    s'.doneReqs = s.doneReqs ++ [d.req] := by
  rw [SdifState.doneReqs, hlog, List.map_append]
  rfl

theorem nodup_snoc {r : ℕ} (h : s.doneReqs.Nodup) (hr : r ∉ s.doneReqs) :
    (s.doneReqs ++ [r]).Nodup := by
  rw [← List.concat_eq_append]
  exact h.concat hr

/-- What a step keeps as long as a request is stale. -/
structure StaleFrame (s s' : SdifState) : Prop where
  started : s'.hc.started = s.hc.started
  callout : s'.callout = s.callout
  issuing : ∀ k, (s'.pc k).issuing = true → (s.pc k).issuing = true

theorem OnceInv.stale_frame (h : OnceInv s) (hst : Stale s) (hf : StaleFrame s s') :
    s'.hc.started = false ∧ s'.callout = .idle ∧ ∀ k, (s'.pc k).issuing = false := by
  obtain ⟨hs, hc, hi⟩ := h.stale hst
  refine ⟨hf.started.trans hs, hf.callout.trans hc, ?_⟩
  intro k
  by_contra hn
  rw [Bool.not_eq_false] at hn
  exact Bool.noConfusion ((hi k).symm.trans (hf.issuing k hn))

/-- A step that runs no callback. -/
theorem OnceInv.frame (h : OnceInv s) (hlog : s'.doneLog = s.doneLog) (hreq : s'.req = s.req)
    (hfresh : ∀ k, (s'.pc k).fresh = true → (s.pc k).fresh = true)
    (hstale : Stale s → StaleFrame s s') : OnceInv s' := by
  have hreqs : s'.doneReqs = s.doneReqs := congrArg (List.map DoneCall.req) hlog
  refine ⟨hreqs ▸ h.nodup, fun k hk => hreqs ▸ h.fresh k (hfresh k hk), ?_⟩
  intro hst
  have hst' : Stale s := by
    rwa [Stale, hreq, hreqs] at hst
  exact h.stale_frame hst' (hstale hst')

theorem not_stale_of_req {r : ℕ} (hreq : s.req = some r) (hr : r ∉ s.doneReqs) : ¬ Stale s := by
  rintro ⟨q, hq, hmem⟩
  rw [hreq, Option.mem_some_iff] at hq
  exact hr (hq ▸ hmem)

theorem CallStep.issuing_le {v : Version} {ok : Bool} (hs : CallStep v k ok s s')
    (hk : s.pc k ≠ .issue .setReq) :
    ∀ j, (s'.pc j).issuing = true → (s.pc j).issuing = true := by
  intro j hj
  by_cases hjk : j = k
  · subst hjk
    exact (hs.issuing_of hj).resolve_right hk
  · rwa [hs.others j hjk] at hj

/-- The store of `sc->req` puts a request in the place of a stale one. -/
theorem OnceInv.setReq {ok : Bool} (h : OnceInv s) (hk : s.pc k = .issue .setReq)
    (hs : callStep cfg k ok s = some s') : OnceInv s' := by
  have hstep := callStep_spec hs
  rw [callStep, hk] at hs
  cases hs
  have hno : k ∉ s.doneReqs := by
    apply h.fresh
    rw [hk]
    rfl
  exact ⟨h.nodup, fun j hj => h.fresh j (hstep.fresh_le j hj),
    fun hst => absurd hst (not_stale_of_req rfl hno)⟩

/-- A callback for a request that had none so far. -/
theorem OnceInv.snoc {r : ℕ} (h : OnceInv s) (hno : r ∉ s.doneReqs)
    (hr : (s'.pc r).fresh = false) (hreqs : s'.doneReqs = s.doneReqs ++ [r])
    (hfresh : ∀ k, (s'.pc k).fresh = true → (s.pc k).fresh = true) :
    s'.doneReqs.Nodup ∧ ∀ k, (s'.pc k).fresh = true → k ∉ s'.doneReqs := by
  rw [hreqs]
  refine ⟨nodup_snoc h.nodup hno, ?_⟩
  intro k hk
  rw [List.mem_append, List.mem_singleton]
  rintro (hmem | rfl)
  · exact h.fresh k (hfresh k hk) hmem
  · rw [hr] at hk
    exact Bool.noConfusion hk

/-- `pre_request` skips a command, which was never the current one. -/
theorem OnceInv.skip {r : ℕ} (h : OnceInv s) (hr : (s.pc r).fresh = true)
    (hr' : (s'.pc r).fresh = false) (hreqs : s'.doneReqs = s.doneReqs ++ [r])
    (hreq : s'.req = s.req) (hcur : s.req ≠ some r)
    (hfresh : ∀ k, (s'.pc k).fresh = true → (s.pc k).fresh = true)
    (hstale : Stale s → StaleFrame s s') : OnceInv s' := by
  obtain ⟨hnodup, hnone⟩ := h.snoc (h.fresh r hr) hr' hreqs hfresh
  refine ⟨hnodup, hnone, ?_⟩
  rintro ⟨q, hq, hmem⟩
  rw [hreqs, List.mem_append, List.mem_singleton] at hmem
  rw [hreq] at hq
  have hst : Stale s := by
    rcases hmem with hmem | rfl
    · exact ⟨q, hq, hmem⟩
    · exact absurd hq hcur
  exact h.stale_frame hst (hstale hst)

/-- While a request is stale no call is about to start it or to arm its
callout, and no block count command may be started. -/
theorem OnceInv.call_stale {v : Version} {ok : Bool} (h : OnceInv s) (hst : Stale s)
    (hk : s.pc k ≠ .issue .setReq) (hok : onceOk s (.call k ok)) (hs : CallStep v k ok s s') :
    StaleFrame s s' := by
  obtain ⟨-, -, hissue⟩ := h.stale hst
  have hni := hissue k
  refine ⟨hs.started.resolve_right ?_, hs.callout.resolve_right ?_, hs.issuing_le hk⟩
  · rintro ⟨hstarts, hok'⟩
    unfold CallPc.starts at hstarts
    split at hstarts <;> rename_i hpc
    · exact hok hpc hok' hst
    · rw [hpc] at hni
      exact Bool.noConfusion hni
    · exact Bool.noConfusion hstarts
  · intro hpc
    rw [hpc] at hni
    exact Bool.noConfusion hni

theorem OnceInv.callStep {ok : Bool} (h : OnceInv s) (hi : CallInv cfg s)
    (hok : onceOk s (.call k ok)) (hs : callStep cfg k ok s = some s') : OnceInv s' := by
  by_cases hk : s.pc k = .issue .setReq
  · exact h.setReq hk hs
  have hstep := callStep_spec hs
  have hreq : s'.req = s.req := hstep.req.resolve_right fun hn => hk hn.1
  have hstale : Stale s → StaleFrame s s' := fun hst => h.call_stale hst hk hok hstep
  rcases hstep.doneLog with hlog | ⟨hf, hf', -, error, resp, buffer, hlog⟩
  · exact h.frame hlog hreq hstep.fresh_le hstale
  · have hcur : s.req ≠ some k := by
      intro hn
      rw [hi.current k hn] at hf
      exact Bool.noConfusion hf
    exact h.skip hf hf' (doneReqs_snoc hlog) hreq hcur hstep.fresh_le hstale

/-- An event arrives for a command that was started, so the current request is
not stale. -/
theorem OnceInv.doneEvent {c : Option ℕ} (h : OnceInv s) (hi : CallInv cfg s)
    (hd : DoneEvent s s' c) (hstarted : s.hc.started = true) : OnceInv s' := by
  have hfresh : ∀ k, (s'.pc k).fresh = true → (s.pc k).fresh = true := by
    rw [hd.pc]
    intro _ hk
    exact hk
  have hns : ¬ Stale s := by
    intro hst
    rw [(h.stale hst).1] at hstarted
    exact Bool.noConfusion hstarted
  cases c with
  | none =>
      obtain ⟨hreq, hlog, -⟩ := hd.quiet rfl
      exact h.frame hlog hreq hfresh fun hst => absurd hst hns
  | some r =>
      obtain ⟨hreq, hreq', resp, buffer, hlog⟩ := hd.done r rfl
      have hno : r ∉ s.doneReqs := fun hmem => hns ⟨r, hreq, hmem⟩
      have hr : (s'.pc r).fresh = false := by
        rw [hd.pc]
        exact hi.current r hreq
      obtain ⟨hnodup, hnone⟩ := h.snoc hno hr (doneReqs_snoc hlog) hfresh
      refine ⟨hnodup, hnone, ?_⟩
      rintro ⟨q, hq, -⟩
      rw [hreq'] at hq
      exact (Option.not_mem_none q hq).elim

/-- The timeout makes its request stale: the controller has been reset, the
callout has fired, and no call is under way, for the handler has the lock. -/
theorem OnceInv.report {r : ℕ} (h : OnceInv s) (hi : CallInv cfg s) (hreq : s.req = some r)
    (hns : ¬ Stale s) (hstopped : s.hc.started = false) (hidle : s.callout = .idle)
    (hfree : s.lock = none) : OnceInv (s.callDone r) := by
  have hno : r ∉ s.doneReqs := fun hmem => hns ⟨r, hreq, hmem⟩
  have hlog : (s.callDone r).doneLog = s.doneLog ++
      [⟨r, (s.cmds r).error, (s.cmds r).resp, s.buffer r, s.errSeen r⟩] := rfl
  have hr : ((s.callDone r).pc r).fresh = false := hi.current r hreq
  obtain ⟨hnodup, hnone⟩ := h.snoc hno hr (doneReqs_snoc hlog) fun _ hk => hk
  refine ⟨hnodup, hnone, fun _ => ⟨hstopped, hidle, ?_⟩⟩
  intro k
  by_contra hn
  rw [Bool.not_eq_false] at hn
  have hlock := hi.locked k (CallPc.issuing_locked cfg.version hn)
  rw [hfree] at hlock
  exact (Option.some_ne_none _ hlock.symm).elim

theorem eventStep_onceInv {e : SdifEvent} (h : OnceInv s) (hi : CallInv cfg s)
    (hdom : promised s e) (hok : onceOk s e) (he : e ≠ .timeout)
    (hs : eventStep cfg s e = some s') : OnceInv s' := by
  cases e with
  | submit cmd bytes =>
      cases hs
      refine h.frame rfl rfl hi.submit_fresh fun _ => ⟨rfl, rfl, ?_⟩
      intro k hk
      rw [submit_pc] at hk
      split at hk
      · exact Bool.noConfusion ((CallPc.fresh_of_issuing hk).symm.trans entry_fresh)
      · exact hk
  | call k ok => exact h.callStep hi hok hs
  | cmdDone resp =>
      cases hs
      exact h.doneEvent hi (commandDone_spec resp s) hdom
  | dataDone bytes =>
      cases hs
      exact h.doneEvent hi (dataDone_spec bytes s) hdom
  | errOccure =>
      cases hs
      obtain ⟨hp, -, -, hhc, hreq, hlog, hcall, -⟩ := errorOccurred_spec cfg s
      refine h.frame hlog hreq ?_ fun _ => ⟨?_, hcall, ?_⟩
      · intro k hk
        rwa [hp] at hk
      · rw [hhc]
      · intro k hk
        rwa [hp] at hk
  | expire =>
      obtain ⟨harmed, ht⟩ := Option.ite_none_right_eq_some.mp hs
      cases ht
      refine h.frame rfl rfl (fun _ hk => hk) ?_
      intro hst
      -- the callout of a stale request is not armed
      have hidle := (h.stale hst).2.1
      rw [harmed] at hidle
      exact Callout.noConfusion hidle
  | timeout => exact absurd rfl he
  | updateIos powerUp useHold =>
      obtain ⟨-, ht⟩ := Option.ite_none_right_eq_some.mp hs
      cases ht
      exact h.frame rfl rfl (fun _ hk => hk) fun _ => ⟨rfl, rfl, fun _ hk => hk⟩

/-! ## While the handler runs -/

/-- The handler runs: it has the lock, its callout has fired, and the current
request has not been completed. -/
structure HandlerRuns (s : SdifState) : Prop where
  free : s.lock = none
  fired : s.callout = .idle
  fresh : ¬ Stale s

theorem not_stale_congr (h : ¬ Stale s) (hreq : s'.req = s.req) (hlog : s'.doneLog = s.doneLog) :
    ¬ Stale s' := by
  have hreqs : s'.doneReqs = s.doneReqs := congrArg (List.map DoneCall.req) hlog
  rwa [Stale, hreq, hreqs]

theorem finishCommand_fired (h : s.callout = .idle) :
    (finishCommand cfg s).callout = .idle := by
  unfold finishCommand
  split
  · exact h
  · split
    · split
      · show (if s.callout = .armed then Callout.idle else s.callout) = .idle
        rw [h]
        rfl
      · exact h
    · exact h

theorem HandlerRuns.notLocked (h : HandlerRuns s) (hi : CallInv cfg s) (k : ℕ) :
    (s.pc k).locked cfg.version = false := by
  by_contra hn
  rw [Bool.not_eq_false] at hn
  have hlock := hi.locked k hn
  rw [h.free] at hlock
  exact Option.some_ne_none _ hlock.symm

/-- A call without the lock starts no command, arms no callout and stores no
request. -/
theorem CallStep.unlocked {ok : Bool} (hs : CallStep cfg.version k ok s s')
    (hk : (s.pc k).locked cfg.version = false) :
    s'.req = s.req ∧ s'.callout = s.callout ∧ s'.hc.started = s.hc.started := by
  have hne : ∀ {p : CallPc}, p.locked cfg.version = true → s.pc k ≠ p := by
    rintro p hp rfl
    exact Bool.noConfusion (hk.symm.trans hp)
  refine ⟨hs.req.resolve_right fun hn => hne rfl hn.1, hs.callout.resolve_right (hne rfl),
    hs.started.resolve_right ?_⟩
  rintro ⟨hstarts, -⟩
  unfold CallPc.starts at hstarts
  split at hstarts <;> rename_i hpc
  · exact hne rfl hpc
  · exact hne rfl hpc
  · exact Bool.noConfusion hstarts

theorem HandlerRuns.call {ok : Bool} (h : HandlerRuns s) (hi : CallInv cfg s)
    (hwait : (s.pc k).locking = false) (hs : CallStep cfg.version k ok s s') :
    HandlerRuns s' ∧ s'.req = s.req ∧ s'.hc.started = s.hc.started := by
  obtain ⟨hreq, hcall, hstarted⟩ := hs.unlocked (h.notLocked hi k)
  refine ⟨⟨?_, hcall.trans h.fired, ?_⟩, hreq, hstarted⟩
  · rcases hs.lock with ⟨-, hl, -⟩ | ⟨hl, -⟩ | ⟨-, hl, -⟩
    · exact hl.trans h.free
    · exact Bool.noConfusion (hwait.symm.trans hl)
    · exact hl
  · rcases hs.doneLog with hlog | ⟨hf, -, -, error, resp, buffer, hlog⟩
    · exact not_stale_congr h.fresh hreq hlog
    · -- a command is skipped, which was never the current one
      rintro ⟨r, hr, hmem⟩
      rw [hreq] at hr
      rw [doneReqs_snoc hlog, List.mem_append, List.mem_singleton] at hmem
      rcases hmem with hmem | rfl
      · exact h.fresh ⟨r, hr, hmem⟩
      · exact Bool.noConfusion ((hi.current r hr).symm.trans hf)

theorem HandlerRuns.doneEvent {c : Option ℕ} (h : HandlerRuns s) (hd : DoneEvent s s' c)
    (hcall : s'.callout = .idle) : HandlerRuns s' := by
  refine ⟨hd.lock.trans h.free, hcall, ?_⟩
  cases c with
  | none =>
      obtain ⟨hreq, hlog, -⟩ := hd.quiet rfl
      exact not_stale_congr h.fresh hreq hlog
  | some q =>
      rintro ⟨r, hr, -⟩
      rw [(hd.done q rfl).2.1] at hr
      exact Option.not_mem_none r hr

/-- What the driver does meanwhile. `sc->req` changes only when an event
completes the request. -/
theorem HandlerRuns.event {e : SdifEvent} (h : HandlerRuns s) (hi : CallInv cfg s)
    (hwait : e.waits s = false) (he : e ≠ .timeout) (hs : eventStep cfg s e = some s') :
    HandlerRuns s' ∧ (completes cfg s e = none → s'.req = s.req) ∧
    s'.hc.started = s.hc.started := by
  cases e with
  | submit cmd bytes =>
      cases hs
      exact ⟨⟨h.free, h.fired, h.fresh⟩, fun _ => rfl, rfl⟩
  | call k ok =>
      obtain ⟨hruns, hreq, hstarted⟩ := h.call hi hwait (callStep_spec hs)
      exact ⟨hruns, fun _ => hreq, hstarted⟩
  | cmdDone resp =>
      cases hs
      have hd : DoneEvent s (commandDone cfg resp s) _ := commandDone_spec resp s
      refine ⟨h.doneEvent hd ?_, fun hc => (hd.quiet hc).1, hd.started⟩
      unfold commandDone
      split
      · exact finishCommand_fired h.fired
      · exact h.fired
  | dataDone bytes =>
      cases hs
      have hd : DoneEvent s (dataDone cfg bytes s) _ := dataDone_spec bytes s
      refine ⟨h.doneEvent hd ?_, fun hc => (hd.quiet hc).1, hd.started⟩
      unfold dataDone
      split
      · exact h.fired
      · split
        · exact finishCommand_fired h.fired
        · exact h.fired
  | errOccure =>
      cases hs
      obtain ⟨-, hl, -, hhc, hreq, hlog, hcall, -⟩ := errorOccurred_spec cfg s
      exact ⟨⟨hl.trans h.free, hcall.trans h.fired, not_stale_congr h.fresh hreq hlog⟩,
        fun _ => hreq, congrArg _ hhc⟩
  | expire =>
      obtain ⟨harmed, -⟩ := Option.ite_none_right_eq_some.mp hs
      rw [h.fired] at harmed
      cases harmed
  | timeout => exact absurd rfl he
  | updateIos powerUp useHold => cases hwait

/-! ## Every run -/

/-- `promised` of the driver. -/
def cutPromised (s : CutState) (e : SdifEvent) : Prop := promised s.sdif e

/-- `onceOk` of the driver. -/
def cutOnceOk (s : CutState) (e : SdifEvent) : Prop := onceOk s.sdif e

/-- No event completes the current request between the handler's read of
`sc->req` and its reset of the controller. -/
def windowOk (cfg : SdifConfig) (s : CutState) (e : SdifEvent) : Prop :=
  s.handler.beforeReset = true → completes cfg s.sdif e = none

instance (s : CutState) (e : SdifEvent) : Decidable (cutPromised s e) :=
  inferInstanceAs (Decidable (promised s.sdif e))

instance (s : CutState) (e : SdifEvent) : Decidable (cutOnceOk s e) :=
  inferInstanceAs (Decidable (onceOk s.sdif e))

instance (s : CutState) (e : SdifEvent) : Decidable (windowOk cfg s e) :=
  inferInstanceAs (Decidable (_ → _))

structure CutInv (cfg : SdifConfig) (c : CutState) : Prop where
  calls : CallInv cfg c.sdif
  once : OnceInv c.sdif
  runs : c.handler ≠ .idle → HandlerRuns c.sdif
  current : ∀ r ∈ c.handler.req, c.sdif.req = some r
  reset : c.handler.afterReset = true → c.sdif.hc.started = false

variable {c c' : CutState}

/-- A step of the handler that runs no callback. -/
theorem CutInv.handlerStep {t : SdifState} {p : TimeoutPc} (h : CutInv cfg c)
    (hruns : HandlerRuns t) (hpc : t.pc = c.sdif.pc) (hsubs : t.subs = c.sdif.subs)
    (hlock : t.lock = c.sdif.lock) (hreq : t.req = c.sdif.req)
    (hlog : t.doneLog = c.sdif.doneLog) (hp : ∀ r ∈ p.req, t.req = some r)
    (hreset : p.afterReset = true → t.hc.started = false) : CutInv cfg ⟨t, p⟩ := by
  have hns : ¬ Stale c.sdif := not_stale_congr hruns.fresh hreq.symm hlog.symm
  refine ⟨h.calls.frame hpc hlock hsubs (Or.inl hreq), ?_, fun _ => hruns, hp, hreset⟩
  exact h.once.frame hlog hreq (fun k hk => hpc ▸ hk) fun hst => absurd hst hns

theorem timeoutStep_inv (h : CutInv cfg c) (hs : timeoutStep cfg c = some c') :
    CutInv cfg c' := by
  obtain ⟨s, p⟩ := c
  have hpanic (hruns : HandlerRuns s) : CutInv cfg ⟨s.panic, .idle⟩ :=
    h.handlerStep ⟨hruns.free, hruns.fired, hruns.fresh⟩ rfl rfl rfl rfl rfl
      (fun r hr => (Option.not_mem_none r hr).elim) fun hr => Bool.noConfusion hr
  cases p with
  | idle =>
      obtain ⟨⟨hexp, hfree⟩, ht⟩ := Option.ite_none_right_eq_some.mp hs
      cases ht
      have hns : ¬ Stale s := by
        intro hst
        have hidle := (h.once.stale hst).2.1
        rw [show s.callout = .expired from hexp] at hidle
        exact Callout.noConfusion hidle
      refine h.handlerStep (t := { s with callout := .idle }) ⟨hfree, rfl, hns⟩ rfl rfl rfl rfl rfl
        ?_ ?_
      · intro r hr
        split at hr <;> exact (Option.not_mem_none r hr).elim
      · intro hr
        split at hr <;> cases hr
  | readReq =>
      have hruns : HandlerRuns s := h.runs TimeoutPc.noConfusion
      rcases Option.eq_none_or_eq_some s.req with hreq | ⟨r, hreq⟩
      · simp only [timeoutStep, hreq] at hs
        cases hs
        exact hpanic hruns
      · simp only [timeoutStep, hreq] at hs
        cases hs
        refine h.handlerStep hruns rfl rfl rfl rfl rfl ?_ fun hr => Bool.noConfusion hr
        rintro _ ⟨⟩
        exact hreq
  | dmaStop r =>
      have hruns : HandlerRuns s := h.runs TimeoutPc.noConfusion
      unfold timeoutStep at hs
      dsimp only at hs
      split at hs
      · cases hs
        exact hpanic hruns
      · cases hs
        exact h.handlerStep hruns rfl rfl rfl rfl rfl h.current fun hr => Bool.noConfusion hr
  | restart r =>
      have hruns : HandlerRuns s := h.runs TimeoutPc.noConfusion
      cases hs
      exact h.handlerStep (t := { s with hc := s.hc.restart })
        ⟨hruns.free, hruns.fired, hruns.fresh⟩ rfl rfl rfl rfl rfl h.current fun _ => rfl
  | setError r =>
      have hruns : HandlerRuns s := h.runs TimeoutPc.noConfusion
      cases hs
      exact h.handlerStep (t := s.setErr r .timeout) ⟨hruns.free, hruns.fired, hruns.fresh⟩
        rfl rfl rfl rfl rfl h.current fun _ => h.reset rfl
  | done r =>
      have hruns : HandlerRuns s := h.runs TimeoutPc.noConfusion
      cases hs
      exact ⟨h.calls.frame rfl rfl rfl (Or.inl rfl),
        h.once.report h.calls (h.current r rfl) hruns.fresh (h.reset rfl) hruns.fired hruns.free,
        fun hne => absurd rfl hne, fun _ hr => (Option.not_mem_none _ hr).elim,
        fun hr => Bool.noConfusion hr⟩

/-- An event comes for a command that was started, so not behind the reset. -/
theorem completes_of_reset {e : SdifEvent} (hdom : promised s e) (hstopped : s.hc.started = false) :
    completes cfg s e = none := by
  cases e with
  | cmdDone resp => exact Bool.noConfusion (hstopped.symm.trans hdom)
  | dataDone bytes => exact Bool.noConfusion (hstopped.symm.trans hdom)
  | _ => rfl

theorem TimeoutPc.req_cases {p : TimeoutPc} {r : ℕ} (h : r ∈ p.req) :
    p ≠ .idle ∧ (p.beforeReset = true ∨ p.afterReset = true) := by
  cases p with
  | idle => cases h
  | readReq => cases h
  | dmaStop r => exact ⟨TimeoutPc.noConfusion, Or.inl rfl⟩
  | restart r => exact ⟨TimeoutPc.noConfusion, Or.inl rfl⟩
  | setError r => exact ⟨TimeoutPc.noConfusion, Or.inr rfl⟩
  | done r => exact ⟨TimeoutPc.noConfusion, Or.inr rfl⟩

theorem TimeoutPc.not_idle_of_reset {p : TimeoutPc} (h : p.afterReset = true) : p ≠ .idle := by
  rintro rfl
  exact Bool.noConfusion h

theorem cutStep_inv {e : SdifEvent} (h : CutInv cfg c) (hdom : cutPromised c e)
    (hok : cutOnceOk c e) (hwin : windowOk cfg c e) (hs : cutStep cfg c e = some c') :
    CutInv cfg c' := by
  by_cases he : e = .timeout
  · subst he
    exact timeoutStep_inv h (cutStep_timeout hs).2
  obtain ⟨hwait, hp, hs⟩ := cutStep_event he hs
  have hs := (sdifStep_iff.mp hs).2
  have hmeanwhile (hne : c.handler ≠ .idle) := (h.runs hne).event h.calls
    (hwait.resolve_left hne) he hs
  refine ⟨eventStep_callInv h.calls hs, eventStep_onceInv h.once h.calls hdom hok he hs, ?_, ?_, ?_⟩
  · rw [hp]
    exact fun hne => (hmeanwhile hne).1
  · rw [hp]
    intro r hr
    obtain ⟨hne, hphase⟩ := TimeoutPc.req_cases hr
    have hquiet : completes cfg c.sdif e = none := by
      rcases hphase with hbefore | hafter
      · exact hwin hbefore
      · exact completes_of_reset hdom (h.reset hafter)
    exact ((hmeanwhile hne).2.1 hquiet).trans (h.current r hr)
  · rw [hp]
    intro hr
    exact (hmeanwhile (TimeoutPc.not_idle_of_reset hr)).2.2.trans (h.reset hr)

theorem once_reachable_inv
    (h : ((((cutSystem cfg).restrict cutPromised).restrict cutOnceOk).restrict
      (windowOk cfg)).Reachable c) : CutInv cfg c := by
  apply h.restrict_invariant
  · rintro c ⟨mem, need, rfl⟩
    refine ⟨sdif_reachable_callInv (.init ⟨mem, need, rfl⟩),
      ⟨List.nodup_nil, fun _ _ => List.not_mem_nil, ?_⟩, fun hne => absurd rfl hne,
      fun _ hr => (Option.not_mem_none _ hr).elim, fun hr => Bool.noConfusion hr⟩
    rintro ⟨q, hq, -⟩
    exact (Option.not_mem_none q hq).elim
  · intro c e c' _ hi hwin hs
    obtain ⟨hok, hs⟩ := System.restrict_step.mp hs
    obtain ⟨hdom, hs⟩ := System.restrict_step.mp hs
    exact cutStep_inv hi hdom hok hwin hs

/-- A request that is started, and times out. -/
def timeoutRun (v : Version) : List SdifEvent :=
  .submit sendStatus [] :: calls 0 (if v = .v1 then 15 else 16) ++ [.expire, .timeout]

/-- The same, with `es` between the handler's first `n` steps and the others. -/
def cutTimeoutRun (v : Version) (n : ℕ) (es : List SdifEvent) : List SdifEvent :=
  .submit sendStatus [] :: calls 0 (if v = .v1 then 15 else 16) ++ .expire ::
    (List.replicate n .timeout ++ es ++ List.replicate (6 - n) .timeout)

theorem not_nodup_of_run {M : System CutState SdifEvent} (es : List SdifEvent)
    (hes : (M.run ⟨attached (fun _ => 0#8) false, .idle⟩ es).map (fun c => c.sdif.doneReqs) =
      some [0, 0])
    (hi : M.init ⟨attached (fun _ => 0#8) false, .idle⟩) :
    ¬ ∀ c, M.Reachable c → c.sdif.doneReqs.Nodup := by
  intro h
  obtain ⟨c', hc, hq⟩ := Option.map_eq_some_iff.mp hes
  have hnodup := h c' (System.reachable_of_run _ hi hc)
  rw [hq] at hnodup
  exact absurd hnodup (by decide)

end Phytium.Sdif
