import PhytiumSdk.Sdif.FaultFree
import Mathlib.Algebra.Order.BigOperators.Group.Finset

/-!
# The service in every order of reports

What a client sees of a run without faults: its `done` runs once, with the last
report, and finds what `serve` says, in whatever order the controller reports.
And every such run comes to an end in which all requests are done.
-/

namespace Phytium.Sdif

open Lib

variable {cfg : SdifConfig} {dev : Device} {s s' t : SdifState} {j : Job} {σ : Service}

/-! ## What is to be shown -/

/-- The controller has a report to make. -/
def SdifState.owes (s : SdifState) : Bool := s.hc.cmdOwed || s.hc.dataOwed

/-- Nothing is left to do. -/
def Settled (s : SdifState) : Prop :=
  (∀ k < s.submitted, s.pc k = .returned none) ∧ s.owes = false

def SdifEvent.isDone : SdifEvent → Bool
  | .cmdDone _ => true
  | .dataDone _ => true
  | _ => false

def SdifEvent.isSubmit : SdifEvent → Bool
  | .submit _ _ => true
  | _ => false

/-- What a report does: the last one calls the `done` of the current request, if
there is one, and leaves the driver idle. -/
structure ReportOk (s s' : SdifState) : Prop where
  early : s'.owes = true → s'.doneLog = s.doneLog
  last : s'.owes = false → s'.doneReqs = s.doneReqs ++ s.req.toList ∧
    s'.req = none ∧ s'.curcmd = none ∧ s'.reqPending = false

/-- What a step does: only reports call a `done`, and none does during the
internal CMD23. -/
structure StepOk (s : SdifState) (e : SdifEvent) (s' : SdifState) : Prop where
  report : e.isDone = true → ReportOk s s'
  quiet : e.isDone = false → s'.doneLog = s.doneLog
  internal : ∀ k, s.pc k = .blockCount .poll → s'.doneReqs = s.doneReqs

/-- Bounds the steps that are left. -/
def work (v : Version) (s : SdifState) : ℕ :=
  3 * (∑ k ∈ Finset.range s.submitted, (s.pc k).left v) +
    (s.hc.cmdOwed.toNat + s.hc.dataOwed.toNat)

/-- The property of a state of a run without faults. -/
structure FaultFreeOk (cfg : SdifConfig) (dev : Device) (s₀ s : SdifState) : Prop where
  running : s.panicked = false
  /-- each `done` at most once, in the order of the requests -/
  once : s.doneReqs = List.range s.doneReqs.length
  settled : Settled s → s.doneReqs = List.range s.submitted
  step : ∀ e s', (serviceSystem cfg dev s₀).step s e = some s' → StepOk s e s'
  /-- the replies are those of the service -/
  replies : s.doneLog <+: (serve cfg dev (serviceFrom s₀) s.subs).log
  /-- and the same in every other run -/
  sameReplies : ∀ t, (serviceSystem cfg dev s₀).Reachable t → ∀ k d d',
    s.doneLog[k]? = some d → t.doneLog[k]? = some d' →
    s.subs.take (k + 1) = t.subs.take (k + 1) → d = d'
  /-- without further requests the run comes to an end, and only when it is
  settled -/
  bounded : ∀ es t, (∀ e ∈ es, e.isSubmit = false) →
    (serviceSystem cfg dev s₀).run s es = some t → es.length ≤ work cfg.version s
  progress : Settled s ∨
    ∃ e s', e.isSubmit = false ∧ (serviceSystem cfg dev s₀).step s e = some s'

/-! ## Reports -/

theorem finishCommand_hc (s : SdifState) : (finishCommand cfg s).hc = s.hc := by
  unfold finishCommand
  split
  · rfl
  · split
    · split <;> rfl
    · rfl

theorem commandDone_hc (resp : Resp) (s : SdifState) :
    (commandDone cfg resp s).hc = { s.hc with
      cmdOwed := false
      respRegs := resp } := by
  unfold commandDone
  split
  · rw [finishCommand_hc]
    rfl
  · rfl

theorem dataDone_hc (bytes : List (BitVec 8)) (s : SdifState) :
    (dataDone cfg bytes s).hc = { s.hc with dataOwed := false } := by
  unfold dataDone
  split
  · rfl
  · split
    · rw [finishCommand_hc]
      rfl
    · rfl

theorem Started.owes (h : Started cfg dev j s) : s.owes = true := by
  rw [SdifState.owes, Bool.or_eq_true]
  exact h.owed

theorem Idle.owes (h : Idle cfg σ s) : s.owes = false := by
  simp [SdifState.owes, h.cmdOwed, h.dataOwed]

/-- A report on the request under way. -/
theorem Started.reportOk (h : Started cfg dev j s)
    (hs : Started cfg dev j s' ∨ Idle cfg (j.after cfg dev) s') : ReportOk s s' := by
  rcases hs with hst | hidle
  · refine ⟨fun _ => hst.log.trans h.log.symm, ?_⟩
    intro hn
    exact Bool.noConfusion (hn.symm.trans hst.owes)
  · refine ⟨fun hn => Bool.noConfusion (hidle.owes.symm.trans hn), ?_⟩
    intro _
    refine ⟨?_, hidle.req, hidle.curcmd, hidle.pending⟩
    simp only [SdifState.doneReqs, hidle.log, h.log, h.req, Job.after, Job.reply, List.map_append,
      List.map_cons, List.map_nil, Option.toList_some]

/-- The report that ends the internal CMD23. -/
theorem Waiting.reportOk {p : CallPc} {resp : Resp} (h : Waiting cfg p j s)
    (howed : s.hc.cmdOwed = true) : ReportOk s (commandDone cfg resp s) := by
  have hw : Waiting cfg p j (commandDone cfg resp s) := h.reportCommand howed
  have hc : (commandDone cfg resp s).hc.cmdOwed = false := by
    rw [commandDone_hc]
  refine ⟨?_, fun _ => ⟨?_, hw.req, hw.curcmd, ?_⟩⟩
  · intro hn
    simp [SdifState.owes, hc, hw.dataOwed] at hn
  · simp [SdifState.doneReqs, hw.log, h.log, h.req]
  · rw [hw.pending, hc, h.cmdOwed howed]
    rfl

theorem reportOk_of_step {e : SdifEvent} (hlib : ResponsesRead cfg) (h : ServiceInv cfg dev σ s)
    (hok : faultFree cfg dev s e) (he : e.isDone = true) (hs : eventStep cfg s e = some s') :
    ReportOk s s' := by
  cases e with
  | cmdDone resp =>
      cases hs
      rcases h.stage with ⟨hidle, -⟩ | ⟨prior, cmd, bytes, -, -, hstage⟩
      · exact Bool.noConfusion (hidle.cmdOwed.symm.trans hok.1)
      · rcases hstage with hw | hi | hst
        · exact hw.reportOk hok.1
        · exact Bool.noConfusion (hi.cmdOwed.symm.trans hok.1)
        · rw [hok.2 _ hst.req]
          apply hst.reportOk
          have hrep := hst.reportCommand hlib
          split at hrep
          · exact Or.inl hrep
          · exact Or.inr hrep
  | dataDone bytes =>
      cases hs
      rcases h.stage with ⟨hidle, -⟩ | ⟨prior, cmd, bytes', -, -, hstage⟩
      · exact Bool.noConfusion (hidle.dataOwed.symm.trans hok.1)
      · rcases hstage with hw | hi | hst
        · exact Bool.noConfusion (hw.dataOwed.symm.trans hok.1)
        · exact Bool.noConfusion (hi.dataOwed.symm.trans hok.1)
        · rw [hok.2 _ hst.req]
          apply hst.reportOk
          have hrep := hst.reportData hok.1
          split at hrep
          · exact Or.inl hrep
          · exact Or.inr hrep
  | _ => cases he

/-- While a call polls for the internal CMD23 no request is current. -/
theorem ServiceInv.req_of_poll {k : ℕ} (hσ : σ.log = []) (h : ServiceInv cfg dev σ s)
    (hk : s.pc k = .blockCount .poll) : s.req = none := by
  have hborn : k < s.submitted := by
    apply h.calls.born
    rw [hk]
    exact CallPc.noConfusion
  rcases h.position hσ hborn with hst | ⟨prior, cmd, bytes, -, -, rfl, hstage⟩
  · rw [hk] at hst
    cases hst
  · rcases hstage with hw | hi | hst
    · exact hw.req
    · exact CallPc.noConfusion (hk.symm.trans hi.pc)
    · have hstarted := hst.pc
      rw [hk] at hstarted
      cases hstarted

theorem stepOk_of_step {e : SdifEvent} (hlib : ResponsesRead cfg) (hσ : σ.log = [])
    (h : ServiceInv cfg dev σ s) (hok : faultFree cfg dev s e)
    (hs : eventStep cfg s e = some s') : StepOk s e s' := by
  have hquiet : e.isDone = false → s'.doneLog = s.doneLog := by
    intro he
    cases e with
    | submit cmd bytes =>
        cases hs
        rfl
    | call k ok => exact (h.call hσ hok hs).2
    | cmdDone resp => cases he
    | dataDone bytes => cases he
    | errOccure => exact hok.elim
    | expire => exact hok.elim
    | timeout => exact hok.elim
    | updateIos powerUp useHold => exact hok.elim
  refine ⟨fun he => reportOk_of_step hlib h hok he hs, hquiet, ?_⟩
  intro k hk
  cases he : e.isDone with
  | false => rw [SdifState.doneReqs, hquiet he, SdifState.doneReqs]
  | true =>
      have hrep := reportOk_of_step hlib h hok he hs
      cases ho : s'.owes with
      | true => rw [SdifState.doneReqs, hrep.early ho, SdifState.doneReqs]
      | false => rw [(hrep.last ho).1, h.req_of_poll hσ hk, Option.toList_none, List.append_nil]

/-! ## Replies -/

/-- The log is that of the service, up to the request under way. -/
theorem ServiceInv.log (h : ServiceInv cfg dev σ s) :
    ∃ prior more, s.subs = prior ++ more ∧ s.doneLog = (serve cfg dev σ prior).log := by
  rcases h.stage with ⟨hidle, -⟩ | ⟨prior, cmd, bytes, hsubs, -, hstage⟩
  · exact ⟨s.subs, [], (List.append_nil _).symm, hidle.log⟩
  · exact ⟨prior, _, hsubs, hstage.log⟩

theorem ServiceInv.once (hσ : σ.log = []) (h : ServiceInv cfg dev σ s) :
    s.doneReqs = List.range s.doneReqs.length := by
  obtain ⟨prior, more, -, hlog⟩ := h.log
  rw [SdifState.doneReqs, hlog, serve_reqs hσ, List.length_range]

theorem ServiceInv.replies (h : ServiceInv cfg dev σ s) :
    s.doneLog <+: (serve cfg dev σ s.subs).log := by
  obtain ⟨prior, more, hsubs, hlog⟩ := h.log
  rw [hlog, hsubs]
  exact serve_log_prefix ..

/-- The reply to a request is the service's to the requests up to it. -/
theorem ServiceInv.reply {k : ℕ} {d : DoneCall} (hσ : σ.log = []) (h : ServiceInv cfg dev σ s)
    (hd : s.doneLog[k]? = some d) :
    (serve cfg dev σ (s.subs.take (k + 1))).log[k]? = some d := by
  obtain ⟨more, hmore⟩ := h.replies
  have hk : k < s.doneLog.length := (List.getElem?_eq_some_iff.mp hd).1
  have hlen : s.doneLog.length ≤ s.subs.length := by
    have hle := h.replies.length_le
    rwa [serve_length, hσ, List.length_nil, Nat.zero_add] at hle
  rw [← serve_reply hσ (Nat.lt_of_lt_of_le hk hlen), ← hmore, List.getElem?_append_left hk]
  exact hd

theorem ServiceInv.running (h : ServiceInv cfg dev σ s) : s.panicked = false := by
  rcases h.stage with ⟨hidle, -⟩ | ⟨prior, cmd, bytes, -, -, hstage⟩
  · exact hidle.panicked
  · rcases hstage with hw | hi | hst
    · exact hw.panicked
    · exact hi.panicked
    · exact hst.panicked

theorem ServiceInv.settled (hσ : σ.log = []) (h : ServiceInv cfg dev σ s) (hs : Settled s) :
    s.doneReqs = List.range s.submitted := by
  obtain ⟨hpc, howes⟩ := hs
  rcases h.stage with ⟨hidle, -⟩ | ⟨prior, cmd, bytes, hsubs, -, hstage⟩
  · rw [SdifState.doneReqs, hidle.log, serve_reqs hσ, SdifState.submitted]
  · -- the request under way would have to be over
    have hret := hpc (Job.mk (serve cfg dev σ prior) cmd bytes).num (by
      rw [Job.num_prior hσ]
      simp [SdifState.submitted, hsubs])
    rcases hstage with hw | hi | hst
    · have hplace := hw.place
      rw [← hw.pc, hret] at hplace
      cases hplace
    · exact CallPc.noConfusion (hret.symm.trans hi.pc)
    · exact Bool.noConfusion (howes.symm.trans hst.owes)

/-! ## Progress -/

/-- A call goes on, unless it waits for the lock or for `req_pending`. -/
theorem callStep_isSome {k : ℕ} (hnew : s.pc k ≠ .new) (hret : ∀ err, s.pc k ≠ .returned err)
    (hlock : (s.pc k).locking = true → s.lock = none)
    (hpoll : s.pc k = .blockCount .poll → s.reqPending = false) :
    ∃ s', callStep cfg k true s = some s' := by
  cases hpc : s.pc k with
  | new => exact (hnew hpc).elim
  | lock =>
      rw [hpc] at hlock
      simp [callStep, hpc, SdifState.takeLock, hlock rfl]
  | blockCount p =>
      cases p with
      | lock =>
          rw [hpc] at hlock
          simp [callStep, hpc, blockCountStep, SdifState.takeLock, hlock rfl]
      | package =>
          simp only [callStep, hpc, blockCountStep]
          split <;> exact ⟨_, rfl⟩
      | poll => simp [callStep, hpc, blockCountStep, hpoll hpc]
      | exit err =>
          simp only [callStep, hpc, blockCountStep]
          split <;> exact ⟨_, rfl⟩
      | _ => simp [callStep, hpc, blockCountStep]
  | mainLock =>
      rw [hpc] at hlock
      simp [callStep, hpc, SdifState.takeLock, hlock rfl]
  | returned err => exact (hret err hpc).elim
  | _ => simp [callStep, hpc]

/-- A call behind the start waits for nothing. -/
theorem callStep_isSome_of_started {k : ℕ} (hk : (s.pc k).started = true)
    (hret : s.pc k ≠ .returned none) : ∃ s', callStep cfg k true s = some s' := by
  apply callStep_isSome
  · intro hn
    rw [hn] at hk
    cases hk
  · intro err hn
    rw [hn] at hk hret
    cases err with
    | none => exact hret rfl
    | some e => cases hk
  · intro hl
    unfold CallPc.started at hk
    split at hk <;> rename_i hpc
    · rw [hpc] at hl
      cases hl
    · rw [hpc] at hl
      cases hl
    · rw [hpc] at hl
      cases hl
    · cases hk
  · intro hn
    rw [hn] at hk
    cases hk

/-- An event that goes on with the requests there are. -/
def CanGoOn (cfg : SdifConfig) (dev : Device) (s : SdifState) : Prop :=
  ∃ e s', e.isSubmit = false ∧ faultFree cfg dev s e ∧ eventStep cfg s e = some s'

theorem canGoOn_call {k : ℕ} (h : ∃ s', callStep cfg k true s = some s') : CanGoOn cfg dev s := by
  obtain ⟨s', hs⟩ := h
  exact ⟨.call k true, s', rfl, rfl, hs⟩

theorem Started.canGoOn (h : Started cfg dev j s) : CanGoOn cfg dev s := by
  rcases h.owed with ho | ho
  · exact ⟨.cmdDone (dev.resp j.num), _, rfl, ⟨ho, by simp [h.req]⟩, rfl⟩
  · exact ⟨.dataDone (dev.data j.num), _, rfl, ⟨ho, by simp [h.req]⟩, rfl⟩

/-- A call that need not wait for the lock polls, and its report is to come, or
goes on. -/
theorem Waiting.canGoOn {p : CallPc} (h : Waiting cfg p j s)
    (hlock : p.locking = true → s.lock = none) : CanGoOn cfg dev s := by
  by_cases hpoll : p = .blockCount .poll ∧ s.reqPending = true
  · obtain ⟨rfl, hpend⟩ := hpoll
    have howed : s.hc.cmdOwed = true := h.pending.symm.trans hpend
    exact ⟨.cmdDone ⟨0#32, 0#32, 0#32, 0#32⟩, _, rfl, ⟨howed, by simp [h.req]⟩, rfl⟩
  · have hplace := h.place
    apply canGoOn_call (k := j.num)
    apply callStep_isSome <;> rw [h.pc]
    · rintro rfl
      cases hplace
    · rintro err rfl
      cases hplace
    · exact hlock
    · intro hp
      by_contra hn
      rw [Bool.not_eq_false] at hn
      exact hpoll ⟨hp, hn⟩

theorem CallPc.not_locked_of_locking {p : CallPc} {v : Version} (h : p.locking = true) :
    p.locked v = false := by
  unfold CallPc.locking at h
  split at h
  · rfl
  · rfl
  · rfl
  · cases h

/-- **No deadlock**: a call that waits for the lock waits for a call that goes
on, and one that waits for `req_pending` waits for a report. -/
theorem ServiceInv.canGoOn (hσ : σ.log = []) (h : ServiceInv cfg dev σ s) :
    Settled s ∨ CanGoOn cfg dev s := by
  rcases h.stage with ⟨hidle, hall⟩ | ⟨prior, cmd, bytes, hsubs, -, hstage⟩
  · by_cases hret : ∀ k < s.submitted, s.pc k = .returned none
    · exact Or.inl ⟨hret, hidle.owes⟩
    · right
      rw [not_forall] at hret
      obtain ⟨k, hk⟩ := hret
      rw [Classical.not_imp] at hk
      exact canGoOn_call (callStep_isSome_of_started (hall k hk.1) hk.2)
  · right
    rcases hstage with hw | hi | hst
    · rename_i p
      by_cases hwait : p.locking = true ∧ s.lock ≠ none
      · obtain ⟨hl, hlock⟩ := hwait
        obtain ⟨i, hi⟩ := Option.ne_none_iff_exists'.mp hlock
        have hheld := h.held i hi
        have hborn : i < s.submitted := by
          apply h.calls.born
          intro hn
          rw [hn] at hheld
          cases hheld
        have hne : i ≠ prior.length := by
          rintro rfl
          have hpc := hw.pc
          rw [Job.num_prior hσ] at hpc
          rw [hpc, CallPc.not_locked_of_locking hl] at hheld
          cases hheld
        have hlen : s.submitted = prior.length + 1 := by
          simp [SdifState.submitted, hsubs]
        apply canGoOn_call (k := i)
        apply callStep_isSome_of_started (h.before i (by omega))
        intro hn
        rw [hn] at hheld
        cases hheld
      · apply hw.canGoOn
        intro hl
        by_contra hn
        exact hwait ⟨hl, hn⟩
    · refine canGoOn_call (k := (Job.mk (serve cfg dev σ prior) cmd bytes).num) ?_
      simp [callStep, hi.pc]
    · exact hst.canGoOn

/-- A step of a call leaves less to it, and the same to the others. -/
theorem CallStep.left_lt {v : Version} {k : ℕ} {ok : Bool} (hs : CallStep v k ok s s')
    (hk : k < s.submitted) (hp : s'.panicked = false) :
    (∑ i ∈ Finset.range s'.submitted, (s'.pc i).left v) <
      ∑ i ∈ Finset.range s.submitted, (s.pc i).left v := by
  have hlt : (s'.pc k).left v < (s.pc k).left v := by
    rcases hs.forward with hlt | hn
    · exact hlt
    · exact Bool.noConfusion (hp.symm.trans hn)
  have hsub : s'.submitted = s.submitted := congrArg List.length hs.subs
  rw [hsub]
  apply Finset.sum_lt_sum
  · intro i _
    by_cases hik : i = k
    · rw [hik]
      exact hlt.le
    · rw [hs.others i hik]
  · exact ⟨k, Finset.mem_range.mpr hk, hlt⟩

theorem work_call {k : ℕ} {ok : Bool} (hs : CallStep cfg.version k ok s s')
    (hk : k < s.submitted) (hp : s'.panicked = false) :
    work cfg.version s' < work cfg.version s := by
  have hlt := hs.left_lt hk hp
  have hcmd := Bool.toNat_le s'.hc.cmdOwed
  have hdata := Bool.toNat_le s'.hc.dataOwed
  unfold work
  omega

theorem work_report {c : Option ℕ} (hd : DoneEvent s s' c)
    (howed : s'.hc.cmdOwed.toNat + s'.hc.dataOwed.toNat <
      s.hc.cmdOwed.toNat + s.hc.dataOwed.toNat) :
    work cfg.version s' < work cfg.version s := by
  have hsub : s'.submitted = s.submitted := congrArg List.length hd.subs
  unfold work
  rw [hd.pc, hsub]
  omega

theorem work_lt {e : SdifEvent} (hlib : ResponsesRead cfg) (hσ : σ.log = [])
    (h : ServiceInv cfg dev σ s) (he : e.isSubmit = false) (hok : faultFree cfg dev s e)
    (hs : eventStep cfg s e = some s') : work cfg.version s' < work cfg.version s := by
  have hrun := (eventStep_serviceInv hσ h hlib hok hs).running
  cases e with
  | submit cmd bytes => cases he
  | call k ok =>
      have hstep := callStep_spec hs
      exact work_call hstep (h.calls.born hstep.entered) hrun
  | cmdDone resp =>
      cases hs
      apply work_report (commandDone_spec resp s)
      simp [commandDone_hc, hok.1]
  | dataDone bytes =>
      cases hs
      apply work_report (dataDone_spec bytes s)
      simp [dataDone_hc, hok.1]
  | errOccure => exact hok.elim
  | expire => exact hok.elim
  | timeout => exact hok.elim
  | updateIos powerUp useHold => exact hok.elim

/-! ## The result -/

/-- **The service without faults.** In every run without faults each request's
`done` runs once, with the last of its reports and not before; the internal
CMD23 never runs one; each last report leaves the driver idle; and the replies
are the same in every order of the reports. -/
theorem fault_free_service {s₀ : SdifState} (hlib : ResponsesRead cfg) (h₀ : AtRest s₀)
    (h : (serviceSystem cfg dev s₀).Reachable s) : FaultFreeOk cfg dev s₀ s := by
  have hinv : ∀ {t : SdifState}, (serviceSystem cfg dev s₀).Reachable t →
      ServiceInv cfg dev (serviceFrom s₀) t := service_reachable_inv hlib h₀
  have hσ : (serviceFrom s₀).log = [] := rfl
  have hs := hinv h
  constructor
  case running => exact hs.running
  case once => exact hs.once hσ
  case settled => exact hs.settled hσ
  case step =>
    intro e s' hstep
    obtain ⟨hok, hstep⟩ := System.restrict_step.mp hstep
    exact stepOk_of_step hlib hσ hs hok (sdifStep_iff.mp hstep).2
  case replies => exact hs.replies
  case sameReplies =>
    intro t ht k d d' hd hd' htake
    have hreply := hs.reply hσ hd
    rw [htake, (hinv ht).reply hσ hd', Option.some.injEq] at hreply
    exact hreply.symm
  case bounded =>
    intro es t hes hrun
    refine h.run_length_le (work cfg.version) ?_ hes hrun
    intro u e u' hu he hstep
    obtain ⟨hok, hstep⟩ := System.restrict_step.mp hstep
    exact work_lt hlib hσ (hinv hu) he hok (sdifStep_iff.mp hstep).2
  case progress =>
    rcases hs.canGoOn hσ with hsettled | ⟨e, s', he, hok, hstep⟩
    · exact Or.inl hsettled
    · exact Or.inr ⟨e, s', he,
        System.restrict_step.mpr ⟨hok, sdifStep_iff.mpr ⟨hs.running, hstep⟩⟩⟩

/-- `READ_SINGLE_BLOCK` of eight bytes, to a buffer that is not aligned. -/
def readEight : MmcCommand :=
  ⟨17#32, 0#32, true, false, true, some ⟨0x2001, 8, false, true⟩,
    ⟨0#32, 0#32, 0#32, 0#32⟩, .none⟩

/-- A card that answers every request alike. -/
def countingCard : Device where
  resp := fun _ => ⟨0x900#32, 0#32, 0#32, 0#32⟩
  data := fun _ => [1#8, 2#8, 3#8, 4#8, 5#8, 6#8, 7#8, 8#8]

/-- The reply to `readEight`. -/
def eightRead : DoneCall :=
  ⟨0, .none, ⟨0x900#32, 0#32, 0#32, 0#32⟩, [1#8, 2#8, 3#8, 4#8, 5#8, 6#8, 7#8, 8#8], false⟩

/-- The request is started, and the controller makes the reports. -/
def readRun (reports : List SdifEvent) : List SdifEvent :=
  .submit readEight [] :: calls 0 14 ++ reports

theorem fault_free_service_read :
    ∃ s t,
      (serviceSystem (sampleSdif .v1) countingCard (attached (fun _ => 0#8) true)).run
        (attached (fun _ => 0#8) true)
        (readRun [.cmdDone (countingCard.resp 0), .dataDone (countingCard.data 0)]) = some s ∧
      (serviceSystem (sampleSdif .v1) countingCard (attached (fun _ => 0#8) true)).run
        (attached (fun _ => 0#8) true)
        (readRun [.dataDone (countingCard.data 0), .cmdDone (countingCard.resp 0)]) = some t ∧
      s.doneLog = [eightRead] ∧ t.doneLog = [eightRead] ∧
      FaultFreeOk (sampleSdif .v1) countingCard (attached (fun _ => 0#8) true) s ∧
      FaultFreeOk (sampleSdif .v1) countingCard (attached (fun _ => 0#8) true) t := by
  have hlib : ResponsesRead (sampleSdif .v1) := fun _ _ _ => rfl
  have hrest : AtRest (attached (fun _ => 0#8) true) := atRest_attached _ _
  have hs : ((serviceSystem (sampleSdif .v1) countingCard (attached (fun _ => 0#8) true)).run
      (attached (fun _ => 0#8) true)
      (readRun [.cmdDone (countingCard.resp 0), .dataDone (countingCard.data 0)])).map
        SdifState.doneLog = some [eightRead] := by
    decide
  have ht : ((serviceSystem (sampleSdif .v1) countingCard (attached (fun _ => 0#8) true)).run
      (attached (fun _ => 0#8) true)
      (readRun [.dataDone (countingCard.data 0), .cmdDone (countingCard.resp 0)])).map
        SdifState.doneLog = some [eightRead] := by
    decide
  obtain ⟨s, hs, hlogs⟩ := Option.map_eq_some_iff.mp hs
  obtain ⟨t, ht, hlogt⟩ := Option.map_eq_some_iff.mp ht
  exact ⟨s, t, hs, ht, hlogs, hlogt,
    fault_free_service hlib hrest (System.reachable_of_run _ rfl hs),
    fault_free_service hlib hrest (System.reachable_of_run _ rfl ht)⟩

end Phytium.Sdif
