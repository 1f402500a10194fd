import PhytiumSdk.Sdif.ErrorReport

/-!
# Commands that were never issued

When `sdif_pre_request` fails, the request call runs the client's `done` with
`cmd->error` as the client has left it: the field is assigned only behind it.
And an event completes whatever request is the current one, also one whose
command has not been started. A run reports every command that was never handed
to the controller just when the clients of the skipped commands have left an
error there, and no event completes a command that was not handed over.
-/

namespace Phytium.Sdif

open Lib

variable {cfg : SdifConfig} {s s' : SdifState} {k : ℕ}

/-- The driver, and on record for each request whether its own command was
handed to the controller. -/
structure HandState where
  sdif : SdifState
  handed : ℕ → Bool
  /-- the callbacks of requests whose command had not been handed over -/
  early : List DoneCall

/-- The request whose command the event hands to the controller. -/
def handsOver (s : SdifState) : SdifEvent → Option ℕ
  | .call k true => if s.pc k = .issue .start then some k else none
  | _ => none

def noteHanded (handed : ℕ → Bool) : Option ℕ → ℕ → Bool
  | none => handed
  | some k => Function.update handed k true

def handStep (cfg : SdifConfig) (h : HandState) (e : SdifEvent) : Option HandState :=
  (sdifStep cfg h.sdif e).map fun t =>
    { sdif := t
      handed := noteHanded h.handed (handsOver h.sdif e)
      early := h.early ++
        (t.doneLog.drop h.sdif.doneLog.length).filter fun d => !h.handed d.req }

def handAttached (mem : Mem) (need : Bool) : HandState := ⟨attached mem need, fun _ => false, []⟩

def handSystem (cfg : SdifConfig) : System HandState SdifEvent where
  init := fun h => ∃ mem need, h = handAttached mem need
  step := handStep cfg

/-- No callback finds `MMC_ERR_NONE` on a command that was not handed over. -/
def UnissuedReported (h : HandState) : Prop := ∀ d ∈ h.early, d.error ≠ .none

instance (h : HandState) : Decidable (UnissuedReported h) :=
  inferInstanceAs (Decidable (∀ d ∈ h.early, d.error ≠ .none))

/-- The request that `sdif_pre_request` turns away in this step. -/
def skips (cfg : SdifConfig) (s : SdifState) : SdifEvent → Option ℕ
  | .call k _ =>
      match s.pc k with
      | .filter err => if skipped cfg (s.cmds k) || err.isSome then some k else none
      | _ => none
  | _ => none

/-- A request that is turned away has an error in it, and an event completes
only what was handed over. -/
def handOk (cfg : SdifConfig) (h : HandState) (e : SdifEvent) : Prop :=
  (∀ k ∈ skips cfg h.sdif e, (h.sdif.cmds k).error ≠ .none) ∧
  ∀ r ∈ completes cfg h.sdif e, h.handed r = true

instance (h : HandState) (e : SdifEvent) : Decidable (handOk cfg h e) :=
  inferInstanceAs (Decidable (_ ∧ _))

/-! ## What a step calls back -/

theorem issueStep_doneLog {p : IssuePc} {ok : Bool} (hpc : s.pc k = .issue p) :
    (issueStep cfg k ok s p).doneLog = s.doneLog := by
  have hstep : CallStep cfg.version k ok s (issueStep cfg k ok s p) := issueStep_spec hpc
  rcases hstep.doneLog with h | ⟨hf, -⟩
  · exact h
  · rw [hpc] at hf
    cases p <;> first | rfl | cases hf

theorem filterStep_doneLog (err : Option Errno) (s : SdifState) :
    ((skipped cfg (s.cmds k) || err.isSome) = false ∧
      (filterStep cfg k err s).doneLog = s.doneLog) ∨
    ((skipped cfg (s.cmds k) || err.isSome) = true ∧ ∃ resp buffer,
      (filterStep cfg k err s).doneLog =
        s.doneLog ++ [⟨k, (s.cmds k).error, resp, buffer, s.errSeen k⟩]) := by
  unfold filterStep
  split <;> rename_i hres _
  · right
    refine ⟨?_, _, _, rfl⟩
    split at hres <;> simp_all
  · right
    refine ⟨?_, _, _, rfl⟩
    split at hres <;> simp_all
  · left
    refine ⟨?_, rfl⟩
    split at hres <;> simp_all
  · left
    refine ⟨?_, rfl⟩
    split at hres <;> simp_all

/-- **A request call calls back** only where its request is turned away, and
then with the error it has found in it. -/
theorem callStep_doneLog {ok : Bool} (hs : callStep cfg k ok s = some s') :
    (skips cfg s (.call k ok) = none ∧ s'.doneLog = s.doneLog) ∨
    (skips cfg s (.call k ok) = some k ∧ (s.pc k).fresh = true ∧ ∃ resp buffer,
      s'.doneLog = s.doneLog ++ [⟨k, (s.cmds k).error, resp, buffer, s.errSeen k⟩]) := by
  have hquiet : (∀ err, s.pc k ≠ .filter err) → skips cfg s (.call k ok) = none := by
    intro hne
    dsimp only [skips]
    split
    · rename_i err hpc
      exact absurd hpc (hne err)
    · rfl
  unfold callStep at hs
  split at hs <;> rename_i hpc
  · cases hs
  · obtain ⟨-, ht⟩ := Option.ite_none_right_eq_some.mp hs
    cases ht
    exact Or.inl ⟨hquiet (by simp [hpc]), rfl⟩
  · cases hs
    refine Or.inl ⟨hquiet (by simp [hpc]), ?_⟩
    unfold busyStep
    split
    · rfl
    · split <;> rfl
  · cases hs
    refine Or.inl ⟨hquiet (by simp [hpc]), ?_⟩
    unfold preRequestStep
    split
    · split <;> rfl
    · rfl
  · exact Or.inl ⟨hquiet (by simp [hpc]), (blockCountStep_cases hs).doneLog⟩
  · rename_i err
    cases hs
    dsimp only [skips]
    rw [hpc]
    rcases filterStep_doneLog (k := k) err s with ⟨hno, hlog⟩ | ⟨hyes, hlog⟩
    · left
      refine ⟨?_, hlog⟩
      dsimp only
      rw [hno, if_neg Bool.false_ne_true]
    · right
      refine ⟨?_, rfl, hlog⟩
      dsimp only
      rw [hyes, if_pos rfl]
  · obtain ⟨-, ht⟩ := Option.ite_none_right_eq_some.mp hs
    cases ht
    exact Or.inl ⟨hquiet (by simp [hpc]), rfl⟩
  · cases hs
    exact Or.inl ⟨hquiet (by simp [hpc]), issueStep_doneLog hpc⟩
  · cases hs
    exact Or.inl ⟨hquiet (by simp [hpc]), rfl⟩
  · cases hs

/-- **What an event calls back**: nothing, a request that is turned away, with
the error found in it, one that is completed, as good, or the current one when
its time is up. -/
theorem eventStep_doneLog {e : SdifEvent} (hs : eventStep cfg s e = some s') :
    (skips cfg s e = none ∧ completes cfg s e = none ∧ s'.doneLog = s.doneLog) ∨
    ∃ d, s'.doneLog = s.doneLog ++ [d] ∧
      ((skips cfg s e = some d.req ∧ completes cfg s e = none ∧ (s.pc d.req).fresh = true ∧
          d.error = (s.cmds d.req).error) ∨
        (skips cfg s e = none ∧ completes cfg s e = some d.req ∧ d.error = .none) ∨
        (skips cfg s e = none ∧ completes cfg s e = none ∧ d.error = .timeout)) := by
  cases e with
  | submit cmd bytes =>
      cases hs
      exact Or.inl ⟨rfl, rfl, rfl⟩
  | call k ok =>
      rcases callStep_doneLog hs with ⟨hskip, hlog⟩ | ⟨hskip, hf, resp, buffer, hlog⟩
      · exact Or.inl ⟨hskip, rfl, hlog⟩
      · exact Or.inr ⟨_, hlog, Or.inl ⟨hskip, rfl, hf, rfl⟩⟩
  | cmdDone resp =>
      cases hs
      have hd : DoneEvent s (commandDone cfg resp s) _ := commandDone_spec resp s
      cases hc : completes cfg s (.cmdDone resp) with
      | none => exact Or.inl ⟨rfl, rfl, (hd.quiet hc).2.1⟩
      | some r =>
          obtain ⟨-, -, resp', buffer, hlog⟩ := hd.done r hc
          exact Or.inr ⟨_, hlog, Or.inr (Or.inl ⟨rfl, rfl, rfl⟩)⟩
  | dataDone bytes =>
      cases hs
      have hd : DoneEvent s (dataDone cfg bytes s) _ := dataDone_spec bytes s
      cases hc : completes cfg s (.dataDone bytes) with
      | none => exact Or.inl ⟨rfl, rfl, (hd.quiet hc).2.1⟩
      | some r =>
          obtain ⟨-, -, resp', buffer, hlog⟩ := hd.done r hc
          exact Or.inr ⟨_, hlog, Or.inr (Or.inl ⟨rfl, rfl, rfl⟩)⟩
  | errOccure =>
      cases hs
      obtain ⟨-, -, -, -, -, hlog, -⟩ := errorOccurred_spec cfg s
      exact Or.inl ⟨rfl, rfl, hlog⟩
  | expire =>
      obtain ⟨-, ht⟩ := Option.ite_none_right_eq_some.mp hs
      cases ht
      exact Or.inl ⟨rfl, rfl, rfl⟩
  | timeout =>
      obtain ⟨-, ht⟩ := Option.ite_none_right_eq_some.mp hs
      cases ht
      obtain ⟨-, -, -, -, -, -, hlog⟩ := timeout_spec cfg s
      rcases hlog with ⟨hlog, -⟩ | ⟨r, resp, buffer, -, -, hlog⟩
      · exact Or.inl ⟨rfl, rfl, hlog⟩
      · exact Or.inr ⟨_, hlog, Or.inr (Or.inr ⟨rfl, rfl, rfl⟩)⟩
  | updateIos powerUp useHold =>
      obtain ⟨-, ht⟩ := Option.ite_none_right_eq_some.mp hs
      cases ht
      exact Or.inl ⟨rfl, rfl, rfl⟩

/-! ## Every run -/

/-- A call is fresh only if it was before. -/
theorem eventStep_fresh {e : SdifEvent} (hi : CallInv cfg s) (hs : eventStep cfg s e = some s') :
    ∀ k, (s'.pc k).fresh = true → (s.pc k).fresh = true := by
  have hsame : s'.pc = s.pc → ∀ k, (s'.pc k).fresh = true → (s.pc k).fresh = true := by
    intro hp k hk
    rwa [hp] at hk
  cases e with
  | submit cmd bytes =>
      cases hs
      exact hi.submit_fresh
  | call k ok => exact (callStep_spec hs).fresh_le
  | cmdDone resp =>
      cases hs
      exact hsame (commandDone_spec resp s).pc
  | dataDone bytes =>
      cases hs
      exact hsame (dataDone_spec bytes s).pc
  | errOccure =>
      cases hs
      exact hsame (errorOccurred_spec cfg s).1
  | expire =>
      obtain ⟨-, ht⟩ := Option.ite_none_right_eq_some.mp hs
      cases ht
      exact hsame rfl
  | timeout =>
      obtain ⟨-, ht⟩ := Option.ite_none_right_eq_some.mp hs
      cases ht
      exact hsame (timeout_spec cfg s).1
  | updateIos powerUp useHold =>
      obtain ⟨-, ht⟩ := Option.ite_none_right_eq_some.mp hs
      cases ht
      exact hsame rfl

theorem handsOver_pc {e : SdifEvent} (h : handsOver s e = some k) :
    e = .call k true ∧ s.pc k = .issue .start := by
  unfold handsOver at h
  split at h
  · obtain ⟨hpc, hk⟩ := Option.ite_none_right_eq_some.mp h
    cases hk
    exact ⟨rfl, hpc⟩
  · cases h

variable {h h' : HandState} {e : SdifEvent}

theorem handStep_iff :
    handStep cfg h e = some h' ↔ ∃ t, sdifStep cfg h.sdif e = some t ∧
      h' = ⟨t, noteHanded h.handed (handsOver h.sdif e), h.early ++
        (t.doneLog.drop h.sdif.doneLog.length).filter fun d => !h.handed d.req⟩ := by
  unfold handStep
  rw [Option.map_eq_some_iff]
  simp only [eq_comm]

/-- A call that has not got to its own command has handed nothing over. -/
structure HandInv (cfg : SdifConfig) (h : HandState) : Prop where
  calls : CallInv cfg h.sdif
  fresh : ∀ k, (h.sdif.pc k).fresh = true → h.handed k = false

theorem HandInv.step (hi : HandInv cfg h) (hs : handStep cfg h e = some h') :
    HandInv cfg h' := by
  obtain ⟨t, ht, rfl⟩ := handStep_iff.mp hs
  have hev := (sdifStep_iff.mp ht).2
  refine ⟨eventStep_callInv hi.calls hev, ?_⟩
  intro k hk
  have hf := eventStep_fresh hi.calls hev k hk
  show noteHanded h.handed (handsOver h.sdif e) k = false
  cases hover : handsOver h.sdif e with
  | none => exact hi.fresh k hf
  | some j =>
      have hne : k ≠ j := by
        rintro rfl
        rw [(handsOver_pc hover).2] at hf
        exact Bool.noConfusion hf
      rw [noteHanded, Function.update_of_ne hne]
      exact hi.fresh k hf

theorem hand_reachable_inv (hr : (handSystem cfg).Reachable h) : HandInv cfg h := by
  apply hr.invariant
  · rintro h ⟨mem, need, rfl⟩
    refine ⟨?_, fun _ _ => rfl⟩
    exact sdif_reachable_callInv (.init ⟨mem, need, rfl⟩)
  · intro h e h' hi (hs : handStep cfg h e = some h')
    exact hi.step hs

/-- The callbacks of one step that come too early, if there are any. -/
theorem handStep_early (hi : HandInv cfg h) (hs : handStep cfg h e = some h') :
    (skips cfg h.sdif e = none ∧ completes cfg h.sdif e = none ∧ h'.early = h.early) ∨
    ∃ d,
      (skips cfg h.sdif e = some d.req ∧ completes cfg h.sdif e = none ∧
        d.error = (h.sdif.cmds d.req).error ∧ h'.early = h.early ++ [d]) ∨
      (skips cfg h.sdif e = none ∧ completes cfg h.sdif e = some d.req ∧ d.error = .none ∧
        h'.early = h.early ++ if h.handed d.req then [] else [d]) ∨
      (skips cfg h.sdif e = none ∧ completes cfg h.sdif e = none ∧ d.error = .timeout ∧
        h'.early = h.early ++ if h.handed d.req then [] else [d]) := by
  obtain ⟨t, ht, rfl⟩ := handStep_iff.mp hs
  rcases eventStep_doneLog (sdifStep_iff.mp ht).2 with ⟨hskip, hcomp, hlog⟩ | ⟨d, hlog, hcase⟩
  · left
    refine ⟨hskip, hcomp, ?_⟩
    dsimp only
    rw [hlog, List.drop_length, List.filter_nil, List.append_nil]
  · right
    have hnew : (t.doneLog.drop h.sdif.doneLog.length).filter (fun d => !h.handed d.req) =
        if h.handed d.req then [] else [d] := by
      rw [hlog, List.drop_left, List.filter_singleton]
      cases h.handed d.req <;> rfl
    dsimp only
    rw [hnew]
    rcases hcase with ⟨hskip, hcomp, hf, herr⟩ | ⟨hskip, hcomp, herr⟩ | ⟨hskip, hcomp, herr⟩
    · refine ⟨d, Or.inl ⟨hskip, hcomp, herr, ?_⟩⟩
      rw [hi.fresh d.req hf]
      rfl
    · exact ⟨d, Or.inr (Or.inl ⟨hskip, hcomp, herr, rfl⟩)⟩
    · exact ⟨d, Or.inr (Or.inr ⟨hskip, hcomp, herr, rfl⟩)⟩

theorem UnissuedReported.snoc {l : List DoneCall} (hr : UnissuedReported h)
    (hearly : h'.early = h.early ++ l) (hl : ∀ d ∈ l, d.error ≠ .none) : UnissuedReported h' := by
  intro d hd
  rw [hearly] at hd
  rcases List.mem_append.mp hd with hd | hd
  · exact hr d hd
  · exact hl d hd

theorem UnissuedReported.step (hr : UnissuedReported h) (hi : HandInv cfg h) (hok : handOk cfg h e)
    (hs : handStep cfg h e = some h') : UnissuedReported h' := by
  rcases handStep_early hi hs with ⟨-, -, hearly⟩ | ⟨d, ⟨hskip, -, herr, hearly⟩ |
    ⟨-, hcomp, -, hearly⟩ | ⟨-, -, herr, hearly⟩⟩
  · intro d hd
    rw [hearly] at hd
    exact hr d hd
  · apply hr.snoc hearly
    intro d' hd
    rw [List.mem_singleton] at hd
    rw [hd, herr]
    exact hok.1 d.req hskip
  · apply hr.snoc hearly
    intro d' hd
    rw [hok.2 d.req hcomp] at hd
    cases hd
  · apply hr.snoc hearly
    intro d' hd
    split at hd
    · cases hd
    · rw [List.mem_singleton] at hd
      rw [hd, herr]
      exact MmcErr.noConfusion

/-- A step that does not meet the condition calls back with `MMC_ERR_NONE` for
a command that was not handed over. -/
theorem not_reported_of_not_ok (hi : HandInv cfg h) (hok : ¬ handOk cfg h e)
    (hs : handStep cfg h e = some h') : ¬ UnissuedReported h' := by
  intro hr
  apply hok
  rcases handStep_early hi hs with ⟨hskip, hcomp, -⟩ | ⟨d, ⟨hskip, hcomp, herr, hearly⟩ |
    ⟨hskip, hcomp, herr, hearly⟩ | ⟨hskip, hcomp, -, -⟩⟩
  · rw [handOk, hskip, hcomp]
    exact ⟨fun _ hk => absurd hk (Option.not_mem_none _),
      fun _ hk => absurd hk (Option.not_mem_none _)⟩
  · rw [handOk, hskip, hcomp]
    refine ⟨?_, fun _ hk => absurd hk (Option.not_mem_none _)⟩
    rintro _ ⟨⟩
    rw [← herr]
    apply hr d
    rw [hearly]
    exact List.mem_append_right _ (List.mem_singleton_self d)
  · rw [handOk, hskip, hcomp]
    refine ⟨fun _ hk => absurd hk (Option.not_mem_none _), ?_⟩
    rintro _ ⟨⟩
    by_contra hn
    rw [if_neg hn] at hearly
    refine hr d ?_ herr
    rw [hearly]
    exact List.mem_append_right _ (List.mem_singleton_self d)
  · rw [handOk, hskip, hcomp]
    exact ⟨fun _ hk => absurd hk (Option.not_mem_none _),
      fun _ hk => absurd hk (Option.not_mem_none _)⟩

/-- **Unissued commands are reported.** From the moment the driver is attached,
no callback of a run finds `MMC_ERR_NONE` on a command that was never handed to
the controller if and only if every request that is turned away has an error in
it then, and no event completes a request whose command was not handed over. -/
theorem unissued_reported_iff (cfg : SdifConfig) (mem : Mem) (need : Bool)
    (es : List SdifEvent) :
    (handSystem cfg).Always (handAttached mem need) es UnissuedReported ↔
      (handSystem cfg).Meets (handOk cfg) (handAttached mem need) es := by
  have hinit : (handSystem cfg).init (handAttached mem need) := ⟨mem, need, rfl⟩
  apply System.always_iff_meets hinit
  · intro h hr
    apply hr.restrict_invariant
    · rintro h ⟨mem, need, rfl⟩
      intro d hd
      cases hd
    · intro h e h' hr hp hok (hs : handStep cfg h e = some h')
      exact hp.step (hand_reachable_inv hr) hok hs
  · intro h e h' hr hok hs
    exact not_reported_of_not_ok (hand_reachable_inv hr.of_restrict) hok hs

/-- `WRITE_MULTIPLE_BLOCK` of two sectors, with no error in it. -/
def writeTwoBlocks : MmcCommand :=
  ⟨mmcWriteMultipleBlock, 0#32, true, false, true, some ⟨0x4000, 1024, true, false⟩,
    ⟨0#32, 0#32, 0#32, 0#32⟩, .none⟩

/-- The `SET_BLOCK_COUNT` before a write cannot be started, and the client is
told that all has been written. -/
theorem unissued_write_reported_good :
    (¬ ∀ h, (handSystem (sampleSdif .v1)).Reachable h → UnissuedReported h) ∧
    (¬ ∀ h, (handSystem (sampleSdif .v2)).Reachable h → UnissuedReported h) := by
  have hrun : ∀ v es, ((handSystem (sampleSdif v)).run (handAttached (fun _ => 0#8) false) es).map
      (fun h => decide (UnissuedReported h)) = some false →
      ¬ ∀ h, (handSystem (sampleSdif v)).Reachable h → UnissuedReported h := by
    intro v es hes hall
    obtain ⟨h, hh, hq⟩ := Option.map_eq_some_iff.mp hes
    exact decide_eq_false_iff_not.mp hq (hall h (System.reachable_of_run _ ⟨_, _, rfl⟩ hh))
  constructor
  · apply hrun .v1
      (.submit writeTwoBlocks [] :: calls 0 8 ++ [.call 0 false] ++ calls 0 2)
    decide
  · apply hrun .v2
      (.submit writeTwoBlocks [] :: calls 0 8 ++ [.call 0 false] ++ calls 0 2)
    decide

end Phytium.Sdif
