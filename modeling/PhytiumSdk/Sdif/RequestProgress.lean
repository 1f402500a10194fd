import PhytiumSdk.Sdif.AtLeastOnce
import PhytiumSdk.Sdif.ServiceRuns

/-!
# SDIF requests: the driver gets on

A request call never waits for a lock that is not given back: a driver that can
make no step of its own has no call at work and no callout set (`at_end_iff`). So
where no request is lost, all are over by then (`requests_settle`).
-/

namespace Phytium.Sdif

open Lib

variable {cfg : SdifConfig} {s s' t : SdifState} {k : ℕ}

/-- A step of the driver or of its callout. -/
def SdifEvent.own : SdifEvent → Bool
  | .call _ _ => true
  | .expire => true
  | .timeout => true
  | _ => false

theorem BlockCountPc.left_le (p : BlockCountPc) : p.left ≤ 10 := by
  cases p <;> simp [left]

theorem CallPc.left_le (v : Version) {p : CallPc} (h : p ≠ .new) : p.left v ≤ 29 := by
  cases p with
  | new => exact absurd rfl h
  | blockCount b =>
      have := b.left_le
      simp only [left]
      omega
  | issue i =>
      simp only [left]
      omega
  | _ => simp [left]

/-! ## The lock is given back -/

/-- What `CallInv` leaves open about the calls and the lock. -/
structure HeldInv (cfg : SdifConfig) (s : SdifState) : Prop where
  born : ∀ k < s.submitted, s.pc k ≠ .new
  version : ∀ k, s.pc k = .lock → cfg.version = .v1
  held : ∀ k, s.lock = some k → (s.pc k).locked cfg.version = true

/-- A call that has got the lock has it. -/
theorem callStep_takes {ok : Bool} (hv : s.pc k = .lock → cfg.version = .v1)
    (hw : (s.pc k).locking = true) (hs : callStep cfg k ok s = some s') :
    (s'.pc k).locked cfg.version = true := by
  unfold CallPc.locking at hw
  split at hw <;> rename_i hpc
  · rw [callStep, hpc] at hs
    obtain ⟨-, ht⟩ := Option.ite_none_right_eq_some.mp hs
    cases ht
    rw [goto_pc, hv hpc]
    rfl
  · rw [callStep, hpc] at hs
    obtain ⟨-, ht⟩ := Option.ite_none_right_eq_some.mp hs
    cases ht
    rw [goto_pc]
    rfl
  · rw [callStep, hpc] at hs
    obtain ⟨-, ht⟩ := Option.ite_none_right_eq_some.mp hs
    cases ht
    rw [goto_pc]
    rfl
  · cases hw

theorem HeldInv.callStep {ok : Bool} (h : HeldInv cfg s) (hs : callStep cfg k ok s = some s')
    (hrun : s'.panicked = false) : HeldInv cfg s' := by
  have hstep := callStep_spec hs
  have hsub : s'.submitted = s.submitted := congrArg List.length hstep.subs
  have hlt := hstep.forward.resolve_right (by rw [hrun]; exact Bool.false_ne_true)
  have hle := CallPc.left_le cfg.version hstep.entered
  refine ⟨?_, ?_, ?_⟩
  · intro j hj
    rw [hsub] at hj
    by_cases hjk : j = k
    · subst hjk
      intro hnew
      rw [hnew] at hlt
      exact absurd (hlt.trans_le hle) (by simp [CallPc.left])
    · rw [hstep.others j hjk]
      exact h.born j hj
  · intro j hj
    by_cases hjk : j = k
    · subst hjk
      -- only a new call stands at the first `SDIF_LOCK`
      rw [hj] at hlt
      exact absurd (hlt.trans_le hle) (by simp [CallPc.left])
    · rw [hstep.others j hjk] at hj
      exact h.version j hj
  · intro j hj
    by_cases hjk : j = k
    · subst hjk
      rcases hstep.lock with ⟨-, hl, hp⟩ | ⟨hw, -, -⟩ | ⟨-, hl, -, -⟩
      · rw [hp]
        exact h.held j (hl ▸ hj)
      · exact callStep_takes (h.version j) hw hs
      · rw [hl] at hj
        cases hj
    · rw [hstep.others j hjk]
      rcases hstep.lock with ⟨-, hl, -⟩ | ⟨-, -, hl⟩ | ⟨-, hl, -, -⟩
      · exact h.held j (hl ▸ hj)
      · rw [hl, Option.some.injEq] at hj
        exact absurd hj.symm hjk
      · rw [hl] at hj
        cases hj

theorem HeldInv.submit {cmd : MmcCommand} {bytes : List (BitVec 8)} (h : HeldInv cfg s)
    (hi : CallInv cfg s) : HeldInv cfg (submit cfg cmd bytes s) := by
  have hlen : (Sdif.submit cfg cmd bytes s).submitted = s.submitted + 1 := submitted_submit ..
  have hnew : entry cfg ≠ .new ∧ (entry cfg = .lock → cfg.version = .v1) := by
    unfold entry
    split <;> rename_i hv
    · exact ⟨CallPc.noConfusion, fun _ => hv⟩
    · exact ⟨CallPc.noConfusion, fun hn => CallPc.noConfusion hn⟩
  refine ⟨?_, ?_, ?_⟩
  · intro k hk
    rw [hlen] at hk
    rw [submit_pc]
    split
    · exact hnew.1
    · rename_i hne
      exact h.born k (Nat.lt_of_le_of_ne (Nat.le_of_lt_succ hk) hne)
  · intro k hk
    rw [submit_pc] at hk
    split at hk
    · exact hnew.2 hk
    · exact h.version k hk
  · intro k hk
    have hlock := h.held k hk
    rw [submit_pc, if_neg]
    · exact hlock
    · rintro rfl
      rw [hi.unborn _ le_rfl] at hlock
      cases hlock

theorem HeldInv.frame (h : HeldInv cfg s) (hp : s'.pc = s.pc) (hl : s'.lock = s.lock)
    (hsubs : s'.subs = s.subs) : HeldInv cfg s' := by
  have hsub : s'.submitted = s.submitted := congrArg List.length hsubs
  refine ⟨?_, ?_, ?_⟩
  · rw [hp, hsub]
    exact h.born
  · rw [hp]
    exact h.version
  · rw [hp, hl]
    exact h.held

theorem eventStep_heldInv {e : SdifEvent} (h : HeldInv cfg s) (hi : CallInv cfg s)
    (hs : eventStep cfg s e = some s') (hrun : s'.panicked = false) : HeldInv cfg s' := by
  cases e with
  | submit cmd bytes =>
      cases hs
      exact h.submit hi
  | call k ok => exact h.callStep hs hrun
  | cmdDone resp =>
      cases hs
      have hd : DoneEvent s (commandDone cfg resp s) _ := commandDone_spec resp s
      exact h.frame hd.pc hd.lock hd.subs
  | dataDone bytes =>
      cases hs
      have hd : DoneEvent s (dataDone cfg bytes s) _ := dataDone_spec bytes s
      exact h.frame hd.pc hd.lock hd.subs
  | errOccure =>
      cases hs
      obtain ⟨hp, hl, hsub, -⟩ := errorOccurred_spec cfg s
      exact h.frame hp hl hsub
  | expire =>
      obtain ⟨-, ht⟩ := Option.ite_none_right_eq_some.mp hs
      cases ht
      exact h.frame rfl rfl rfl
  | timeout =>
      obtain ⟨-, ht⟩ := Option.ite_none_right_eq_some.mp hs
      cases ht
      obtain ⟨hp, hl, hsub, -⟩ := timeout_spec cfg s
      exact h.frame hp hl hsub
  | updateIos powerUp useHold =>
      obtain ⟨-, ht⟩ := Option.ite_none_right_eq_some.mp hs
      cases ht
      exact h.frame rfl rfl rfl

theorem held_reachable_inv (h : (sdifSystem cfg).Reachable s) :
    s.panicked = false → HeldInv cfg s := by
  induction h with
  | init hi =>
      obtain ⟨mem, need, rfl⟩ := hi
      intro _
      exact ⟨fun _ hk => absurd hk (Nat.not_lt_zero _), fun _ hk => CallPc.noConfusion hk,
        fun _ hk => (Option.some_ne_none _ hk.symm).elim⟩
  | step hr hs ih =>
      intro hrun
      obtain ⟨hbefore, hs⟩ := sdifStep_iff.mp hs
      exact eventStep_heldInv (ih hbefore) (sdif_reachable_callInv hr) hs hrun

/-! ## When nothing is left to do -/

/-- The driver can make no step of its own. -/
def AtEnd (cfg : SdifConfig) (s : SdifState) : Prop :=
  ∀ e : SdifEvent, e.own = true → sdifStep cfg s e = none

/-- A call that does not wait for the lock can go on. -/
theorem callStep_enabled (hnew : s.pc k ≠ .new) (hret : (s.pc k).isReturned = false)
    (hlock : (s.pc k).locking = true → s.lock = none) :
    ∃ ok s', callStep cfg k ok s = some s' := by
  cases hpc : s.pc k with
  | new => exact absurd hpc hnew
  | returned err =>
      rw [hpc] at hret
      cases hret
  | lock =>
      refine ⟨true, { s with lock := some k }.goto k .busy, ?_⟩
      rw [callStep, hpc]
      exact if_pos (hlock (by rw [hpc]; rfl))
  | mainLock =>
      refine ⟨true, { s with lock := some k }.goto k (.issue .setReq), ?_⟩
      rw [callStep, hpc]
      exact if_pos (hlock (by rw [hpc]; rfl))
  | blockCount p =>
      cases p with
      | lock =>
          refine ⟨true, { s with lock := some k }.goto k (.blockCount .package), ?_⟩
          rw [callStep, hpc]
          exact if_pos (hlock (by rw [hpc]; rfl))
      | poll =>
          -- the polling loop sees `req_pending` clear, or gives up
          refine ⟨!s.reqPending, ?_⟩
          simp only [callStep, hpc, blockCountStep]
          cases s.reqPending <;> exact ⟨_, rfl⟩
      | package =>
          refine ⟨true, ?_⟩
          simp only [callStep, hpc, blockCountStep]
          split <;> exact ⟨_, rfl⟩
      | exit err =>
          refine ⟨true, ?_⟩
          simp only [callStep, hpc, blockCountStep]
          split <;> exact ⟨_, rfl⟩
      | _ =>
          refine ⟨true, ?_⟩
          simp only [callStep, hpc, blockCountStep, if_true]
          exact ⟨_, rfl⟩
  | _ =>
      refine ⟨true, ?_⟩
      simp only [callStep, hpc]
      exact ⟨_, rfl⟩

theorem CallPc.locked_idle {v : Version} {p : CallPc} (h : p.locked v = true) :
    p ≠ .new ∧ p.isReturned = false ∧ p.locking = false := by
  refine ⟨?_, ?_, ?_⟩
  · rintro rfl
    cases h
  · unfold isReturned
    split
    · cases h
    · rfl
  · unfold locking
    split
    · cases h
    · cases h
    · cases h
    · rfl

/-- **No deadlock.** In a quiet driver the lock is free, all calls have returned
and the callout is not set. -/
theorem AtEnd.returned (hq : AtEnd cfg s) (h : (sdifSystem cfg).Reachable s)
    (hrun : s.panicked = false) :
    (∀ k < s.submitted, (s.pc k).isReturned = true) ∧ s.lock = none ∧ s.callout = .idle := by
  have hheld := held_reachable_inv h hrun
  have hstuck : ∀ k, s.pc k ≠ .new → (s.pc k).isReturned = false →
      ¬ ((s.pc k).locking = true → s.lock = none) := by
    intro k hnew hret hlock
    obtain ⟨ok, s', hs⟩ : ∃ ok s', callStep cfg k ok s = some s' :=
      callStep_enabled hnew hret hlock
    have hstep : sdifStep cfg s (.call k ok) = some s' := sdifStep_iff.mpr ⟨hrun, hs⟩
    rw [hq _ rfl] at hstep
    cases hstep
  have hfree : s.lock = none := by
    by_contra hn
    obtain ⟨k, hk⟩ := Option.ne_none_iff_exists'.mp hn
    obtain ⟨hnew, hret, hnowait⟩ := CallPc.locked_idle (hheld.held k hk)
    refine hstuck k hnew hret fun hw => ?_
    rw [hnowait] at hw
    cases hw
  refine ⟨?_, hfree, ?_⟩
  · intro k hk
    by_contra hn
    rw [Bool.not_eq_true] at hn
    exact hstuck k (hheld.born k hk) hn fun _ => hfree
  · cases hcall : s.callout with
    | idle => rfl
    | armed =>
        have hstep := hq .expire rfl
        rw [sdifStep, hrun, if_neg Bool.false_ne_true, eventStep, if_pos hcall] at hstep
        cases hstep
    | expired =>
        have hstep := hq .timeout rfl
        rw [sdifStep, hrun, if_neg Bool.false_ne_true, eventStep, if_pos ⟨hcall, hfree⟩] at hstep
        cases hstep

theorem atEnd_of_returned (h : (sdifSystem cfg).Reachable s)
    (hret : ∀ k < s.submitted, (s.pc k).isReturned = true) (hcall : s.callout = .idle) :
    AtEnd cfg s := by
  intro e he
  unfold sdifStep
  split
  · rfl
  · cases e with
    | call k ok =>
        by_cases hk : k < s.submitted
        · have hk := hret k hk
          unfold CallPc.isReturned at hk
          split at hk <;> rename_i hpc
          · rw [eventStep, callStep, hpc]
          · cases hk
        · rw [eventStep, callStep, (sdif_reachable_callInv h).unborn k (Nat.le_of_not_lt hk)]
    | expire =>
        rw [eventStep, if_neg]
        rw [hcall]
        exact Callout.noConfusion
    | timeout =>
        rw [eventStep, if_neg]
        rw [hcall]
        exact fun hn => Callout.noConfusion hn.1
    | _ => cases he

/-- **The driver never gets stuck.** In every state some run leads to, the driver
has no step of its own to make just when all calls have returned and the callout
is not set. -/
theorem at_end_iff (h : (sdifSystem cfg).Reachable s) (hrun : s.panicked = false) :
    AtEnd cfg s ↔ (∀ k < s.submitted, (s.pc k).isReturned = true) ∧ s.callout = .idle := by
  constructor
  · intro hq
    obtain ⟨hret, -, hcall⟩ := hq.returned h hrun
    exact ⟨hret, hcall⟩
  · rintro ⟨hret, hcall⟩
    exact atEnd_of_returned h hret hcall

/-- After a request that has timed out. -/
theorem at_end_after_timeout :
    ∃ s, (sdifSystem (sampleSdif .v1)).run (attached (fun _ => 0#8) false) (timeoutRun .v1) =
        some s ∧ AtEnd (sampleSdif .v1) s := by
  have hrun : ((sdifSystem (sampleSdif .v1)).run (attached (fun _ => 0#8) false)
      (timeoutRun .v1)).map (fun s => (s.panicked, s.submitted, (s.pc 0).isReturned, s.callout)) =
      some (false, 1, true, .idle) := by
    decide
  obtain ⟨s, hs, hq⟩ := Option.map_eq_some_iff.mp hrun
  simp only [Prod.mk.injEq] at hq
  obtain ⟨hpanic, hsub, hret, hcall⟩ := hq
  have hreach : (sdifSystem (sampleSdif .v1)).Reachable s :=
    System.reachable_of_run _ ⟨_, _, rfl⟩ hs
  refine ⟨s, hs, (at_end_iff hreach hpanic).mpr ⟨?_, hcall⟩⟩
  intro k hk
  rw [hsub, Nat.lt_one_iff] at hk
  rw [hk]
  exact hret

/-- **Requests settle.** In a run in which requests come one at a time and no
transfer of `phytium_sdif_v2.c` is lost at its start, every request is over once
the driver has no step of its own to make: its callback has run, or its call has
returned an error. -/
theorem requests_settle
    (h : (((sdifSystem cfg).restrict oneAtATime).restrict (lossless cfg)).Reachable s)
    (hrun : s.panicked = false) (hq : AtEnd cfg s) : requestsOver s := by
  obtain ⟨hret, -, hcall⟩ := hq.returned h.of_restrict.of_restrict hrun
  have hall := (noneLost_reachable h).resolve_left (by rw [hrun]; exact Bool.false_ne_true)
  intro k hk
  rcases hall k hk with hover | hissued | ⟨-, -, hset⟩
  · exact hover
  · right
    have hk := hret k hk
    unfold CallPc.isReturned at hk
    split at hk <;> rename_i err hpc
    · rw [hpc] at hissued ⊢
      cases err with
      | none => cases hissued
      | some e => rfl
    · cases hk
  · exact absurd hcall hset

end Phytium.Sdif
