import PhytiumSdk.Lib.Potential
import PhytiumSdk.Sdif.StartFailure
import PhytiumSdk.Sdif.Wakeup
import Mathlib.Algebra.BigOperators.Fin
import Mathlib.Algebra.BigOperators.Ring.List

/-!
# No request is lost

A client waits for the callback of a request whose call has returned 0. The
callback is owed by the interrupt or, if that does not come, by the timeout; so
a request whose call is through has to be the current one with the callout set,
in `sc->req` and `sc->curcmd` both. This holds up to one place, the start of a
transfer in `phytium_sdif_v2.c`, which fails without an error code and sets no
callout.

A request is submitted when those before it are over, as the host's owner does.
On the controller there is no condition: it may report anything at any time, or
nothing at all.
-/

namespace Phytium.Sdif

open Lib

variable {cfg : SdifConfig} {s s' t : SdifState} {k : ℕ}

/-! ## What a request is owed -/

/-- The client has its answer: the callback, or an error code. -/
def Over (s : SdifState) (k : ℕ) : Prop := k ∈ s.doneReqs ∨ (s.pc k).failed = true

/-- The call has done its part and returns 0. -/
def CallPc.issued : CallPc → Bool
  | .unlock none => true
  | .returned none => true
  | _ => false

/-- The request is over, or its call still at work, or it is the current one
and the timeout will see it. -/
def Accounted (s : SdifState) (k : ℕ) : Prop :=
  Over s k ∨ (s.pc k).issued = false ∨
    s.req = some k ∧ s.curcmd = some k ∧ s.callout ≠ .idle

/-- Every request is accounted for, unless the driver has panicked. -/
def NoneLost (s : SdifState) : Prop := s.panicked = true ∨ ∀ k < s.submitted, Accounted s k

/-- A client submits a request when those before are over. -/
def oneAtATime (s : SdifState) : SdifEvent → Prop
  | .submit _ _ => requestsOver s
  | _ => True

/-- A transfer of `phytium_sdif_v2.c` that cannot be started finds the callout
set by chance, or its request completed by an interrupt that was too early. -/
def lossless (cfg : SdifConfig) (s : SdifState) : SdifEvent → Prop
  | .call k ok =>
      s.pc k = .issue .start → cfg.version = .v2 → ok = false →
        s.callout ≠ .idle ∨ k ∈ s.doneReqs
  | _ => True

instance (s : SdifState) (k : ℕ) : Decidable (Over s k) :=
  inferInstanceAs (Decidable (_ ∨ _))

instance (s : SdifState) (k : ℕ) : Decidable (Accounted s k) :=
  inferInstanceAs (Decidable (_ ∨ _ ∨ _ ∧ _ ∧ _))

instance (s : SdifState) : Decidable (NoneLost s) :=
  inferInstanceAs (Decidable (_ ∨ ∀ k < _, _))

instance (s : SdifState) : (e : SdifEvent) → Decidable (oneAtATime s e)
  | .submit _ _ => inferInstanceAs (Decidable (requestsOver s))
  | .call _ _ | .cmdDone _ | .dataDone _ | .errOccure | .expire | .timeout | .updateIos _ _ =>
      isTrue trivial

instance (s : SdifState) : (e : SdifEvent) → Decidable (lossless cfg s e)
  | .call k ok =>
      inferInstanceAs (Decidable (s.pc k = .issue .start → cfg.version = .v2 → ok = false →
        s.callout ≠ .idle ∨ k ∈ s.doneReqs))
  | .submit _ _ | .cmdDone _ | .dataDone _ | .errOccure | .expire | .timeout | .updateIos _ _ =>
      isTrue trivial

/-! ## The claim of a call -/

/-- `sc->req` has been stored for the request, and the call has not failed. -/
def CallPc.claimed : CallPc → Bool
  | .issue .setReq => false
  | .issue _ => true
  | p => p.issued

/-- `sc->curcmd` has been stored as well. -/
def CallPc.named : CallPc → Bool
  | .issue .setCurcmd => false
  | p => p.claimed

/-- How a step of the `k`-th call lays claim to the two pointers and to the
callout. -/
structure ClaimStep (v : Version) (k : ℕ) (ok : Bool) (s s' : SdifState) : Prop where
  req : s'.req = if s.pc k = .issue .setReq then some k else s.req
  curcmd : s'.curcmd = if s.pc k = .issue .setCurcmd then some k else s.curcmd
  claimed : (s'.pc k).claimed = true → (s.pc k).claimed = true ∨ s.pc k = .issue .setReq
  named : (s'.pc k).named = true → (s.pc k).named = true ∨ s.pc k = .issue .setCurcmd
  issued : (s'.pc k).issued = true → (s.pc k).issued = true ∨
    s.pc k = .issue .arm ∧ s'.callout = .armed ∨
    s.pc k = .issue .start ∧ v = .v2 ∧ ok = false

/-- A move from `p` to `q` that stores neither pointer. -/
structure Claims (p q : CallPc) : Prop where
  setReq : p ≠ .issue .setReq
  setCurcmd : p ≠ .issue .setCurcmd
  claimed : q.claimed = true → p.claimed = true
  named : q.named = true → p.named = true

theorem ClaimStep.move {v : Version} {ok : Bool} {p q : CallPc} (hpc : s.pc k = p)
    (hc : Claims p q) (hreq : t.req = s.req) (hcur : t.curcmd = s.curcmd)
    (hissued : q.issued = true → p.issued = true ∨ p = .issue .arm ∧ t.callout = .armed ∨
      p = .issue .start ∧ v = .v2 ∧ ok = false) : ClaimStep v k ok s (t.goto k q) := by
  have hq : (t.goto k q).pc k = q := goto_pc t k q
  subst hpc
  refine ⟨?_, ?_, ?_, ?_, ?_⟩
  · rw [if_neg hc.setReq]
    exact hreq
  · rw [if_neg hc.setCurcmd]
    exact hcur
  · rw [hq]
    exact fun h => Or.inl (hc.claimed h)
  · rw [hq]
    exact fun h => Or.inl (hc.named h)
  · rw [hq]
    exact hissued

/-- A step that stays where it is. -/
theorem ClaimStep.stay {v : Version} {ok : Bool} {p : CallPc} (hpc : s.pc k = p)
    (hp : t.pc = s.pc) (h1 : p ≠ .issue .setReq) (h2 : p ≠ .issue .setCurcmd)
    (hreq : t.req = s.req) (hcur : t.curcmd = s.curcmd) : ClaimStep v k ok s t := by
  subst hpc
  refine ⟨?_, ?_, ?_, ?_, ?_⟩
  · rw [if_neg h1]
    exact hreq
  · rw [if_neg h2]
    exact hcur
  · rw [hp]
    exact Or.inl
  · rw [hp]
    exact Or.inl
  · rw [hp]
    exact Or.inl

/-- A move to a position without a claim. -/
theorem ClaimStep.unclaimed {v : Version} {ok : Bool} {p q : CallPc} (hpc : s.pc k = p)
    (h1 : p ≠ .issue .setReq) (h2 : p ≠ .issue .setCurcmd) (hq : q.claimed = false)
    (hreq : t.req = s.req) (hcur : t.curcmd = s.curcmd) : ClaimStep v k ok s (t.goto k q) := by
  have hnamed : q.named = false := by
    unfold CallPc.named
    split
    · rfl
    · exact hq
  have hissued : q.issued = false := by
    unfold CallPc.claimed at hq
    split at hq
    · rfl
    · rfl
    · exact hq
  refine .move hpc ⟨h1, h2, ?_, ?_⟩ hreq hcur ?_
  · rw [hq]
    exact fun h => Bool.noConfusion h
  · rw [hnamed]
    exact fun h => Bool.noConfusion h
  · rw [hissued]
    exact fun h => Bool.noConfusion h

/-- A move within `phytium_sdif_request`, behind the stores of the pointers. -/
theorem ClaimStep.onward {v : Version} {ok : Bool} {p q : IssuePc} (hpc : s.pc k = .issue p)
    (h1 : p ≠ .setReq) (h2 : p ≠ .setCurcmd) (hreq : t.req = s.req)
    (hcur : t.curcmd = s.curcmd) : ClaimStep v k ok s (t.goto k (.issue q)) := by
  refine .move hpc ⟨?_, ?_, ?_, ?_⟩ hreq hcur fun h => Bool.noConfusion h
  · exact fun h => h1 (CallPc.issue.inj h)
  · exact fun h => h2 (CallPc.issue.inj h)
  · intro _
    cases p <;> first | rfl | exact absurd rfl h1
  · intro _
    cases p <;> first | rfl | exact absurd rfl h1 | exact absurd rfl h2

/-- An error path behind the stores. -/
theorem ClaimStep.fail {v : Version} {ok : Bool} {p : IssuePc} {e : MmcErr} {err : Errno}
    (hpc : s.pc k = .issue p) (h1 : p ≠ .setReq) (h2 : p ≠ .setCurcmd) (hreq : t.req = s.req)
    (hcur : t.curcmd = s.curcmd) : ClaimStep v k ok s (t.fail k e (some err)) := by
  refine .unclaimed hpc ?_ ?_ rfl hreq hcur
  · exact fun h => h1 (CallPc.issue.inj h)
  · exact fun h => h2 (CallPc.issue.inj h)

theorem blockCountStep_claims {p : BlockCountPc} {ok : Bool} (hpc : s.pc k = .blockCount p)
    (hs : blockCountStep cfg k ok s p = some s') : ClaimStep cfg.version k ok s s' := by
  have hmove : ∀ {t : SdifState} {q : CallPc}, q.claimed = false → t.req = s.req →
      t.curcmd = s.curcmd → ClaimStep cfg.version k ok s (t.goto k q) :=
    fun hq hr hc => .unclaimed hpc CallPc.noConfusion CallPc.noConfusion hq hr hc
  cases p with
  | lock =>
      obtain ⟨-, ht⟩ := Option.ite_none_right_eq_some.mp hs
      cases ht
      exact hmove rfl rfl rfl
  | package =>
      dsimp only [blockCountStep] at hs
      split at hs
      · cases hs
        exact .stay hpc rfl CallPc.noConfusion CallPc.noConfusion rfl rfl
      · cases hs
        exact hmove rfl rfl rfl
  | start =>
      dsimp only [blockCountStep] at hs
      split at hs <;> cases hs <;> exact hmove rfl rfl rfl
  | poll =>
      dsimp only [blockCountStep] at hs
      split at hs
      · cases hs
      · split at hs <;> cases hs <;> exact hmove rfl rfl rfl
  | exit err =>
      dsimp only [blockCountStep] at hs
      split at hs <;> cases hs <;> exact hmove rfl rfl rfl
  | _ =>
      cases hs
      exact hmove rfl rfl rfl

/-- The store of `sc->req`. -/
theorem ClaimStep.setReq {ok : Bool} (hpc : s.pc k = .issue .setReq) :
    ClaimStep cfg.version k ok s (issueStep cfg k ok s .setReq) := by
  have hq : (issueStep cfg k ok s .setReq).pc k = .issue .setCurcmd := goto_pc ..
  refine ⟨?_, ?_, fun _ => Or.inr hpc, ?_, ?_⟩
  · rw [if_pos hpc]
    rfl
  · rw [if_neg (by simp [hpc])]
    rfl
  · rw [hq]
    exact fun h => Bool.noConfusion h
  · rw [hq]
    exact fun h => Bool.noConfusion h

/-- The store of `sc->curcmd`. -/
theorem ClaimStep.setCurcmd {ok : Bool} (hpc : s.pc k = .issue .setCurcmd) :
    ClaimStep cfg.version k ok s (issueStep cfg k ok s .setCurcmd) := by
  have hq : (issueStep cfg k ok s .setCurcmd).pc k = .issue .setError := goto_pc ..
  refine ⟨?_, ?_, ?_, fun _ => Or.inr hpc, ?_⟩
  · rw [if_neg (by simp [hpc])]
    rfl
  · rw [if_pos hpc]
    rfl
  · rw [hpc]
    exact fun _ => Or.inl rfl
  · rw [hq]
    exact fun h => Bool.noConfusion h

theorem issueStep_claims {p : IssuePc} {ok : Bool} (hpc : s.pc k = .issue p) :
    ClaimStep cfg.version k ok s (issueStep cfg k ok s p) := by
  cases p with
  | setReq => exact .setReq hpc
  | setCurcmd => exact .setCurcmd hpc
  | package =>
      dsimp only [issueStep, packageStep]
      split
      · exact .onward hpc IssuePc.noConfusion IssuePc.noConfusion rfl rfl
      · split
        · exact .onward hpc IssuePc.noConfusion IssuePc.noConfusion rfl rfl
        · split
          · exact .stay hpc rfl (by simp) (by simp) rfl rfl
          · exact .onward hpc IssuePc.noConfusion IssuePc.noConfusion rfl rfl
  | dmaPrepare d =>
      dsimp only [issueStep]
      rcases dmaPrepareStep_cases cfg k ok d s with h | ⟨-, mem, buf, ring, h⟩ | ⟨-, h⟩
      · rw [h]
        exact .stay hpc rfl (by simp) (by simp) rfl rfl
      · rw [h]
        exact .onward hpc IssuePc.noConfusion IssuePc.noConfusion rfl rfl
      · rw [h]
        exact .fail hpc IssuePc.noConfusion IssuePc.noConfusion rfl rfl
  | command =>
      dsimp only [issueStep]
      rcases commandStep_cases cfg k s with ⟨-, h⟩ | ⟨pkg, -, h⟩
      · rw [h]
        exact .stay hpc rfl (by simp) (by simp) rfl rfl
      · rw [h]
        exact .onward hpc IssuePc.noConfusion IssuePc.noConfusion rfl rfl
  | start =>
      dsimp only [issueStep, startStep]
      split
      · exact .onward hpc IssuePc.noConfusion IssuePc.noConfusion rfl rfl
      · rename_i hok
        rw [Bool.not_eq_true] at hok
        cases hv : cfg.version with
        | v1 => exact .fail hpc IssuePc.noConfusion IssuePc.noConfusion rfl rfl
        | v2 =>
            exact .move hpc ⟨by simp, by simp, fun _ => rfl, fun _ => rfl⟩ rfl rfl
              fun _ => Or.inr (Or.inr ⟨rfl, rfl, hok⟩)
  | arm =>
      exact .move hpc ⟨by simp, by simp, fun _ => rfl, fun _ => rfl⟩ rfl rfl
        fun _ => Or.inr (Or.inl ⟨rfl, rfl⟩)
  | _ => exact .onward hpc IssuePc.noConfusion IssuePc.noConfusion rfl rfl

/-- **What a step of a call claims.** -/
theorem callStep_claims {ok : Bool} (hs : callStep cfg k ok s = some s') :
    ClaimStep cfg.version k ok s s' := by
  unfold callStep at hs
  split at hs <;> rename_i hpc
  · cases hs
  · obtain ⟨-, ht⟩ := Option.ite_none_right_eq_some.mp hs
    cases ht
    exact .unclaimed hpc CallPc.noConfusion CallPc.noConfusion rfl rfl rfl
  · cases hs
    unfold busyStep
    split
    · exact .unclaimed hpc CallPc.noConfusion CallPc.noConfusion rfl rfl rfl
    · split <;> exact .unclaimed hpc CallPc.noConfusion CallPc.noConfusion rfl rfl rfl
  · cases hs
    unfold preRequestStep
    split
    · split <;> exact .unclaimed hpc CallPc.noConfusion CallPc.noConfusion rfl rfl rfl
    · exact .unclaimed hpc CallPc.noConfusion CallPc.noConfusion rfl rfl rfl
  · exact blockCountStep_claims hpc hs
  · cases hs
    unfold filterStep
    split <;> exact .unclaimed hpc CallPc.noConfusion CallPc.noConfusion rfl rfl rfl
  · obtain ⟨-, ht⟩ := Option.ite_none_right_eq_some.mp hs
    cases ht
    exact .unclaimed hpc CallPc.noConfusion CallPc.noConfusion rfl rfl rfl
  · cases hs
    exact issueStep_claims hpc
  · rename_i err
    cases hs
    refine .move hpc ⟨CallPc.noConfusion, CallPc.noConfusion, ?_, ?_⟩ rfl rfl ?_
    · cases err <;> exact id
    · cases err <;> exact id
    · cases err with
      | none => exact fun _ => Or.inl rfl
      | some e => exact fun h => Bool.noConfusion h
  · cases hs

/-! ## What is over stays over -/

/-- Nothing but a request adds one, and what is over stays over. -/
structure AnswersKept (s t : SdifState) : Prop where
  submitted : t.submitted = s.submitted
  answered : ∀ k, Over s k → Over t k

theorem AnswersKept.refl (s : SdifState) : AnswersKept s s := ⟨rfl, fun _ h => h⟩

theorem AnswersKept.trans {u : SdifState} (h : AnswersKept s t) (g : AnswersKept t u) :
    AnswersKept s u :=
  ⟨g.submitted.trans h.submitted, fun k hk => g.answered k (h.answered k hk)⟩

theorem AnswersKept.of_pc (hp : t.pc = s.pc) (hsubs : t.subs = s.subs)
    (hdone : ∀ k ∈ s.doneReqs, k ∈ t.doneReqs) : AnswersKept s t := by
  refine ⟨congrArg List.length hsubs, ?_⟩
  rintro k (hk | hk)
  · exact Or.inl (hdone k hk)
  · exact Or.inr (by rwa [hp])

theorem callStep_not_failed {ok : Bool} (hs : callStep cfg k ok s = some s') :
    (s.pc k).failed = false := by
  unfold CallPc.failed
  split
  · rename_i hpc
    rw [callStep, hpc] at hs
    cases hs
  · rfl

theorem CallStep.settled {v : Version} {ok : Bool} (hs : CallStep v k ok s s')
    (hfail : (s.pc k).failed = false) : AnswersKept s s' := by
  refine ⟨congrArg List.length hs.subs, ?_⟩
  rintro j (hdone | hj)
  · left
    rcases hs.doneLog with hlog | ⟨-, -, -, error, resp, buffer, hlog⟩
    · rwa [SdifState.doneReqs, hlog]
    · rw [doneReqs_snoc hlog]
      exact List.mem_append_left _ hdone
  · right
    by_cases hjk : j = k
    · subst hjk
      rw [hfail] at hj
      cases hj
    · rwa [hs.others j hjk]

theorem DoneEvent.settled {c : Option ℕ} (hd : DoneEvent s t c) : AnswersKept s t := by
  refine .of_pc hd.pc hd.subs ?_
  intro k hk
  cases c with
  | none =>
      obtain ⟨-, hlog, -⟩ := hd.quiet rfl
      rwa [SdifState.doneReqs, hlog]
  | some r =>
      obtain ⟨-, -, resp, buffer, hlog⟩ := hd.done r rfl
      rw [doneReqs_snoc hlog]
      exact List.mem_append_left _ hk

/-- The requests an event brings. -/
def SdifEvent.submits : SdifEvent → ℕ
  | .submit _ _ => 1
  | _ => 0

/-- An event that brings no request. -/
theorem eventStep_answersKept {e : SdifEvent} (he : e.submits = 0)
    (hs : eventStep cfg s e = some t) : AnswersKept s t := by
  cases e with
  | submit cmd bytes => cases he
  | call k ok => exact (callStep_spec hs).settled (callStep_not_failed hs)
  | cmdDone resp =>
      cases hs
      exact (commandDone_spec resp s).settled
  | dataDone bytes =>
      cases hs
      exact (dataDone_spec bytes s).settled
  | errOccure =>
      cases hs
      obtain ⟨hp, -, hsub, -, -, hlog, -⟩ := errorOccurred_spec cfg s
      refine .of_pc hp hsub fun k hk => ?_
      rwa [SdifState.doneReqs, hlog]
  | expire =>
      obtain ⟨-, ht⟩ := Option.ite_none_right_eq_some.mp hs
      cases ht
      exact .of_pc rfl rfl fun _ hk => hk
  | timeout =>
      obtain ⟨-, ht⟩ := Option.ite_none_right_eq_some.mp hs
      cases ht
      obtain ⟨hp, -, hsub, -, -, -, hlog⟩ := timeout_spec cfg s
      refine .of_pc hp hsub fun k hk => ?_
      rcases hlog with ⟨hlog, -⟩ | ⟨r, resp, buffer, -, -, hlog⟩
      · rwa [SdifState.doneReqs, hlog]
      · rw [doneReqs_snoc hlog]
        exact List.mem_append_left _ hk
  | updateIos powerUp useHold =>
      obtain ⟨-, ht⟩ := Option.ite_none_right_eq_some.mp hs
      cases ht
      exact .of_pc rfl rfl fun _ hk => hk

/-- A request that is over when another one is submitted. -/
theorem submit_over {cmd : MmcCommand} {bytes : List (BitVec 8)} {j : ℕ}
    (hj : j < s.submitted) (h : Over s j) : Over (submit cfg cmd bytes s) j := by
  refine h.imp_right fun hf => ?_
  rwa [submit_pc, if_neg (Nat.ne_of_lt hj)]

theorem submitted_submit (cmd : MmcCommand) (bytes : List (BitVec 8)) (s : SdifState) :
    (submit cfg cmd bytes s).submitted = s.submitted + 1 := by
  simp [submit, SdifState.submitted]

/-! ## The two pointers -/

/-- Only the last request is not over. Once its call has claimed the two
pointers, they are its own and no other call is about to store them. -/
structure ClaimInv (s : SdifState) : Prop where
  fresh : ∀ j, (s.pc j).fresh = true → j ∉ s.doneReqs
  last : ∀ k < s.submitted, k + 1 = s.submitted ∨ Over s k
  req : ∀ k, ¬ Over s k → (s.pc k).claimed = true → s.req = some k
  curcmd : ∀ k, ¬ Over s k → (s.pc k).named = true → s.curcmd = some k
  alone : ∀ k j, ¬ Over s k → (s.pc k).claimed = true → (s.pc j).issuing = true → j = k

theorem CallPc.named_of_issued {p : CallPc} (h : p.issued = true) : p.named = true := by
  unfold issued at h
  split at h
  · rfl
  · rfl
  · cases h

theorem CallPc.claimed_of_named {p : CallPc} (h : p.named = true) : p.claimed = true := by
  unfold named at h
  split at h
  · cases h
  · exact h

theorem CallPc.claimed_ne_new {p : CallPc} (h : p.claimed = true) : p ≠ .new := by
  rintro rfl
  cases h

/-- A call that is about to store `sc->req` has not failed. -/
theorem not_over_of_fresh (hfresh : k ∉ s.doneReqs) (hk : (s.pc k).fresh = true) :
    ¬ Over s k := by
  rintro (hdone | hfail)
  · exact hfresh hdone
  · unfold CallPc.failed at hfail
    split at hfail
    · rename_i hpc
      rw [hpc] at hk
      cases hk
    · cases hfail

/-- A request that is not over is the only one. -/
theorem ClaimInv.unique (h : ClaimInv s) {j : ℕ} (hk : k < s.submitted) (hj : j < s.submitted)
    (hko : ¬ Over s k) (hjo : ¬ Over s j) : j = k := by
  have hk1 := (h.last k hk).resolve_right hko
  have hj1 := (h.last j hj).resolve_right hjo
  omega

/-- The store of `sc->req` is that of the last request. -/
theorem ClaimInv.setReq_eq (h : ClaimInv s) (hi : CallInv cfg s) {j : ℕ}
    (hj : s.pc j = .issue .setReq) (hover : ¬ Over s k) (hk : s.pc k ≠ .new) : j = k := by
  have hfresh : (s.pc j).fresh = true := by
    rw [hj]
    rfl
  have hborn : s.pc j ≠ .new := by
    rw [hj]
    exact CallPc.noConfusion
  exact h.unique (hi.born hk) (hi.born hborn) hover (not_over_of_fresh (h.fresh j hfresh) hfresh)

/-- The call that holds the lock is the only one between its stores. -/
theorem CallInv.issuing_eq (hi : CallInv cfg s) {j : ℕ} (hlock : s.lock = some k)
    (hj : (s.pc j).issuing = true) : j = k := by
  have hlock' := hi.locked j (CallPc.issuing_locked cfg.version hj)
  rw [hlock, Option.some.injEq] at hlock'
  exact hlock'.symm

/-- While another request has its claim, a call stores neither pointer. -/
theorem ClaimInv.elsewhere (h : ClaimInv s) (hi : CallInv cfg s) {j : ℕ} (hjk : j ≠ k)
    (hover : ¬ Over s j) (hj : (s.pc j).claimed = true) :
    s.pc k ≠ .issue .setReq ∧ (s.pc k).issuing = false := by
  constructor
  · intro hk
    exact hjk (h.setReq_eq hi hk hover (CallPc.claimed_ne_new hj)).symm
  · rw [Bool.eq_false_iff]
    intro hk
    exact hjk (h.alone j k hover hj hk).symm

theorem ClaimInv.callStep {ok : Bool} (h : ClaimInv s) (hi : CallInv cfg s)
    (hs : callStep cfg k ok s = some s') : ClaimInv s' := by
  have hstep := callStep_spec hs
  have hclaim := callStep_claims hs
  have hset := hstep.settled (callStep_not_failed hs)
  have hopen : ∀ j, ¬ Over s' j → ¬ Over s j := fun j hn ho => hn (hset.answered j ho)
  refine ⟨?_, ?_, ?_, ?_, ?_⟩
  · intro j hj
    have hno := h.fresh j (hstep.fresh_le j hj)
    rcases hstep.doneLog with hlog | ⟨-, hk, -, error, resp, buffer, hlog⟩
    · rwa [SdifState.doneReqs, hlog]
    · rw [doneReqs_snoc hlog, List.mem_append, List.mem_singleton]
      rintro (hmem | rfl)
      · exact hno hmem
      · exact Bool.noConfusion (hk.symm.trans hj)
  · intro j hj
    rw [hset.submitted] at hj ⊢
    exact (h.last j hj).imp_right (hset.answered j)
  · intro j hover hj
    rw [hclaim.req]
    by_cases hjk : j = k
    · subst hjk
      rcases hclaim.claimed hj with hc | hpc
      · rw [h.req j (hopen j hover) hc, ite_self]
      · rw [if_pos hpc]
    · rw [hstep.others j hjk] at hj
      rw [if_neg (h.elsewhere hi hjk (hopen j hover) hj).1]
      exact h.req j (hopen j hover) hj
  · intro j hover hj
    rw [hclaim.curcmd]
    by_cases hjk : j = k
    · subst hjk
      rcases hclaim.named hj with hc | hpc
      · rw [h.curcmd j (hopen j hover) hc, ite_self]
      · rw [if_pos hpc]
    · rw [hstep.others j hjk] at hj
      rw [if_neg]
      · exact h.curcmd j (hopen j hover) hj
      · intro hpc
        have hnot := (h.elsewhere hi hjk (hopen j hover) (CallPc.claimed_of_named hj)).2
        rw [hpc] at hnot
        cases hnot
  · intro j i hover hj hissuing
    by_cases hjk : j = k
    · subst hjk
      by_cases hij : i = j
      · exact hij
      · rw [hstep.others i hij] at hissuing
        rcases hclaim.claimed hj with hc | hpc
        · exact h.alone j i (hopen j hover) hc hissuing
        · -- at the store of `sc->req` the call holds the lock
          refine hi.issuing_eq (hi.locked j ?_) hissuing
          rw [hpc]
          rfl
    · rw [hstep.others j hjk] at hj
      have hnot := (h.elsewhere hi hjk (hopen j hover) hj).1
      exact h.alone j i (hopen j hover) hj (hstep.issuing_le hnot i hissuing)

/-- A new call has claimed nothing, and the others are over. -/
theorem submit_claimed {cmd : MmcCommand} {bytes : List (BitVec 8)} (hi : CallInv cfg s)
    (hover : requestsOver s) {j : ℕ} (hj : ¬ Over (submit cfg cmd bytes s) j) :
    ((submit cfg cmd bytes s).pc j).claimed = false := by
  rw [submit_pc]
  split
  · unfold entry
    split <;> rfl
  · have hge : s.submitted ≤ j := Nat.le_of_not_lt fun hlt => hj (submit_over hlt (hover j hlt))
    rw [hi.unborn j hge]
    rfl

theorem ClaimInv.submit {cmd : MmcCommand} {bytes : List (BitVec 8)} (h : ClaimInv s)
    (hi : CallInv cfg s) (hover : requestsOver s) : ClaimInv (submit cfg cmd bytes s) := by
  refine ⟨fun j hj => h.fresh j (hi.submit_fresh j hj), ?_, ?_, ?_, ?_⟩
  · intro j hj
    rw [submitted_submit] at hj ⊢
    rcases Nat.lt_succ_iff_lt_or_eq.mp hj with hlt | rfl
    · exact Or.inr (submit_over hlt (hover j hlt))
    · exact Or.inl rfl
  · intro j hj hc
    exact Bool.noConfusion ((submit_claimed hi hover hj).symm.trans hc)
  · intro j hj hc
    exact Bool.noConfusion ((submit_claimed hi hover hj).symm.trans (CallPc.claimed_of_named hc))
  · intro j i hj hc
    exact Bool.noConfusion ((submit_claimed hi hover hj).symm.trans hc)

/-- An event that leaves the calls alone, completes no request before its time,
and takes nothing from the current one that is not over. -/
theorem ClaimInv.frame (h : ClaimInv s) (hset : AnswersKept s s') (hp : s'.pc = s.pc)
    (hnew : ∀ k ∈ s'.doneReqs, k ∈ s.doneReqs ∨ (s.pc k).fresh = false)
    (hkeep : ∀ k, k ∉ s'.doneReqs → s.req = some k →
      s'.req = some k ∧ (s.curcmd = some k → s'.curcmd = some k)) : ClaimInv s' := by
  have hopen : ∀ k, ¬ Over s' k → ¬ Over s k := fun k hn ho => hn (hset.answered k ho)
  have hkept : ∀ k, ¬ Over s' k → (s.pc k).claimed = true →
      s'.req = some k ∧ (s.curcmd = some k → s'.curcmd = some k) :=
    fun k hk hc => hkeep k (fun hd => hk (Or.inl hd)) (h.req k (hopen k hk) hc)
  refine ⟨?_, ?_, ?_, ?_, ?_⟩
  · intro j hj hdone
    rw [hp] at hj
    rcases hnew j hdone with hd | hf
    · exact h.fresh j hj hd
    · exact Bool.noConfusion (hf.symm.trans hj)
  · intro k hk
    rw [hset.submitted] at hk ⊢
    exact (h.last k hk).imp_right (hset.answered k)
  · intro k hk hc
    rw [hp] at hc
    exact (hkept k hk hc).1
  · intro k hk hc
    rw [hp] at hc
    exact (hkept k hk (CallPc.claimed_of_named hc)).2 (h.curcmd k (hopen k hk) hc)
  · intro k j hk hc hj
    rw [hp] at hc hj
    exact h.alone k j (hopen k hk) hc hj

/-- `CMD_DONE` and `DATA_DONE` complete the current request, or let it be. -/
theorem ClaimInv.doneEvent {c : Option ℕ} (h : ClaimInv s) (hi : CallInv cfg s)
    (hd : DoneEvent s s' c) (hf : SameSlots s s' ∨ Finished s s') : ClaimInv s' := by
  cases c with
  | none =>
      obtain ⟨hreq, hlog, -⟩ := hd.quiet rfl
      have hreqs : s'.doneReqs = s.doneReqs := congrArg (List.map DoneCall.req) hlog
      refine h.frame hd.settled hd.pc (fun k hk => Or.inl (hreqs ▸ hk)) ?_
      intro k _ hk
      refine ⟨hreq.trans hk, fun hcur => ?_⟩
      rcases hf with hsame | hfin
      · exact hsame.curcmd.trans hcur
      · exact (Option.some_ne_none k (hk.symm.trans (hreq.symm.trans hfin.req))).elim
  | some r =>
      obtain ⟨hr, -, resp, buffer, hlog⟩ := hd.done r rfl
      have hreqs := doneReqs_snoc hlog
      refine h.frame hd.settled hd.pc ?_ ?_
      · intro k hk
        rw [hreqs, List.mem_append, List.mem_singleton] at hk
        rcases hk with hk | rfl
        · exact Or.inl hk
        · exact Or.inr (hi.current k hr)
      · intro k hno hk
        rw [hr, Option.some.injEq] at hk
        rw [hreqs, List.mem_append, List.mem_singleton] at hno
        exact absurd (Or.inr hk.symm) hno

/-- The timeout completes the current request, which stays the current one. -/
theorem ClaimInv.timeout (h : ClaimInv s) (hi : CallInv cfg s)
    (hset : AnswersKept s (timeout cfg s)) (hcur : (timeout cfg s).curcmd = s.curcmd) :
    ClaimInv (timeout cfg s) := by
  obtain ⟨hp, -, -, hreq, -, -, hlog⟩ := timeout_spec cfg s
  refine h.frame hset hp ?_ ?_
  · intro k hk
    rcases hlog with ⟨hlog, -⟩ | ⟨r, resp, buffer, hr, -, hlog⟩
    · rw [SdifState.doneReqs, hlog] at hk
      exact Or.inl hk
    · rw [doneReqs_snoc hlog, List.mem_append, List.mem_singleton] at hk
      rcases hk with hk | rfl
      · exact Or.inl hk
      · exact Or.inr (hi.current k hr)
  · exact fun k _ hk => ⟨hreq.trans hk, fun hc => hcur.trans hc⟩

/-- What an interrupt that does not panic leaves of the two pointers. -/
theorem interrupt_slots {e : SdifEvent} (hcall : ∀ j ok, e ≠ .call j ok)
    (hsubmit : ∀ cmd bytes, e ≠ .submit cmd bytes) (hs : eventStep cfg s e = some t)
    (hrun : t.panicked = false) : SameSlots s t ∨ Finished s t := by
  obtain ⟨-, ⟨-, hsame⟩ | ⟨-, hpanic | hfin⟩⟩ := interrupt_spec hcall hsubmit hs
  · exact Or.inl hsame
  · exact Bool.noConfusion (hrun.symm.trans hpanic)
  · exact Or.inr hfin

theorem eventStep_claimInv {e : SdifEvent} (h : ClaimInv s) (hi : CallInv cfg s)
    (hdom : oneAtATime s e) (hs : eventStep cfg s e = some s') (hrun : s'.panicked = false) :
    ClaimInv s' := by
  cases e with
  | submit cmd bytes =>
      cases hs
      exact h.submit hi hdom
  | call k ok => exact h.callStep hi hs
  | cmdDone resp =>
      have hf := interrupt_slots (e := .cmdDone resp) (by simp) (by simp) hs hrun
      cases hs
      exact h.doneEvent hi (commandDone_spec resp s) hf
  | dataDone bytes =>
      have hf := interrupt_slots (e := .dataDone bytes) (by simp) (by simp) hs hrun
      cases hs
      exact h.doneEvent hi (dataDone_spec bytes s) hf
  | errOccure =>
      have hset : AnswersKept s s' := eventStep_answersKept (e := .errOccure) rfl hs
      obtain ⟨hp, ⟨-, hsame⟩ | ⟨hfalse, -⟩⟩ :=
        interrupt_spec (e := .errOccure) (by simp) (by simp) hs
      · cases hs
        obtain ⟨-, -, -, -, -, hlog, -⟩ := errorOccurred_spec cfg s
        have hreqs : (errorOccurred cfg s).doneReqs = s.doneReqs :=
          congrArg (List.map DoneCall.req) hlog
        refine h.frame hset hp (fun k hk => Or.inl (hreqs ▸ hk)) ?_
        exact fun k _ hk => ⟨hsame.req.trans hk, fun hc => hsame.curcmd.trans hc⟩
      · cases hfalse
  | timeout =>
      have hset : AnswersKept s s' := eventStep_answersKept (e := .timeout) rfl hs
      obtain ⟨-, ⟨-, hsame⟩ | ⟨hfalse, -⟩⟩ :=
        interrupt_spec (e := .timeout) (by simp) (by simp) hs
      · obtain ⟨-, ht⟩ := Option.ite_none_right_eq_some.mp hs
        cases ht
        exact h.timeout hi hset hsame.curcmd
      · cases hfalse
  | expire =>
      obtain ⟨-, ht⟩ := Option.ite_none_right_eq_some.mp hs
      cases ht
      exact h.frame (.of_pc rfl rfl fun _ hk => hk) rfl (fun _ hk => Or.inl hk)
        fun k _ hk => ⟨hk, id⟩
  | updateIos powerUp useHold =>
      obtain ⟨-, ht⟩ := Option.ite_none_right_eq_some.mp hs
      cases ht
      exact h.frame (.of_pc rfl rfl fun _ hk => hk) rfl (fun _ hk => Or.inl hk)
        fun k _ hk => ⟨hk, id⟩

theorem claim_reachable_inv (h : ((sdifSystem cfg).restrict oneAtATime).Reachable s) :
    s.panicked = false → ClaimInv s := by
  apply h.restrict_invariant
  · rintro s ⟨mem, need, rfl⟩ -
    refine ⟨fun _ _ => List.not_mem_nil, fun _ hk => absurd hk (Nat.not_lt_zero _), ?_, ?_, ?_⟩
    · exact fun _ _ hc => Bool.noConfusion hc
    · exact fun _ _ hc => Bool.noConfusion hc
    · exact fun _ _ _ hc => Bool.noConfusion hc
  · intro s e s' hr hi hdom hs hrun
    obtain ⟨hbefore, hs⟩ := sdifStep_iff.mp hs
    exact eventStep_claimInv (hi hbefore) (sdif_reachable_callInv hr) hdom hs hrun

/-! ## The callout -/

/-- The callout is set for the request whose call is through. -/
def Watched (s : SdifState) : Prop :=
  ∀ k, ¬ Over s k → (s.pc k).issued = true → s.callout ≠ .idle

theorem ClaimInv.noneLost (h : ClaimInv s) (hw : Watched s) : NoneLost s := by
  right
  intro k _
  by_cases hover : Over s k
  · exact Or.inl hover
  · right
    cases hissued : (s.pc k).issued with
    | false => exact Or.inl rfl
    | true =>
        right
        have hnamed := CallPc.named_of_issued hissued
        exact ⟨h.req k hover (CallPc.claimed_of_named hnamed), h.curcmd k hover hnamed,
          hw k hover hissued⟩

/-- The timeout completes the current request, if `sc->curcmd` is stored. -/
theorem timeout_completes (hreq : s.req = some k) (hcur : s.curcmd = some k) :
    (timeout cfg s).panicked = true ∨ k ∈ (timeout cfg s).doneReqs := by
  unfold timeout
  rw [hcur, hreq]
  dsimp only
  split
  · exact Or.inl rfl
  · right
    rw [SdifState.doneReqs]
    exact List.mem_map_of_mem (List.mem_append_right _ List.mem_cons_self)

theorem Watched.callStep {ok : Bool} (hw : Watched s) (h : ClaimInv s) (hi : CallInv cfg s)
    (hok : lossless cfg s (.call k ok)) (hs : callStep cfg k ok s = some s') : Watched s' := by
  have hstep := callStep_spec hs
  have hset := hstep.settled (callStep_not_failed hs)
  intro j hover hj
  have hopen : ¬ Over s j := fun ho => hover (hset.answered j ho)
  by_cases hjk : j = k
  · subst hjk
    rcases (callStep_claims hs).issued hj with hk | ⟨-, harmed⟩ | ⟨hpc, hv, hok'⟩
    · rw [hstep.callout.resolve_right]
      · exact hw j hopen hk
      · intro hpc
        rw [hpc] at hk
        cases hk
    · rw [harmed]
      exact Callout.noConfusion
    · rw [hstep.callout.resolve_right]
      · refine (hok hpc hv hok').resolve_right ?_
        exact fun hdone => hopen (Or.inl hdone)
      · rw [hpc]
        simp
  · rw [hstep.others j hjk] at hj
    have hclaimed := CallPc.claimed_of_named (CallPc.named_of_issued hj)
    rw [hstep.callout.resolve_right]
    · exact hw j hopen hj
    · intro hpc
      have hnot := (h.elsewhere hi hjk hopen hclaimed).2
      rw [hpc] at hnot
      cases hnot

theorem Watched.frame (hw : Watched s) (hset : AnswersKept s s') (hp : s'.pc = s.pc)
    (hcall : s.callout ≠ .idle → s'.callout ≠ .idle) : Watched s' := by
  intro k hover hk
  rw [hp] at hk
  exact hcall (hw k (fun ho => hover (hset.answered k ho)) hk)

theorem Watched.doneEvent {c : Option ℕ} (hw : Watched s) (h : ClaimInv s)
    (hd : DoneEvent s s' c) : Watched s' := by
  cases c with
  | none =>
      obtain ⟨-, -, hcall⟩ := hd.quiet rfl
      exact hw.frame hd.settled hd.pc fun hne => hcall ▸ hne
  | some r =>
      obtain ⟨hr, -, resp, buffer, hlog⟩ := hd.done r rfl
      intro k hover hk
      rw [hd.pc] at hk
      have hopen : ¬ Over s k := fun ho => hover (hd.settled.answered k ho)
      have hreq := h.req k hopen (CallPc.claimed_of_named (CallPc.named_of_issued hk))
      rw [hr, Option.some.injEq] at hreq
      -- the request that was completed is this one
      refine absurd (Or.inl ?_) hover
      rw [doneReqs_snoc hlog, hreq]
      exact List.mem_append_right _ List.mem_cons_self

theorem timeout_watched (h : ClaimInv s) (hset : AnswersKept s (timeout cfg s))
    (hrun : (timeout cfg s).panicked = false) : Watched (timeout cfg s) := by
  have hp := (timeout_spec cfg s).1
  intro k hover hk
  rw [hp] at hk
  have hopen : ¬ Over s k := fun ho => hover (hset.answered k ho)
  have hnamed := CallPc.named_of_issued hk
  have hreq := h.req k hopen (CallPc.claimed_of_named hnamed)
  rcases timeout_completes hreq (h.curcmd k hopen hnamed) with hpanic | hdone
  · exact Bool.noConfusion (hrun.symm.trans hpanic)
  · exact absurd (Or.inl hdone) hover

theorem eventStep_watched {e : SdifEvent} (hw : Watched s) (h : ClaimInv s) (hi : CallInv cfg s)
    (hdom : oneAtATime s e) (hok : lossless cfg s e) (hs : eventStep cfg s e = some s')
    (hrun : s'.panicked = false) : Watched s' := by
  cases e with
  | submit cmd bytes =>
      cases hs
      intro k hover hk
      have hnone := submit_claimed hi hdom hover
      exact Bool.noConfusion
        (hnone.symm.trans (CallPc.claimed_of_named (CallPc.named_of_issued hk)))
  | call k ok => exact hw.callStep h hi hok hs
  | cmdDone resp =>
      cases hs
      exact hw.doneEvent h (commandDone_spec resp s)
  | dataDone bytes =>
      cases hs
      exact hw.doneEvent h (dataDone_spec bytes s)
  | errOccure =>
      have hset : AnswersKept s s' := eventStep_answersKept (e := .errOccure) rfl hs
      cases hs
      obtain ⟨hp, -, -, -, -, -, hcall, -⟩ := errorOccurred_spec cfg s
      exact hw.frame hset hp fun hne => hcall ▸ hne
  | expire =>
      obtain ⟨-, ht⟩ := Option.ite_none_right_eq_some.mp hs
      cases ht
      exact hw.frame (.of_pc rfl rfl fun _ hk => hk) rfl fun _ => Callout.noConfusion
  | timeout =>
      have hset : AnswersKept s s' := eventStep_answersKept (e := .timeout) rfl hs
      obtain ⟨-, ht⟩ := Option.ite_none_right_eq_some.mp hs
      cases ht
      exact timeout_watched h hset hrun
  | updateIos powerUp useHold =>
      obtain ⟨-, ht⟩ := Option.ite_none_right_eq_some.mp hs
      cases ht
      exact hw.frame (.of_pc rfl rfl fun _ hk => hk) rfl id

theorem watched_reachable
    (h : (((sdifSystem cfg).restrict oneAtATime).restrict (lossless cfg)).Reachable s) :
    s.panicked = false → Watched s := by
  apply h.restrict_invariant
  · rintro s ⟨mem, need, rfl⟩ -
    exact fun _ _ hk => Bool.noConfusion hk
  · intro s e s' hr hw hok hs hrun
    obtain ⟨hdom, hs⟩ := System.restrict_step.mp hs
    obtain ⟨hbefore, hs⟩ := sdifStep_iff.mp hs
    exact eventStep_watched (hw hbefore) (claim_reachable_inv hr hbefore)
      (sdif_reachable_callInv hr.of_restrict) hdom hok hs hrun

theorem noneLost_reachable
    (h : (((sdifSystem cfg).restrict oneAtATime).restrict (lossless cfg)).Reachable s) :
    NoneLost s := by
  cases hrun : s.panicked with
  | true => exact Or.inl hrun
  | false => exact (claim_reachable_inv h.of_restrict hrun).noneLost (watched_reachable h hrun)

/-- A transfer of `phytium_sdif_v2.c` that cannot be started, and for which the
timeout is not set, is lost. -/
theorem not_noneLost_of_not_lossless {e : SdifEvent} (hi : CallInv cfg s)
    (hok : ¬ lossless cfg s e) (hs : sdifStep cfg s e = some s') : ¬ NoneLost s' := by
  obtain ⟨hrun, hs⟩ := sdifStep_iff.mp hs
  cases e with
  | call k ok =>
      simp only [lossless, Classical.not_imp, not_or, not_not] at hok
      obtain ⟨hpc, hv, rfl, hidle, hno⟩ := hok
      have hborn : k < s.submitted := by
        apply hi.born
        rw [hpc]
        exact CallPc.noConfusion
      have hs' : s' = s.fail k .failed none := by
        change callStep cfg k false s = some s' at hs
        rw [callStep, hpc] at hs
        cases hs
        simp only [issueStep, startStep, Bool.false_eq_true, if_false, hv]
      subst hs'
      have hpc' : (s.fail k .failed none).pc k = .unlock none := goto_pc ..
      rintro (hpanic | hall)
      · exact Bool.noConfusion (hrun.symm.trans hpanic)
      · rcases hall k hborn with (hdone | hf) | hissued | ⟨-, -, hne⟩
        · exact hno hdone
        · rw [hpc'] at hf
          cases hf
        · rw [hpc'] at hissued
          cases hissued
        · exact hne hidle
  | _ => exact absurd trivial hok

end Phytium.Sdif
