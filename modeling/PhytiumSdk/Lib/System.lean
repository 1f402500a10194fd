import Mathlib.Data.List.Induction
import Mathlib.Data.List.Infix
import Mathlib.Tactic.ByContra
import Mathlib.Order.Basic

/-!
# Guarded transition systems

A system is a set of initial states and an executable step: `step s e` is
`some s'` when the event `e` can happen in `s`, and `none` when it cannot.
One definition serves the proofs (`Reachable`), the concrete runs (`run`)
and the restricted runs (`restrict`), in which every event meets a condition
on the state it happens in.
-/

namespace Lib

/-- A transition system over states `σ` and events `ε`. -/
structure System (σ ε : Type*) where
  init : σ → Prop
  step : σ → ε → Option σ

namespace System

variable {σ ε : Type*} (M : System σ ε)

/-- The states some finite run ends in. -/
inductive Reachable : σ → Prop
  | init {s : σ} : M.init s → Reachable s
  | step {s s' : σ} {e : ε} : Reachable s → M.step s e = some s' → Reachable s'

/-- Replay a list of events; `none` as soon as one of them is not enabled. -/
def run (s : σ) (es : List ε) : Option σ := es.foldlM M.step s

@[simp] theorem run_nil (s : σ) : M.run s [] = some s := rfl

@[simp] theorem run_cons (s : σ) (e : ε) (es : List ε) :
    M.run s (e :: es) = (M.step s e).bind (fun t => M.run t es) := rfl

theorem run_append (s : σ) (es fs : List ε) :
    M.run s (es ++ fs) = (M.run s es).bind (fun t => M.run t fs) := by
  simp only [run, List.foldlM_append]
  rfl

/-- **The invariant rule**: what holds initially and is kept by every step
holds of every reachable state. -/
theorem Reachable.invariant {M : System σ ε} {P : σ → Prop}
    (h0 : ∀ s, M.init s → P s)
    (hs : ∀ s e s', P s → M.step s e = some s' → P s')
    {s : σ} (h : M.Reachable s) : P s := by
  induction h with
  | init hi => exact h0 _ hi
  | step _ he ih => exact hs _ _ _ ih he

theorem Reachable.run {M : System σ ε} {s t : σ} (h : M.Reachable s) :
    ∀ {es : List ε}, M.run s es = some t → M.Reachable t := by
  intro es
  induction es generalizing s with
  | nil =>
      intro hr
      cases hr
      exact h
  | cons e es ih =>
      intro hr
      rw [run_cons, Option.bind_eq_some_iff] at hr
      obtain ⟨u, hu, hr⟩ := hr
      exact ih (h.step hu) hr

/-- A replay from an initial state ends in a reachable state. -/
theorem reachable_of_run {s t : σ} {es : List ε} (hi : M.init s)
    (hr : M.run s es = some t) : M.Reachable t :=
  (Reachable.init hi).run hr

/-- The runs of `M` in which every event meets the condition `ok` in the state
it happens in. -/
def restrict (ok : σ → ε → Prop) [∀ s e, Decidable (ok s e)] : System σ ε where
  init := M.init
  step := fun s e => if ok s e then M.step s e else none

variable {M}
variable {ok : σ → ε → Prop} [∀ s e, Decidable (ok s e)]

theorem restrict_step {s s' : σ} {e : ε} :
    (M.restrict ok).step s e = some s' ↔ ok s e ∧ M.step s e = some s' := by
  simp only [restrict]
  split <;> simp_all

/-- A restricted run is a run. -/
theorem Reachable.of_restrict {s : σ} (h : (M.restrict ok).Reachable s) :
    M.Reachable s := by
  induction h with
  | init hi => exact .init hi
  | step _ he ih => exact ih.step (restrict_step.mp he).2

/-- The invariant rule for restricted runs: the step may use the condition,
and that its start is reachable in `M`. -/
theorem Reachable.restrict_invariant {P : σ → Prop}
    (h0 : ∀ s, M.init s → P s)
    (hs : ∀ s e s', M.Reachable s → P s → ok s e → M.step s e = some s' → P s')
    {s : σ} (h : (M.restrict ok).Reachable s) : P s := by
  induction h with
  | init hi => exact h0 _ hi
  | step hr he ih =>
      obtain ⟨hok, hst⟩ := restrict_step.mp he
      exact hs _ _ _ hr.of_restrict ih hok hst

/-! ## Runs that come to an end -/

section Ranking

variable (rank : σ → ℕ) {Q : ε → Prop}

/-- **The ranking rule**: events that lower a rank make no run longer than the
rank. -/
theorem Reachable.run_length_le
    (hrank : ∀ s e s', M.Reachable s → Q e → M.step s e = some s' → rank s' < rank s)
    {s t : σ} (h : M.Reachable s) {es : List ε} (hes : ∀ e ∈ es, Q e)
    (hr : M.run s es = some t) : es.length ≤ rank s := by
  induction es generalizing s with
  | nil => exact Nat.zero_le _
  | cons e es ih =>
      rw [run_cons, Option.bind_eq_some_iff] at hr
      obtain ⟨u, hu, hr⟩ := hr
      have hlt := hrank s e u h (hes e List.mem_cons_self) hu
      have hle := ih (h.step hu) (fun f hf => hes f (List.mem_cons_of_mem e hf)) hr
      exact Nat.succ_le_of_lt (Nat.lt_of_le_of_lt hle hlt)

end Ranking

/-! ## Runs that always satisfy a property -/

section Always

variable (M) (ok : σ → ε → Prop)

/-- `P` holds in every state the run `es` passes through. -/
def Always (s : σ) (es : List ε) (P : σ → Prop) : Prop :=
  ∀ fs t, fs <+: es → M.run s fs = some t → P t

/-- Every step of the run `es` meets the condition. -/
def Meets (s : σ) (es : List ε) : Prop :=
  ∀ fs e t t', fs ++ [e] <+: es → M.run s fs = some t → M.step t e = some t' → ok t e

variable {M} {ok} [∀ s e, Decidable (ok s e)]

theorem run_concat {s t : σ} {es : List ε} {e : ε} (h : M.run s (es ++ [e]) = some t) :
    ∃ u, M.run s es = some u ∧ M.step u e = some t := by
  rw [run_append, Option.bind_eq_some_iff] at h
  obtain ⟨u, hu, ht⟩ := h
  rw [run_cons, Option.bind_eq_some_iff] at ht
  obtain ⟨v, hv, ht⟩ := ht
  cases ht
  exact ⟨u, hu, hv⟩

omit [∀ s e, Decidable (ok s e)] in
theorem meets_nil (s : σ) : M.Meets ok s [] := by
  intro fs e t t' hpre
  have hlen := hpre.length_le
  simp at hlen

omit [∀ s e, Decidable (ok s e)] in
/-- The first step, and then the others. -/
theorem meets_cons {s : σ} {e : ε} {es : List ε} :
    M.Meets ok s (e :: es) ↔ ∀ t, M.step s e = some t → ok s e ∧ M.Meets ok t es := by
  constructor
  · intro h t ht
    refine ⟨h [] e s t (by simp) rfl ht, ?_⟩
    intro fs f u u' hpre hrun hstep
    refine h (e :: fs) f u u' (List.cons_prefix_cons.mpr ⟨rfl, hpre⟩) ?_ hstep
    rw [run_cons, ht, Option.bind_some, hrun]
  · rintro h (_ | ⟨f, fs⟩) e' t t' hpre hrun hstep
    · obtain ⟨rfl, -⟩ := List.cons_prefix_cons.mp hpre
      cases hrun
      exact (h t' hstep).1
    · obtain ⟨rfl, hrest⟩ := List.cons_prefix_cons.mp hpre
      rw [run_cons, Option.bind_eq_some_iff] at hrun
      obtain ⟨u, hu, hrun⟩ := hrun
      exact (h u hu).2 fs e' t t' hrest hrun hstep

/-- A run can be checked step by step. -/
instance decidableMeets (s : σ) : (es : List ε) → Decidable (M.Meets ok s es)
  | [] => isTrue (meets_nil s)
  | e :: es =>
      match h : M.step s e with
      | none => isTrue (meets_cons.mpr fun t ht => absurd (h.symm.trans ht) (Option.some_ne_none t).symm)
      | some t =>
          have : Decidable (M.Meets ok t es) := decidableMeets t es
          decidable_of_iff (ok s e ∧ M.Meets ok t es)
            ⟨fun hm => meets_cons.mpr fun u hu => by
                cases h.symm.trans hu
                exact hm,
              fun hm => meets_cons.mp hm t h⟩

/-- **An exact condition**: if `P` holds as long as every step meets `ok`, and
the first step that does not breaks it, then `P` holds along a run just when
all its steps meet `ok`. -/
theorem always_iff_meets {P : σ → Prop} {s : σ} (hs : M.init s)
    (hsafe : ∀ t, (M.restrict ok).Reachable t → P t)
    (hbreak : ∀ t e t', (M.restrict ok).Reachable t → ¬ ok t e → M.step t e = some t' → ¬ P t')
    (es : List ε) : M.Always s es P ↔ M.Meets ok s es := by
  constructor
  · intro h
    have hreach : ∀ fs t, fs <+: es → M.run s fs = some t → (M.restrict ok).Reachable t := by
      intro fs
      induction fs using List.reverseRecOn with
      | nil =>
          intro t _ ht
          cases ht
          exact .init hs
      | append_singleton fs e ih =>
          intro t hpre ht
          obtain ⟨u, hu, hstep⟩ := run_concat ht
          have hru := ih u ((List.prefix_append fs [e]).trans hpre) hu
          have hok : ok u e := by
            by_contra hn
            exact hbreak u e t hru hn hstep (h _ t hpre ht)
          exact hru.step (restrict_step.mpr ⟨hok, hstep⟩)
    intro fs e t t' hpre ht hstep
    by_contra hn
    have hrun : M.run s (fs ++ [e]) = some t' := by
      rw [run_append, ht, Option.bind_some, run_cons, hstep]
      rfl
    exact hbreak t e t' (hreach fs t ((List.prefix_append fs [e]).trans hpre) ht) hn hstep
      (h _ t' hpre hrun)
  · intro h fs t hpre ht
    refine hsafe t ?_
    induction fs using List.reverseRecOn generalizing t with
    | nil =>
        cases ht
        exact .init hs
    | append_singleton fs e ih =>
        obtain ⟨u, hu, hstep⟩ := run_concat ht
        have hru := ih u ((List.prefix_append fs [e]).trans hpre) hu
        exact hru.step (restrict_step.mpr ⟨h fs e u t hpre hu hstep, hstep⟩)

end Always

end System

end Lib
