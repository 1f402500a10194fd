import PhytiumSdk.Lib.System
import Mathlib.Data.List.Induction

/-!
# Append-only records

A system that keeps a record of what it has done, one entry a step at most. A
property of the record that looks at each entry and what was there before it
holds along a run just when every entry has it as it is made.
-/

namespace Lib

variable {α : Type*}

/-- `P` holds of every entry, given the entries before it. -/
def Each (P : List α → α → Prop) (tr : List α) : Prop :=
  ∀ pre i, pre ++ [i] <+: tr → P pre i

variable {P : List α → α → Prop} {tr : List α}

theorem each_nil : Each P [] := by
  intro pre i h
  have hlen := h.length_le
  simp at hlen

theorem each_append_singleton {i : α} : Each P (tr ++ [i]) ↔ Each P tr ∧ P tr i := by
  constructor
  · intro h
    refine ⟨?_, h tr i List.prefix_rfl⟩
    intro pre j hpre
    exact h pre j (hpre.trans (List.prefix_append tr [i]))
  · rintro ⟨h, hi⟩ pre j hpre
    rcases List.prefix_concat_iff.mp hpre with heq | hpre
    · obtain ⟨rfl, hlast⟩ := List.append_inj' heq rfl
      obtain rfl := List.singleton_inj.mp hlast
      exact hi
    · exact h pre j hpre

/-- With an entry or without one. -/
theorem each_append_toList {o : Option α} :
    Each P (tr ++ o.toList) ↔ Each P tr ∧ ∀ i, o = some i → P tr i := by
  cases o with
  | none => simp
  | some i =>
      rw [Option.toList_some, each_append_singleton]
      simp

/-- A property that does not depend on what was before. -/
theorem each_iff_forall_mem {good : α → Prop} (h : ∀ pre i, P pre i ↔ good i) :
    Each P tr ↔ ∀ i ∈ tr, good i := by
  induction tr using List.reverseRecOn with
  | nil => simp [each_nil]
  | append_singleton tr i ih => rw [each_append_singleton, ih, h, List.forall_mem_append,
      List.forall_mem_singleton]

namespace System

variable {σ ε : Type*} {M : System σ ε}

/-- **The rule for records**: where a condition on a step decides whether the
entry it makes has the property, all entries of a run have it just when every
step of the run meets the condition. -/
theorem always_each_iff (record : σ → List α) (entry : σ → ε → Option α)
    {ok : σ → ε → Prop}
    (hinit : ∀ s, M.init s → record s = [])
    (hrec : ∀ s e s', M.step s e = some s' → record s' = record s ++ (entry s e).toList)
    (hok : ∀ s e s', M.Reachable s → M.step s e = some s' →
      ((∀ i, entry s e = some i → P (record s) i) ↔ ok s e))
    {s : σ} (hs : M.init s) (es : List ε) :
    M.Always s es (fun t => Each P (record t)) ↔ M.Meets ok s es := by
  classical
  have hstep : ∀ t e t', M.Reachable t → M.step t e = some t' →
      (Each P (record t') ↔ Each P (record t) ∧ ok t e) := by
    intro t e t' ht hst
    rw [hrec t e t' hst, each_append_toList, hok t e t' ht hst]
  refine always_iff_meets hs ?_ ?_ es
  · intro t ht
    refine ht.restrict_invariant (P := fun u => Each P (record u)) ?_ ?_
    · intro u hu
      rw [hinit u hu]
      exact each_nil
    · intro u e u' hu hP hok hst
      exact (hstep u e u' hu hst).mpr ⟨hP, hok⟩
  · intro t e t' ht hn hst hP
    exact hn ((hstep t e t' ht.of_restrict hst).mp hP).2

end System

end Lib
