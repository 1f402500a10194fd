import Mathlib.Data.List.Basic
import Mathlib.Data.List.Perm.Basic
import Mathlib.Logic.Function.Basic
import Mathlib.Tactic.Common

/-!
# A window that moves around a ring

`N` slots in a circle, `n` of them in use from slot `tl` on. `Mem` is the
window without a remainder in it: slot `i` is in the window when `i` or `i + N`
lies between `tl` and `tl + n`. `mem_iff` gives the usual form.

The last section is about what the slots of a ring hold: emptying a slot takes
one entry out of the list of contents, filling an empty one adds one.
-/

namespace Lib.CircularWindow

variable (N : ℕ)

/-- The slot behind `i`. -/
def next (i : ℕ) : ℕ := if i + 1 = N then 0 else i + 1

/-- The slot behind the window. -/
def behind (tl n : ℕ) : ℕ := if tl + n < N then tl + n else tl + n - N

/-- Slot `i` is one of the `n` from `tl` on. -/
def Mem (tl n i : ℕ) : Prop := (tl ≤ i ∧ i < tl + n) ∨ i + N < tl + n

instance (tl n i : ℕ) : Decidable (Mem N tl n i) := by
  unfold Mem
  infer_instance

variable {N} {tl n i : ℕ}

theorem next_lt (hi : i < N) : next N i < N := by
  unfold next
  split <;> omega

theorem behind_lt (ht : tl < N) (hn : n ≤ N) : behind N tl n < N := by
  unfold behind
  split <;> omega

theorem behind_eq_mod (ht : tl < N) (hn : n ≤ N) : behind N tl n = (tl + n) % N := by
  unfold behind
  split
  · rename_i h
    rw [Nat.mod_eq_of_lt h]
  · rename_i h
    rw [Nat.mod_eq_sub_mod (by omega), Nat.mod_eq_of_lt (by omega)]

/-- The window in the usual form. -/
theorem mem_iff (ht : tl < N) (hn : n ≤ N) (hi : i < N) :
    Mem N tl n i ↔ ∃ j < n, i = (tl + j) % N := by
  constructor
  · rintro (⟨h1, h2⟩ | h)
    · refine ⟨i - tl, by omega, ?_⟩
      rw [Nat.add_sub_cancel' h1, Nat.mod_eq_of_lt hi]
    · refine ⟨i + N - tl, by omega, ?_⟩
      rw [Nat.add_sub_cancel' (by omega), Nat.add_mod_right, Nat.mod_eq_of_lt hi]
  · rintro ⟨j, hj, rfl⟩
    rw [← behind_eq_mod ht (by omega), behind, Mem]
    split <;> omega

theorem not_mem_zero (ht : tl < N) : ¬ Mem N tl 0 i := by
  rintro (⟨h1, h2⟩ | h) <;> omega

theorem head_mem (hn : 0 < n) : Mem N tl n tl := Or.inl ⟨Nat.le_refl tl, by omega⟩

theorem behind_not_mem (hn : n < N) : ¬ Mem N tl n (behind N tl n) := by
  unfold behind Mem
  split <;> omega

/-- Taking the first slot out. -/
theorem mem_pop (h0 : 0 < n) (hn : n ≤ N) (hi : i < N) :
    Mem N (next N tl) (n - 1) i ↔ Mem N tl n i ∧ i ≠ tl := by
  unfold next Mem
  split <;> omega

theorem behind_pop (h0 : 0 < n) (hn : n ≤ N) :
    behind N (next N tl) (n - 1) = behind N tl n := by
  unfold next behind
  split <;> split <;> split <;> omega

/-- Putting one more slot in. -/
theorem mem_push (hi : i < N) :
    Mem N tl (n + 1) i ↔ Mem N tl n i ∨ i = behind N tl n := by
  unfold behind Mem
  split <;> omega

theorem behind_push (ht : tl < N) (hn : n < N) :
    behind N tl (n + 1) = next N (behind N tl n) := by
  unfold next behind
  split <;> split <;> split <;> omega

/-! ## What the slots hold -/

variable {α : Type*} {f : ℕ → Option α} {a : α} {l : List ℕ}

/-- What the slots of `l` hold, in order. -/
def contents (f : ℕ → Option α) (l : List ℕ) : List α := l.filterMap f

theorem contents_none (h : ∀ i ∈ l, f i = none) : contents f l = [] :=
  List.filterMap_eq_nil_iff.mpr h

/-- Filling an empty slot adds its entry. -/
theorem contents_fill (hl : l.Nodup) (hi : i ∈ l) (hf : f i = none) :
    (contents (Function.update f i (some a)) l).Perm (a :: contents f l) := by
  have hsplit := List.perm_cons_erase hi
  have hrest : (l.erase i).filterMap (Function.update f i (some a)) = (l.erase i).filterMap f := by
    refine List.filterMap_congr fun j hj => Function.update_of_ne ?_ _ _
    rintro rfl
    exact hl.not_mem_erase hj
  have hnew := hsplit.filterMap (Function.update f i (some a))
  have hold := hsplit.filterMap f
  rw [List.filterMap_cons_some (Function.update_self i (some a) f), hrest] at hnew
  rw [List.filterMap_cons_none hf] at hold
  exact hnew.trans (hold.symm.cons a)

/-- Emptying a slot takes its entry out. -/
theorem contents_take (hl : l.Nodup) (hi : i ∈ l) (hf : f i = some a) :
    (contents f l).Perm (a :: contents (Function.update f i none) l) := by
  have hback : Function.update (Function.update f i none) i (some a) = f := by
    rw [Function.update_idem, ← hf, Function.update_eq_self]
  have hfill := contents_fill (a := a) hl hi (Function.update_self i none f)
  rw [hback] at hfill
  exact hfill

end Lib.CircularWindow
