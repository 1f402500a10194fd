import Mathlib.Data.BitVec

/-!
# Register words tested and edited through masks

A driver reads a word with `(x & m) != 0` and edits it with `x |= m` and
`x &= ~m`. `has` is the test; the lemmas say how it reacts to the two edits
when the masks involved share no bit.
-/

namespace Lib.Mask

variable {w : ℕ}

/-- The C test `(x & m) != 0`. -/
def has (x m : BitVec w) : Bool := x &&& m != 0#w

theorem has_iff {x m : BitVec w} : has x m = true ↔ x &&& m ≠ 0#w := by
  simp [has]

theorem has_eq_false_iff {x m : BitVec w} : has x m = false ↔ x &&& m = 0#w := by
  simp [has]

theorem has_self {m : BitVec w} (h : m ≠ 0#w) : has m m = true := by
  simpa [has_iff] using h

theorem has_of_disjoint {x m : BitVec w} (h : x &&& m = 0#w) : has x m = false :=
  has_eq_false_iff.mpr h

@[simp] theorem has_or (x y m : BitVec w) :
    has (x ||| y) m = (has x m || has y m) := by
  simp only [has, BitVec.and_or_distrib_right]
  by_cases hx : x &&& m = 0#w <;> by_cases hy : y &&& m = 0#w <;>
    simp [hx, hy, bne, BEq.beq]

/-- Two words that agree under a mask pass its test together. -/
theorem has_congr {x y m : BitVec w} (h : x &&& m = y &&& m) : has x m = has y m := by
  simp [has, h]

theorem or_and_of_disjoint {x y m : BitVec w} (h : y &&& m = 0#w) :
    (x ||| y) &&& m = x &&& m := by
  rw [BitVec.and_or_distrib_right, h, BitVec.or_zero]

/-- A word of several masks shares no bit with `m` when none of them does. -/
theorem or_and_eq_zero {x y m : BitVec w} :
    (x ||| y) &&& m = 0#w ↔ x &&& m = 0#w ∧ y &&& m = 0#w := by
  rw [BitVec.and_or_distrib_right, BitVec.or_eq_zero_iff]

/-- A mask is part of any word it is or-ed into. -/
theorem and_or_absorb_left (x y : BitVec w) : x &&& (x ||| y) = x := by
  ext i hi
  simp only [BitVec.getElem_and, BitVec.getElem_or]
  cases x[i] <;> rfl

theorem and_or_absorb_right (x y : BitVec w) : x &&& (y ||| x) = x := by
  rw [BitVec.or_comm, and_or_absorb_left]

theorem and_eq_of_part {x y z : BitVec w} (h : x &&& y = x) : x &&& (y ||| z) = x := by
  rw [BitVec.and_or_distrib_left, h]
  ext i hi
  simp only [BitVec.getElem_and, BitVec.getElem_or]
  cases x[i] <;> cases z[i] <;> rfl

/-- A part of `y` has no bit outside `y`. -/
theorem and_not_of_part {x y : BitVec w} (h : x &&& y = x) : x &&& ~~~y = 0#w := by
  rw [← h, BitVec.and_assoc, BitVec.and_not_self]
  exact BitVec.and_zero

/-- Clearing the bits of `m`. -/
theorem clear_and_self (x m : BitVec w) : (x &&& ~~~m) &&& m = 0#w := by
  rw [BitVec.and_assoc, BitVec.not_and_self]
  exact BitVec.and_zero

theorem has_clear (x m : BitVec w) : has (x &&& ~~~m) m = false :=
  has_of_disjoint (clear_and_self x m)

theorem and_not_of_disjoint {x m : BitVec w} (h : x &&& m = 0#w) : x &&& ~~~m = x := by
  have hsplit : x = (x &&& m) ||| (x &&& ~~~m) := by
    rw [← BitVec.and_or_distrib_left, BitVec.or_not_self, BitVec.and_allOnes]
  rw [h, BitVec.zero_or] at hsplit
  exact hsplit.symm

/-- `x &= ~c` keeps the part of `x` under a mask that shares no bit with `c`. -/
theorem and_not_and_of_disjoint {x c m : BitVec w} (h : c &&& m = 0#w) :
    (x &&& ~~~c) &&& m = x &&& m := by
  rw [BitVec.and_assoc, BitVec.and_comm _ m, and_not_of_disjoint (BitVec.and_comm c m ▸ h)]

theorem has_and_not_of_disjoint {x c m : BitVec w} (h : has c m = false) :
    has (x &&& ~~~c) m = has x m :=
  has_congr (and_not_and_of_disjoint (has_eq_false_iff.mp h))

theorem has_and_not_of_part {x c m : BitVec w} (h : m &&& c = m) : has (x &&& ~~~c) m = false := by
  rw [has_eq_false_iff, BitVec.and_assoc, BitVec.and_comm _ m, and_not_of_part h]
  exact BitVec.and_zero

/-- The two halves of a bus address, put together again. -/
theorem append_setWidth (x : BitVec 64) :
    ((x >>> 32).setWidth 32 ++ x.setWidth 32 : BitVec 64) = x := by
  apply BitVec.eq_of_getLsbD_eq
  intro i hi
  rw [BitVec.getLsbD_append]
  by_cases h : i < 32
  · simp [h]
  · have h1 : i - 32 < 32 := by omega
    have h2 : 32 + (i - 32) = i := by omega
    simp [h, h1, h2]

end Lib.Mask
