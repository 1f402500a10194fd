import PhytiumSdk.Lib.Mask

/-!
# Fields of a register word

A driver builds a word with `(x << p) | (y << q) | m`; the device takes its
fields apart. A field is read back when its value fits and the other parts stay
out of it.
-/

namespace Lib.Field

variable {w : ℕ}

/-- A value fits in its field, and is read back from it. -/
theorem extract_shiftLeft {p n : ℕ} (y : BitVec w) (hp : p + n ≤ w) :
    (y <<< p).extractLsb' p n = y.setWidth n := by
  ext i hi
  simp only [BitVec.getElem_extractLsb', BitVec.getLsbD_shiftLeft, BitVec.getElem_setWidth]
  have h1 : p + i < w := by omega
  have h2 : ¬ p + i < p := by omega
  simp [h1, h2]

/-- A field below a shifted value has none of it. -/
theorem extract_shiftLeft_above {p n q : ℕ} (y : BitVec w) (h : p + n ≤ q) :
    (y <<< q).extractLsb' p n = 0#n := by
  ext i hi
  simp only [BitVec.getElem_extractLsb', BitVec.getLsbD_shiftLeft]
  have h1 : p + i < q := by omega
  simp [h1]

/-- A value has no bit above those it fits in. -/
theorem getLsbD_of_toNat_lt {n i : ℕ} {y : BitVec w} (hy : y.toNat < 2 ^ n) (h : n ≤ i) :
    y.getLsbD i = false := by
  rw [← BitVec.testBit_toNat]
  exact Nat.testBit_lt_two_pow (lt_of_lt_of_le hy (Nat.pow_le_pow_right (by decide) h))

/-- A field above a shifted value that fits in its own has none of it. -/
theorem extract_shiftLeft_below {p n q m : ℕ} {y : BitVec w} (hy : y.toNat < 2 ^ m)
    (h : q + m ≤ p) : (y <<< q).extractLsb' p n = 0#n := by
  ext i hi
  simp only [BitVec.getElem_extractLsb', BitVec.getLsbD_shiftLeft]
  have hbit : y.getLsbD (p + i - q) = false := getLsbD_of_toNat_lt hy (by omega)
  simp [hbit]

/-- A value in its field meets no mask that is clear there. -/
theorem shiftLeft_and_eq_zero {p n : ℕ} {y m : BitVec w} (hy : y.toNat < 2 ^ n)
    (h : m.extractLsb' p n = 0#n) : (y <<< p) &&& m = 0#w := by
  apply BitVec.eq_of_getLsbD_eq
  intro i hi
  simp only [BitVec.getLsbD_and, BitVec.getLsbD_zero, BitVec.getLsbD_shiftLeft]
  by_cases hip : i < p
  · simp [hip]
  · by_cases hin : i < p + n
    · have hbit := congrArg (fun x => BitVec.getLsbD x (i - p)) h
      have h1 : i - p < n := by omega
      have h2 : p + (i - p) = i := by omega
      simp only [BitVec.getLsbD_extractLsb', h1, h2, decide_true, Bool.true_and,
        BitVec.getLsbD_zero] at hbit
      rw [hbit, Bool.and_false]
    · have hbit : y.getLsbD (i - p) = false := getLsbD_of_toNat_lt hy (by omega)
      rw [hbit, Bool.and_false, Bool.false_and]

end Lib.Field
