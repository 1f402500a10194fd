import PhytiumSdk.Port.Signature

/-!
# What the conversions print

The text of `%d` and `%i` against the number they were given, that of `%#x` and
`%#o`, where the prefix may take digits away, and that of `%s` against its
string, with how far the string is read.
-/

namespace Phytium.Port

open Lib.Numeral

variable {δ : Type}

/-! ## Signed numbers -/

/-- A number is its magnitude with its sign, the smallest one included. -/
theorem magnitude_eq {w : ℕ} (v : BitVec w) :
    (if v.toInt < 0 then -(magnitude v : ℤ) else magnitude v) = v.toInt := by
  have hlt : v.toNat < 2 ^ w := v.isLt
  have hsub : (0 - v).toNat = (2 ^ w - v.toNat) % 2 ^ w := by simp
  have hint := BitVec.toInt_eq_toNat_cond v
  unfold magnitude
  by_cases hpos : 0 < v.toInt
  · have hneg : ¬ v.toInt < 0 := by omega
    rw [if_neg hneg, if_pos hpos]
    split at hint <;> omega
  · rw [if_neg hpos, hsub]
    by_cases hzero : v.toNat = 0
    · simp [hzero] at hint ⊢
      omega
    · rw [Nat.mod_eq_of_lt (by omega)]
      split at hint <;> split <;> omega

theorem magnitude_lt {w : ℕ} (v : BitVec w) : magnitude v < 2 ^ w := BitVec.isLt _

/-- A number of 64 bits has its decimal digits in the buffer. -/
theorem lt_pow_digitCount {value base : ℕ} (fl : Flags) (hbase : 1 < base)
    (hvalue : value < base ^ ntoaBufferSize) :
    value < base ^ ntoaDigitCount value base fl := by
  unfold ntoaDigitCount
  split
  · rename_i h
    have hzero : value = 0 := by simpa using (Bool.and_eq_true_iff.mp h).2
    simp [hzero]
  · have hdigits := Nat.lt_base_pow_length_digits (m := value) hbase
    have hle : (Nat.digits base value).length ≤ ntoaBufferSize :=
      (Nat.digits_length_le_iff hbase value).mpr hvalue
    exact hdigits.trans_le (Nat.pow_le_pow_right (by omega) (by omega))

theorem ntoaDigitCount_le_len (value : ℕ) (negative : Bool) (base prec width : ℕ) (fl : Flags) :
    ntoaDigitCount value base fl ≤ ntoaLen value negative base prec width fl := by
  unfold ntoaLen
  split <;> omega

theorem integerFlags_decimal {c : Char} (hc : c = 'i' ∨ c = 'd') (fl : Flags) :
    (integerFlags c fl).hash = false ∧ (integerFlags c fl).left = fl.left ∧
      (integerFlags c fl).precision = fl.precision ∧
      (integerFlags c fl).zeropad = (fl.zeropad && !fl.precision) := by
  have hbase : integerBase c = 10 := by rcases hc with rfl | rfl <;> rfl
  have hupper : c ≠ 'X' := by rcases hc with rfl | rfl <;> decide
  have hsigned : ¬ (c ≠ 'i' ∧ c ≠ 'd') := by tauto
  simp only [integerFlags, hbase, if_true, hupper, if_false, hsigned]
  cases hp : fl.precision <;> simp

/-- **`%d` read back.** The text is that of the number, except that a negative
one loses its sign when zeros fill the buffer: with a precision from 32 on, or
with zeros up to a width from 33 on. -/
theorem signed_reads_back_iff {w : ℕ} (hw : w ≤ 64) (v : BitVec w) (prec width : ℕ) (fl : Flags)
    {c : Char} (hc : c = 'i' ∨ c = 'd') :
    readInt 10 (ntoaText (magnitude v) (v.toInt < 0) 10 prec width (integerFlags c fl)) =
        some v.toInt ↔
      (v.toInt < 0 → fl.left = true ∨
        (prec < 32 ∧ (fl.zeropad = true → fl.precision = false → width ≤ 32))) := by
  obtain ⟨hhash, hleft, hprec, hzero⟩ := integerFlags_decimal hc fl
  have hvalue : magnitude v < 10 ^ 20 :=
    ((magnitude_lt v).trans_le (Nat.pow_le_pow_right (by norm_num) hw)).trans (by norm_num)
  have hcount : ntoaDigitCount (magnitude v) 10 (integerFlags c fl) ≤ 20 := by
    have := (Nat.digits_length_le_iff (b := 10) (k := 20) (by norm_num) (magnitude v)).mpr hvalue
    unfold ntoaDigitCount
    split <;> omega
  have hneg : v.toInt < 0 → magnitude v ≠ 0 := by
    intro h hmag
    have := magnitude_eq v
    rw [if_pos h, hmag] at this
    omega
  have hkept : ntoaKept (magnitude v) (v.toInt < 0) 10 prec width (integerFlags c fl) =
      ntoaLen (magnitude v) (v.toInt < 0) 10 prec width (integerFlags c fl) := by
    simp [ntoaKept, ntoaStripped, hhash]
  have hdigits : magnitude v <
      10 ^ ntoaLen (magnitude v) (v.toInt < 0) 10 prec width (integerFlags c fl) :=
    (lt_pow_digitCount (integerFlags c fl) (by norm_num)
      (hvalue.trans (by norm_num))).trans_le
      (Nat.pow_le_pow_right (by norm_num) (ntoaDigitCount_le_len _ _ _ _ _ _))
  have hfits : v.toInt < 0 → (SignFits (magnitude v) (v.toInt < 0) 10 prec width
      (integerFlags c fl) ↔ fl.left = true ∨
        (prec < 32 ∧ (fl.zeropad = true → fl.precision = false → width ≤ 32))) := by
    intro h
    have hsize : ntoaBufferSize = 32 := rfl
    rw [SignFits, hkept, ntoaPrefix, hhash]
    simp only [Bool.false_and, Bool.false_eq_true, if_false, List.length_nil, Nat.add_zero, ntoaLen,
      ntoaWidth, hleft, hzero, decide_eq_true h, Bool.true_or, Bool.and_true]
    cases fl.left with
    | true =>
        simp only [if_true, true_or, iff_true]
        omega
    | false =>
        cases fl.zeropad <;> cases fl.precision <;>
          simp only [Bool.not_false, Bool.not_true, Bool.and_true, Bool.and_false, Bool.true_and,
            Bool.false_eq_true, Bool.true_eq_false, if_true, if_false, false_or, forall_const,
            false_implies, implies_true, and_true, decide_eq_true_eq]
        · omega
        · omega
        · split <;> omega
        · omega
  have h := ntoa_reads_back_iff (magnitude v) (v.toInt < 0) 10 prec width (integerFlags c fl)
    (by norm_num) (by norm_num)
  simp only [decide_eq_true_eq] at h
  rw [magnitude_eq] at h
  rw [h, hkept]
  constructor
  · rintro ⟨-, -, hsign⟩ hv
    exact (hfits hv).mp (hsign hv (hneg hv))
  · intro hsign
    refine ⟨hdigits, ?_, fun hv _ => (hfits hv).mpr (hsign hv)⟩
    rintro ⟨hh, -⟩
    rw [hhash] at hh
    cases hh

/-- `%033d` of -7 fills its field and loses the sign. -/
theorem signed_reads_back_iff_wide :
    readInt 10 (ntoaText (magnitude (-7 : BitVec 32)) ((-7 : BitVec 32).toInt < 0) 10 0 33
      (integerFlags 'd' { zeropad := true })) ≠ some (-7) := by
  have h := signed_reads_back_iff (by decide : 32 ≤ 64) (-7) 0 33 { zeropad := true } (Or.inr rfl)
  exact h.not.mpr (by decide)

/-! ## The alternate form -/

theorem integerFlags_alternate {c : Char} (hc : c = 'x' ∨ c = 'X' ∨ c = 'o') {fl : Flags}
    (hhash : fl.hash = true) (hprec : fl.precision = false) :
    (integerFlags c fl).hash = true ∧ (integerFlags c fl).left = fl.left ∧
      (integerFlags c fl).precision = false ∧ (integerFlags c fl).zeropad = fl.zeropad ∧
      (integerFlags c fl).plus = false ∧ (integerFlags c fl).space = false := by
  have hbase : integerBase c ≠ 10 := by rcases hc with rfl | rfl | rfl <;> decide
  have hunsigned : c ≠ 'i' ∧ c ≠ 'd' := by rcases hc with rfl | rfl | rfl <;> decide
  simp only [integerFlags, hbase, if_false, hunsigned.1, hunsigned.2, ne_eq, not_false_eq_true,
    and_self, if_true]
  split_ifs <;> simp_all

/-- **`%#x` and `%#o` read back.** Without a precision the prefix is written over
what the field holds as soon as that fills the width, so the text is that of the
number except when the digits alone fill it, or, in base 16, when they fill it
with one zero. -/
theorem alternate_reads_back_iff {c : Char} (hc : c = 'x' ∨ c = 'X' ∨ c = 'o') {fl : Flags}
    (hhash : fl.hash = true) (hprec : fl.precision = false) {value : ℕ} (hvalue : value < 2 ^ 64)
    (width : ℕ) :
    readInt (integerBase c)
        (ntoaText value false (integerBase c) 0 width (integerFlags c fl)) = some (value : ℤ) ↔
      value = 0 ∨
        (width ≠ (Nat.digits (integerBase c) value).length ∧
          (c ≠ 'o' → fl.zeropad = true → fl.left = false →
            width ≠ (Nat.digits (integerBase c) value).length + 1)) := by
  obtain ⟨hh, hl, hp, hz, hplus, hspace⟩ := integerFlags_alternate hc hhash hprec
  have hbase : 1 < integerBase c := integerBase_gt c
  have hbase' : integerBase c ≤ 16 := by rcases hc with rfl | rfl | rfl <;> decide
  have hcount : (Nat.digits (integerBase c) value).length ≤ 22 := by
    rw [Nat.digits_length_le_iff hbase]
    refine hvalue.trans ?_
    rcases hc with rfl | rfl | rfl <;> decide
  have hwidth : ntoaWidth false width (integerFlags c fl) = width := by
    simp [ntoaWidth, hplus, hspace]
  have h := ntoa_reads_back_iff value false (integerBase c) 0 width (integerFlags c fl) hbase hbase'
  simp only [Bool.false_eq_true, if_false, false_implies, and_true] at h
  rw [h]
  by_cases hvalue0 : value = 0
  · subst hvalue0
    simp [PrefixBroken, Nat.pow_pos (Nat.zero_lt_of_lt hbase)]
  · have hpos : 0 < (Nat.digits (integerBase c) value).length := by
      rw [List.length_pos_iff]
      exact Nat.digits_ne_nil_iff_ne_zero.mpr hvalue0
    generalize hnd : (Nat.digits (integerBase c) value).length = nd at hcount hpos ⊢
    have hsize : ntoaBufferSize = 32 := rfl
    have hlen : ntoaLen value false (integerBase c) 0 width (integerFlags c fl) =
        if fl.left then nd else max nd (if fl.zeropad then min width 32 else 0) := by
      have hdigits : ntoaDigitCount value (integerBase c) (integerFlags c fl) = nd := by
        simp only [ntoaDigitCount, hp, Bool.false_and, Bool.false_eq_true, if_false, hnd]
        omega
      simp only [ntoaLen, hdigits, hl, hz, hwidth, Nat.zero_min, hsize, Nat.zero_max]
    have hkept : ntoaKept value false (integerBase c) 0 width (integerFlags c fl) =
        ntoaLen value false (integerBase c) 0 width (integerFlags c fl) -
          if ntoaLen value false (integerBase c) 0 width (integerFlags c fl) = width then
            if width - 1 ≠ 0 ∧ integerBase c = 16 then 2 else 1
          else 0 := by
      have hlen0 : ntoaLen value false (integerBase c) 0 width (integerFlags c fl) ≠ 0 := by
        rw [hlen]
        split_ifs <;> omega
      have htake : (true && decide (value ≠ 0)) = true := by simp [hvalue0]
      simp only [ntoaKept, ntoaStripped, strippedCount, hh, hp, hwidth, htake, if_true]
      by_cases hfull : ntoaLen value false (integerBase c) 0 width (integerFlags c fl) = width
      · simp [hfull, hfull ▸ hlen0]
      · simp [hfull, hlen0]
    have hb : integerBase c = 16 ∧ c ≠ 'o' ∨ integerBase c = 8 ∧ c = 'o' := by
      rcases hc with rfl | rfl | rfl
      · exact Or.inl ⟨rfl, by decide⟩
      · exact Or.inl ⟨rfl, by decide⟩
      · exact Or.inr ⟨rfl, rfl⟩
    rw [← Nat.digits_length_le_iff hbase, hnd]
    unfold PrefixBroken
    generalize ntoaKept value false (integerBase c) 0 width (integerFlags c fl) = kept at hkept ⊢
    generalize ntoaLen value false (integerBase c) 0 width (integerFlags c fl) = len at hlen hkept
    simp only [hh, hvalue0, ne_eq, not_false_eq_true, true_and, false_or]
    -- the digits fill the field by themselves, or zeros do
    rcases hb with ⟨hb, hco⟩ | ⟨hb, hco⟩
    · simp only [hb, hco, true_or, and_true, true_and, not_false_eq_true, forall_const] at hkept ⊢
      cases hleft : fl.left <;> cases hzero : fl.zeropad <;>
        simp only [hleft, hzero, Bool.false_eq_true, Bool.true_eq_false, if_true, if_false,
          false_implies, implies_true, and_true, forall_const] at hlen ⊢ <;>
        split_ifs at hkept <;> omega
    · subst hco
      simp only [hb, not_true_eq_false, false_implies, and_true, Nat.reduceEqDiff, and_false, or_self,
        false_and, not_false_eq_true, if_false] at hkept ⊢
      cases hleft : fl.left <;> cases hzero : fl.zeropad <;>
        simp only [hleft, hzero, Bool.false_eq_true, if_true, if_false] at hlen <;>
        split_ifs at hkept <;> omega

/-- `%#6x` of five digits is read back. -/
theorem alternate_reads_back_iff_six :
    readInt 16 (ntoaText 0x12345 false 16 0 6 (integerFlags 'x' { hash := true })) =
      some 0x12345 :=
  (alternate_reads_back_iff (Or.inl rfl) rfl rfl (by decide) 6).mpr (Or.inr (by decide))

/-! ## Strings -/

/-- The string at the beginning of an array. -/
def cString (p : List Char) : List Char := p.takeWhile (· ≠ '\x00')

theorem cString_cons {c : Char} (hnul : c ≠ '\x00') (p : List Char) :
    cString (c :: p) = c :: cString p := by
  simp [cString, hnul]

theorem cString_length_le (p : List Char) : (cString p).length ≤ p.length :=
  (List.takeWhile_prefix _).length_le

/-- The characters `%s` prints of what its argument points to. -/
def printed (hasPrecision : Bool) (precision : ℕ) (p : List Char) : List Char :=
  if hasPrecision then (cString p).take precision else cString p

theorem strnlenS_value {p : List Char} {maxsize len : ℕ} (h : strnlenS p maxsize = some len) :
    len = min maxsize (cString p).length := by
  induction p generalizing maxsize len with
  | nil => cases h
  | cons c p ih =>
      unfold strnlenS at h
      by_cases hnul : c = '\x00'
      · rw [if_pos hnul] at h
        cases h
        simp [cString, hnul]
      · rw [if_neg hnul] at h
        rw [cString_cons hnul, List.length_cons]
        cases maxsize with
        | zero =>
            cases h
            simp
        | succ maxsize =>
            obtain ⟨len', hlen', rfl⟩ := Option.map_eq_some_iff.mp h
            have := ih hlen'
            omega

theorem strChars_value {hasPrecision : Bool} {p text : List Char} {precision : ℕ}
    (h : strChars hasPrecision p precision = some text) :
    text = printed hasPrecision precision p := by
  induction p generalizing precision text with
  | nil => cases h
  | cons c p ih =>
      unfold strChars at h
      unfold printed at ih ⊢
      by_cases hnul : c = '\x00'
      · rw [if_pos hnul] at h
        cases h
        simp [cString, hnul]
      · rw [if_neg hnul] at h
        rw [cString_cons hnul]
        cases hasPrecision with
        | false =>
            obtain ⟨t, ht, rfl⟩ := Option.map_eq_some_iff.mp h
            rw [ih ht]
            rfl
        | true =>
            cases precision with
            | zero =>
                cases h
                rfl
            | succ precision =>
                obtain ⟨t, ht, rfl⟩ := Option.map_eq_some_iff.mp h
                rw [ih ht]
                rfl

/-- **`%s`.** It prints the string, or as much of it as the precision allows, in
its field. It reads one character more than the precision allows, and with a
precision of 0 all of the string: these reads stay within what the argument
points to just when there is a terminator there, or more characters than the
precision, which is not 0. -/
theorem string_text (ft : FloatText δ) {fl : Flags} (width : ℕ) {precision : ℕ} {p : List Char}
    (addr : BitVec 64) (va : VaList δ) (hp : p.length < 2 ^ 32)
    (hflag : fl.precision = false → precision = 0) :
    specText ft 's' fl width precision (.ptr addr p :: va) =
      if '\x00' ∈ p ∨ (precision ≠ 0 ∧ precision < p.length) then
        some (padText fl.left width (printed fl.precision precision p).length
          (printed fl.precision precision p), va)
      else none := by
  have hspec : specText ft 's' fl width precision (.ptr addr p :: va) =
      (stringLen fl precision p).bind fun len =>
        (strChars fl.precision p precision).map fun text =>
          (padText fl.left width len text, va) := rfl
  have hchars : (strChars fl.precision p precision).isSome ↔
      '\x00' ∈ p ∨ (fl.precision = true ∧ precision < p.length) := strChars_isSome_iff
  have hnlen : (strnlenS p (if precision ≠ 0 then precision else 2 ^ 64 - 1)).isSome ↔
      '\x00' ∈ p ∨ (if precision ≠ 0 then precision else 2 ^ 64 - 1) < p.length :=
    strnlenS_isSome_iff
  have hshort := cString_length_le p
  rw [hspec]
  by_cases hreads : '\x00' ∈ p ∨ (precision ≠ 0 ∧ precision < p.length)
  · rw [if_pos hreads]
    obtain ⟨len, hlen⟩ : ∃ len,
        strnlenS p (if precision ≠ 0 then precision else 2 ^ 64 - 1) = some len := by
      rw [← Option.isSome_iff_exists, hnlen]
      rcases hreads with h | ⟨h0, h⟩
      · exact Or.inl h
      · rw [if_pos h0]
        exact Or.inr h
    obtain ⟨text, htext⟩ : ∃ text, strChars fl.precision p precision = some text := by
      rw [← Option.isSome_iff_exists, hchars]
      rcases hreads with h | ⟨h0, h⟩
      · exact Or.inl h
      · refine Or.inr ⟨?_, h⟩
        cases hfl : fl.precision with
        | true => rfl
        | false => exact absurd (hflag hfl) h0
    have hvalue := strnlenS_value hlen
    rw [stringLen, hlen, htext, strChars_value htext]
    simp only [Option.map_some, Option.bind_some, Option.some.injEq, Prod.mk.injEq, and_true]
    congr 1
    have hfit : len % 2 ^ 32 = len := Nat.mod_eq_of_lt (by omega)
    rw [hfit, printed]
    cases hfl : fl.precision with
    | true =>
        simp only [if_true, List.length_take]
        split_ifs at hvalue ⊢ <;> omega
    | false =>
        simp only [Bool.false_eq_true, if_false]
        rw [hflag hfl] at hvalue
        simp only [ne_eq, not_true_eq_false, if_false] at hvalue
        omega
  · rw [if_neg hreads]
    push Not at hreads
    have hnone : strnlenS p (if precision ≠ 0 then precision else 2 ^ 64 - 1) = none := by
      rw [← Option.not_isSome_iff_eq_none, hnlen]
      rintro (h | h)
      · exact hreads.1 h
      · split_ifs at h with h0
        · have := hreads.2 h0
          omega
        · omega
    rw [stringLen, hnone]
    rfl

/-- `%-5.2s` of three characters without a terminator. -/
theorem string_text_unterminated :
    specText (δ := Unit) ⟨fun _ _ _ _ => [], fun _ _ _ _ => []⟩ 's'
        { left := true, precision := true } 5 2 [.ptr 64 ['a', 'b', 'c']] =
      some ("ab   ".toList, []) :=
  string_text _ 5 64 [] (by decide) (fun h => absurd h (by decide))

end Phytium.Port
