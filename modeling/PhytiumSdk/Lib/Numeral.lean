import Mathlib.Data.Nat.Digits.Lemmas
import Mathlib.Data.List.DropRight

/-!
# Numerals as text

Reading a number back from the text it was written as: blanks around it, a sign,
the prefix of its base, and digits with the most significant first. A writer
works from the other end, so what it needs is stated of digits in reverse.
-/

namespace Lib.Numeral

/-! ## Digits -/

/-- The character of a digit. -/
def digitChar (upper : Bool) (d : ℕ) : Char :=
  if d < 10 then Char.ofNat ('0'.toNat + d)
  else Char.ofNat ((if upper then 'A'.toNat else 'a'.toNat) + d - 10)

/-- The digit of a character, of either case. -/
def digitVal (c : Char) : Option ℕ :=
  if '0' ≤ c ∧ c ≤ '9' then some (c.toNat - '0'.toNat)
  else if 'a' ≤ c ∧ c ≤ 'f' then some (c.toNat - 'a'.toNat + 10)
  else if 'A' ≤ c ∧ c ≤ 'F' then some (c.toNat - 'A'.toNat + 10)
  else none

theorem digitVal_digitChar (upper : Bool) {d : ℕ} (h : d < 16) :
    digitVal (digitChar upper d) = some d := by
  revert d upper
  decide

/-- The digit of a character in base `b`. -/
def digitIn (b : ℕ) (c : Char) : Option ℕ := (digitVal c).filter (· < b)

theorem digitIn_digitChar {b : ℕ} (hb : b ≤ 16) (upper : Bool) {d : ℕ} (h : d < b) :
    digitIn b (digitChar upper d) = some d := by
  rw [digitIn, digitVal_digitChar upper (by omega)]
  simp [h]

/-- What is no digit of any base: the blank and the signs. -/
theorem digitChar_ne (upper : Bool) {d : ℕ} (h : d < 16) :
    digitChar upper d ≠ ' ' ∧ digitChar upper d ≠ '-' ∧ digitChar upper d ≠ '+' := by
  revert d upper
  decide

/-! ## Reading -/

/-- The number of a text of digits, the most significant first. -/
def readDigits (b : ℕ) (text : List Char) : Option ℕ :=
  (text.mapM (digitIn b)).map fun ds => Nat.ofDigits b ds.reverse

/-- A prefix letter of the base. -/
def IsPrefixOf (b : ℕ) (c : Char) : Prop := (b = 16 ∧ (c = 'x' ∨ c = 'X')) ∨ (b = 2 ∧ c = 'b')

instance (b : ℕ) (c : Char) : Decidable (IsPrefixOf b c) := by
  unfold IsPrefixOf
  infer_instance

/-- A number with the prefix of its base or without. -/
def readNat (b : ℕ) : List Char → Option ℕ
  | '0' :: c :: text => if IsPrefixOf b c then readDigits b text else readDigits b ('0' :: c :: text)
  | text => readDigits b text

/-- The text without the blanks around it. -/
def trim (text : List Char) : List Char := (text.dropWhile (· = ' ')).rdropWhile (· = ' ')

/-- A number with its sign. -/
def readSigned (b : ℕ) : List Char → Option ℤ
  | '-' :: text => (readNat b text).map fun n => -(n : ℤ)
  | '+' :: text => (readNat b text).map (↑)
  | text => (readNat b text).map (↑)

/-- A number as it stands in a field. -/
def readInt (b : ℕ) (text : List Char) : Option ℤ := readSigned b (trim text)

/-! ## Digits read back -/

section Digits

variable {b : ℕ} (hb : b ≤ 16) (upper : Bool)
include hb

theorem mapM_digitIn {ds : List ℕ} (hds : ∀ d ∈ ds, d < b) :
    (ds.map (digitChar upper)).mapM (digitIn b) = some ds := by
  induction ds with
  | nil => rfl
  | cons d ds ih =>
      have hd : d < b := hds d (by simp)
      have ih := ih fun d' hd' => hds d' (by simp [hd'])
      simp [List.mapM_cons, digitIn_digitChar hb upper hd, ih]

/-- Digits written from the least significant on read back as their number. -/
theorem readDigits_map_reverse {ds : List ℕ} (hds : ∀ d ∈ ds, d < b) :
    readDigits b (ds.map (digitChar upper)).reverse = some (Nat.ofDigits b ds) := by
  have hrev : ∀ d ∈ ds.reverse, d < b := fun d hd => hds d (by simpa using hd)
  have h := mapM_digitIn hb upper hrev
  rw [List.map_reverse] at h
  simp [readDigits, h]

theorem not_isPrefixOf_digitChar {d : ℕ} (hd : d < b) : ¬ IsPrefixOf b (digitChar upper d) := by
  have hlarge : ∀ upper d, d < 16 → digitChar upper d ≠ 'x' ∧ digitChar upper d ≠ 'X' := by decide
  have hsmall : ∀ upper d, d < 2 → digitChar upper d ≠ 'b' := by decide
  rintro (⟨rfl, hx | hx⟩ | ⟨rfl, hx⟩)
  · exact (hlarge upper d hd).1 hx
  · exact (hlarge upper d hd).2 hx
  · exact hsmall upper d hd hx

end Digits

/-! ## Prefixes and signs -/

/-- Without a prefix letter the text is only digits. -/
theorem readNat_unprefixed {b : ℕ} {text : List Char} (h : ∀ c ∈ text, ¬ IsPrefixOf b c) :
    readNat b text = readDigits b text := by
  unfold readNat
  split
  · exact if_neg (h _ (by simp))
  · rfl

theorem readNat_prefixed {b : ℕ} {c : Char} (h : IsPrefixOf b c) (text : List Char) :
    readNat b ('0' :: c :: text) = readDigits b text := if_pos h

/-- A prefix letter without its zero is no number. -/
theorem readNat_half_prefixed {b : ℕ} {c : Char} (h : IsPrefixOf b c) (text : List Char) :
    readNat b (c :: text) = none := by
  have hnone : digitIn b c = none := by
    rcases h with ⟨rfl, rfl | rfl⟩ | ⟨rfl, rfl⟩ <;> decide
  have hzero : c ≠ '0' := by
    rcases h with ⟨rfl, rfl | rfl⟩ | ⟨rfl, rfl⟩ <;> decide
  unfold readNat
  split
  · rename_i heq
    exact absurd (List.cons.inj heq).1 hzero
  · simp [readDigits, List.mapM_cons, hnone]

theorem readSigned_of_unsigned {b : ℕ} {text : List Char}
    (h : ∀ c ∈ text, c ≠ '-' ∧ c ≠ '+') :
    readSigned b text = (readNat b text).map (↑) := by
  unfold readSigned
  split
  · exact absurd rfl (h _ (by simp)).1
  · exact absurd rfl (h _ (by simp)).2
  · rfl

/-! ## Blanks -/

theorem dropWhile_pad {rest : List Char} (h : ∀ c ∈ rest.head?, c ≠ ' ') (m : ℕ) :
    (List.replicate m ' ' ++ rest).dropWhile (· = ' ') = rest := by
  rw [List.dropWhile_append_of_pos (by simp)]
  cases rest with
  | nil => rfl
  | cons c rest =>
      have hc : c ≠ ' ' := h c (by simp)
      simp [hc]

/-- Blanks around a text that has none are all that `trim` takes away. -/
theorem trim_pad {core : List Char} (h : ∀ c ∈ core, c ≠ ' ') (m n : ℕ) :
    trim (List.replicate m ' ' ++ core ++ List.replicate n ' ') = core := by
  rcases List.eq_nil_or_concat core with rfl | ⟨core, c, rfl⟩
  · have hall : List.replicate m ' ' ++ [] ++ List.replicate n ' ' = List.replicate (m + n) ' ' := by
      rw [List.append_nil, List.replicate_append_replicate]
    rw [trim, hall, List.dropWhile_replicate]
    simp
  · have hleft : (List.replicate m ' ' ++ (core.concat c ++ List.replicate n ' ')).dropWhile (· = ' ')
        = core.concat c ++ List.replicate n ' ' := by
      apply dropWhile_pad
      intro d hd
      apply h
      rw [List.head?_append_of_ne_nil _ (by simp)] at hd
      exact List.mem_of_mem_head? hd
    have hright : (List.replicate n ' ' ++ (core.concat c).reverse).dropWhile (· = ' ')
        = (core.concat c).reverse := by
      apply dropWhile_pad
      intro d hd
      exact h d (List.mem_reverse.mp (List.mem_of_mem_head? hd))
    rw [trim, List.append_assoc, hleft, List.rdropWhile, List.reverse_append,
      List.reverse_replicate, hright, List.reverse_reverse]

/-! ## Numbers in a field -/

section Field

variable {b : ℕ} {body : List Char} (h : ∀ c ∈ body, c ≠ ' ' ∧ c ≠ '-' ∧ c ≠ '+') (m n : ℕ)
include h

theorem readInt_pad :
    readInt b (List.replicate m ' ' ++ body ++ List.replicate n ' ') =
      (readNat b body).map (↑) := by
  rw [readInt, trim_pad fun c hc => (h c hc).1]
  exact readSigned_of_unsigned fun c hc => (h c hc).2

theorem readInt_pad_minus :
    readInt b (List.replicate m ' ' ++ '-' :: body ++ List.replicate n ' ') =
      (readNat b body).map fun k => -(k : ℤ) := by
  have hblank : ∀ c ∈ '-' :: body, c ≠ ' ' := by
    rintro c (_ | ⟨_, hc⟩)
    · decide
    · exact (h c hc).1
  rw [readInt, trim_pad hblank]
  rfl

theorem readInt_pad_plus :
    readInt b (List.replicate m ' ' ++ '+' :: body ++ List.replicate n ' ') =
      (readNat b body).map (↑) := by
  have hblank : ∀ c ∈ '+' :: body, c ≠ ' ' := by
    rintro c (_ | ⟨_, hc⟩)
    · decide
    · exact (h c hc).1
  rw [readInt, trim_pad hblank]
  rfl

end Field

end Lib.Numeral
