import PhytiumSdk.Port.Format

/-!
# What a format means

A format is taken apart first, into literal characters and directives whose
stars are still open, and each directive is then given its text from the
arguments. The interpreter, which does both at once, gives out the text of the
pieces in their order and nothing else.
-/

namespace Phytium.Port

open Lib.Munch

universe u
variable {σ : Type u} {δ : Type}

/-! ## The pieces of a format -/

/-- A directive as it stands in the format. -/
structure Conv where
  flags : Flags
  width : Field
  precision : Option Field
  length : Length
  spec : Char
  deriving DecidableEq, Repr

/-- A piece of a format. -/
inductive Piece where
  | lit (c : Char)
  | conv (k : Conv)
  deriving DecidableEq, Repr

/-- The directive a text begins with, and what is behind it. -/
def scanConv (f : List Char) : Option (Conv × List Char) :=
  (evalFlags f {}).bind fun (fl, f) =>
  (evalField f).bind fun (width, f) =>
  (precisionField f).bind fun (precision, f) =>
  (evalLength f).bind fun (length, f) =>
  match f with
  | [] => none
  | c :: f => some (⟨fl, width, precision, length, c⟩, f)

/-- The pieces of a format up to its terminator. -/
def scan : ℕ → List Char → Option (List Piece)
  | 0, _ => none
  | _ + 1, [] => none
  | fuel + 1, c :: f =>
      if c = '\x00' then some []
      else if c ≠ '%' then (scan fuel f).map (.lit c :: ·)
      else (scanConv f).bind fun (k, f) => (scan fuel f).map (.conv k :: ·)

/-! ## Their text -/

/-- Blanks up to the width, before the text or behind it. -/
def padText (left : Bool) (width len : ℕ) (text : List Char) : List Char :=
  if left then text ++ List.replicate (width - len) ' '
  else List.replicate (width - len) ' ' ++ text

/-- How long `%s` takes its string to be. -/
def stringLen (fl : Flags) (precision : ℕ) (object : List Char) : Option ℕ :=
  (strnlenS object (if precision ≠ 0 then precision else 2 ^ 64 - 1)).map fun len =>
    if fl.precision then (if len % 2 ^ 32 < precision then len % 2 ^ 32 else precision)
    else len % 2 ^ 32

/-- The text of a specifier. -/
def specText (ft : FloatText δ) (c : Char) (fl : Flags) (width precision : ℕ) (va : VaList δ) :
    Option (List Char × VaList δ) :=
  match specifierOf c with
  | .integer =>
      (integerArg c (integerFlags c fl) va).map fun (value, negative, va) =>
        (ntoaText value negative (integerBase c) precision width (integerFlags c fl), va)
  | .fixed =>
      (vaDouble va).map fun (d, va) =>
        (ft.ftoa d precision width (if c = 'F' then { fl with uppercase := true } else fl), va)
  | .exponent =>
      (vaDouble va).map fun (d, va) => (ft.etoa d precision width (exponentFlags c fl), va)
  | .char => (vaInt va).map fun (v, va) => (padText fl.left width 1 [charOfInt v], va)
  | .string =>
      (vaPtr va).bind fun ((_, p), va) =>
        (stringLen fl precision p).bind fun len =>
          (strChars fl.precision p precision).map fun text => (padText fl.left width len text, va)
  | .pointer =>
      (vaPtr va).map fun ((addr, _), va) =>
        (ntoaText addr.toNat false 16 precision 16
          { fl with zeropad := true, uppercase := true }, va)
  | .other => some ([c], va)

/-- The text of a directive. -/
def convText (ft : FloatText δ) (k : Conv) (va : VaList δ) : Option (List Char × VaList δ) :=
  (evalWidth k.flags va k.width).bind fun (width, fl, va) =>
  (evalPrecision fl va k.precision).bind fun (precision, fl, va) =>
    specText ft k.spec (k.length.flags fl) width precision va

/-- The text of a format. -/
def formatText (ft : FloatText δ) : List Piece → VaList δ → Option (List Char × VaList δ)
  | [], va => some ([], va)
  | .lit c :: ps, va => (formatText ft ps va).map fun (text, va) => (c :: text, va)
  | .conv k :: ps, va =>
      (convText ft k va).bind fun (text, va) =>
        (formatText ft ps va).map fun (rest, va) => (text ++ rest, va)

/-! ## Widths stay within `unsigned int` -/

theorem atoi_lt {f f' : List Char} {i n : ℕ} (hi : i < 2 ^ 32) (h : atoi f i = some (n, f')) :
    n < 2 ^ 32 := by
  unfold atoi at h
  induction f generalizing i with
  | nil => cases h
  | cons c f ih =>
      rw [munch] at h
      unfold atoiStep at h
      cases hc : isDigit c with
      | true =>
          rw [hc, if_pos rfl] at h
          exact ih (Nat.mod_lt _ (by norm_num)) h
      | false =>
          rw [hc, if_neg Bool.false_ne_true] at h
          cases h
          exact hi

/-- The number in a field is an `unsigned int`. -/
def Field.Fits : Field → Prop
  | .num n => n < 2 ^ 32
  | .star => True

theorem evalField_fits {f f' : List Char} {field : Field} (h : evalField f = some (field, f')) :
    field.Fits := by
  cases f with
  | nil => simp [evalField] at h
  | cons c f =>
      rw [evalField] at h
      split_ifs at h
      · rw [Option.map_eq_some_iff] at h
        obtain ⟨⟨n, f''⟩, hn, heq⟩ := h
        cases heq
        exact atoi_lt (by norm_num) hn
      · cases h
        trivial
      · cases h
        show (0 : ℕ) < 2 ^ 32
        norm_num

theorem evalWidth_lt {fl fl' : Flags} {va va' : VaList δ} {field : Field} {width : ℕ}
    (hfits : field.Fits) (h : evalWidth fl va field = some (width, fl', va')) :
    width < 2 ^ 32 := by
  cases field with
  | num n =>
      cases h
      exact hfits
  | star =>
      rw [evalWidth, Option.map_eq_some_iff] at h
      obtain ⟨⟨w, va''⟩, -, heq⟩ := h
      dsimp only at heq
      split_ifs at heq <;> cases heq
      · exact (-w).isLt
      · exact w.isLt

/-! ## The interpreter gives out the text -/

section Refines

variable (ft : FloatText δ) (out : OutFct σ) (maxlen : BitVec 64)

theorem integerBase_gt (c : Char) : 1 < integerBase c := by
  unfold integerBase
  split_ifs <;> norm_num

theorem evalSpecifier_eq {c : Char} {fl : Flags} {width precision : ℕ} {va : VaList δ} {o : Out σ}
    (hwidth : width < 2 ^ 32) :
    evalSpecifier ft out maxlen c fl width precision va o =
      (specText ft c fl width precision va).map fun (text, va) => (va, puts out maxlen o text) := by
  unfold evalSpecifier specText
  cases specifierOf c with
  | integer =>
      dsimp only
      rcases integerArg c (integerFlags c fl) va with _ | ⟨value, negative, va⟩
      · rfl
      · exact congrArg (fun o => some (va, o)) (ntoaLong_eq value negative (integerBase c) precision
          width (integerFlags c fl) out maxlen o hwidth (integerBase_gt c))
  | fixed => rcases vaDouble va with _ | ⟨d, va⟩ <;> rfl
  | exponent => rcases vaDouble va with _ | ⟨d, va⟩ <;> rfl
  | char =>
      dsimp only
      rcases vaInt va with _ | ⟨v, va⟩
      · rfl
      · cases fl.left <;> simp [padText, puts_append, puts_cons]
  | string =>
      dsimp only
      rcases vaPtr va with _ | ⟨⟨_, p⟩, va⟩
      · rfl
      · simp only [Option.bind_some, stringLen]
        rcases strnlenS p (if precision ≠ 0 then precision else 2 ^ 64 - 1) with _ | len
        · rfl
        · rcases strChars fl.precision p precision with _ | text
          · rfl
          · cases fl.left <;> simp [padText, puts_append]
  | pointer =>
      dsimp only
      rcases vaPtr va with _ | ⟨⟨addr, _⟩, va⟩
      · rfl
      · exact congrArg (fun o => some (va, o)) (ntoaLong_eq addr.toNat false 16 precision 16
          { fl with zeropad := true, uppercase := true } out maxlen o (by norm_num) (by norm_num))
  | other => rfl

/-- A directive, and the same taken apart first. -/
theorem directive_eq (f : List Char) (va : VaList δ) (o : Out σ) :
    directive ft out maxlen f va o =
      (scanConv f).bind fun (k, f) =>
        (convText ft k va).map fun (text, va) => (f, va, puts out maxlen o text) := by
  unfold directive scanConv convText
  cases hflags : evalFlags f {} with
  | none => rfl
  | some p =>
      obtain ⟨fl, f⟩ := p
      simp only [Option.bind_some]
      cases hwidth : evalField f with
      | none => rfl
      | some p =>
          obtain ⟨width, f⟩ := p
          have hfits := evalField_fits hwidth
          simp only [Option.bind_some]
          cases precisionField f with
          | none => cases evalWidth fl va width <;> rfl
          | some p =>
              obtain ⟨precision, f⟩ := p
              simp only [Option.bind_some]
              rcases hw : evalWidth fl va width with _ | ⟨w, fl', va'⟩
              · rcases evalLength f with _ | ⟨length, _ | ⟨c, f⟩⟩ <;> simp [hw]
              · simp only [Option.bind_some]
                rcases hp : evalPrecision fl' va' precision with _ | ⟨prec, fl'', va''⟩
                · rcases evalLength f with _ | ⟨length, _ | ⟨c, f⟩⟩ <;> simp [hw, hp]
                · rcases evalLength f with _ | ⟨length, _ | ⟨c, f⟩⟩
                  · rfl
                  · rfl
                  · simp [hw, hp, evalSpecifier_eq ft out maxlen (evalWidth_lt hfits hw),
                      Function.comp_def]

/-- **The interpreter against the pieces.** -/
theorem formatLoop_eq (fuel : ℕ) (f : List Char) (va : VaList δ) (o : Out σ) :
    formatLoop ft out maxlen fuel f va o =
      (scan fuel f).bind fun ps =>
        (formatText ft ps va).map fun (text, va) => (va, puts out maxlen o text) := by
  induction fuel generalizing f va o with
  | zero => rfl
  | succ fuel ih =>
      cases f with
      | nil => rfl
      | cons c f =>
          rw [formatLoop, scan]
          by_cases hnul : c = '\x00'
          · simp [hnul, formatText]
          · rw [if_neg hnul, if_neg hnul]
            by_cases hpercent : c = '%'
            · rw [if_neg (not_not.mpr hpercent), if_neg (not_not.mpr hpercent), directive_eq]
              rcases scanConv f with _ | ⟨k, f⟩
              · rfl
              · simp only [Option.bind_some]
                rcases hk : convText ft k va with _ | ⟨text, va'⟩
                · rcases scan fuel f with _ | ps <;> simp [formatText, hk]
                · simp only [Option.map_some, Option.bind_some, ih]
                  rcases scan fuel f with _ | ps
                  · rfl
                  · rcases hps : formatText ft ps va' with _ | ⟨rest, va''⟩ <;>
                      simp [formatText, hk, hps, puts_append]
            · rw [if_pos hpercent, if_pos hpercent, ih]
              rcases scan fuel f with _ | ps
              · rfl
              · rcases hps : formatText ft ps va with _ | ⟨rest, va'⟩ <;>
                  simp [formatText, hps, puts_cons]

end Refines

end Phytium.Port
