import PhytiumSdk.Lib.Munch
import PhytiumSdk.Port.Ntoa

/-!
# The format interpreter of the debug printf

`_vsnprintf` walks over its format with one pointer and takes arguments from a
`va_list` where a directive asks for them. The format is the array of characters
the pointer points into, from the pointer on, and a string argument is the array
it points to: to read behind the end of an array, and to take an argument of
another type, is `none`.

The target is AArch64: `long` and pointers have 64 bits, `char` is unsigned.
Floating point is left to two functions that say which text `_ftoa` and `_etoa`
give out.
-/

namespace Phytium.Port

open Lib.Munch

universe u
variable {σ : Type u} {δ : Type}

/-! ## Arguments -/

/-- An argument as the default promotions leave it. -/
inductive Arg (δ : Type) where
  | int (v : BitVec 32)
  | long (v : BitVec 64)
  | longLong (v : BitVec 64)
  | double (d : δ)
  | ptr (addr : BitVec 64) (object : List Char)

/-- `va_list`: what is left of the arguments. -/
abbrev VaList (δ : Type) := List (Arg δ)

section VaArg

variable {α : Type}

/-- `va_arg`, with what reads the argument as the type asked for. -/
def vaArg (get : Arg δ → Option α) : VaList δ → Option (α × VaList δ)
  | [] => none
  | a :: va => (get a).map fun v => (v, va)

def Arg.asInt : Arg δ → Option (BitVec 32)
  | .int v => some v
  | _ => none

def Arg.asLong : Arg δ → Option (BitVec 64)
  | .long v => some v
  | _ => none

def Arg.asLongLong : Arg δ → Option (BitVec 64)
  | .longLong v => some v
  | _ => none

def Arg.asDouble : Arg δ → Option δ
  | .double d => some d
  | _ => none

def Arg.asPtr : Arg δ → Option (BitVec 64 × List Char)
  | .ptr addr object => some (addr, object)
  | _ => none

/-- `va_arg(va, int)`. -/
abbrev vaInt : VaList δ → Option (BitVec 32 × VaList δ) := vaArg Arg.asInt

/-- `va_arg(va, long)`. -/
abbrev vaLong : VaList δ → Option (BitVec 64 × VaList δ) := vaArg Arg.asLong

/-- `va_arg(va, long long)`. -/
abbrev vaLongLong : VaList δ → Option (BitVec 64 × VaList δ) := vaArg Arg.asLongLong

/-- `va_arg(va, double)`. -/
abbrev vaDouble : VaList δ → Option (δ × VaList δ) := vaArg Arg.asDouble

/-- `va_arg(va, char*)` and `va_arg(va, void*)`. -/
abbrev vaPtr : VaList δ → Option ((BitVec 64 × List Char) × VaList δ) := vaArg Arg.asPtr

end VaArg

/-! ## Fields of a directive -/

/-- `_is_digit`. -/
def isDigit (ch : Char) : Bool := '0' ≤ ch && ch ≤ '9'

/-- `i = i * 10U + (unsigned int)(*((*str)++) - '0')`, for a digit. -/
def atoiStep (c : Char) (i : ℕ) : Option ℕ :=
  if isDigit c then some ((i * 10 + (c.toNat - '0'.toNat)) % 2 ^ 32) else none

/-- `_atoi`, from the number on that is read already. -/
def atoi : List Char → ℕ → Option (ℕ × List Char) := munch atoiStep

/-- The flag of a character. -/
def flagOf (c : Char) (fl : Flags) : Option Flags :=
  match c with
  | '0' => some { fl with zeropad := true }
  | '-' => some { fl with left := true }
  | '+' => some { fl with plus := true }
  | ' ' => some { fl with space := true }
  | '#' => some { fl with hash := true }
  | _ => none

/-- "evaluate flags". -/
def evalFlags : List Char → Flags → Option (Flags × List Char) := munch flagOf

/-- What stands for a width or a precision. -/
inductive Field where
  | num (n : ℕ)
  | star
  deriving DecidableEq, Repr

/-- `if (_is_digit(*format)) … else if (*format == '*') …`. -/
def evalField : List Char → Option (Field × List Char)
  | [] => none
  | c :: f =>
      if isDigit c then (atoi (c :: f) 0).map fun (n, f) => (.num n, f)
      else if c = '*' then some (.star, f)
      else some (.num 0, c :: f)

/-- The width, with its argument if it is a star; a negative one is that of a
field filled from the left. -/
def evalWidth (fl : Flags) (va : VaList δ) : Field → Option (ℕ × Flags × VaList δ)
  | .num n => some (n, fl, va)
  | .star => (vaInt va).map fun (w, va) =>
      if w.toInt < 0 then ((-w).toNat, { fl with left := true }, va) else (w.toNat, fl, va)

/-- "evaluate precision field", up to its argument. -/
def precisionField : List Char → Option (Option Field × List Char)
  | [] => none
  | c :: f => if c = '.' then (evalField f).map fun (n, f) => (some n, f) else some (none, c :: f)

/-- The precision, with its argument if it is a star. -/
def evalPrecision (fl : Flags) (va : VaList δ) : Option Field → Option (ℕ × Flags × VaList δ)
  | none => some (0, fl, va)
  | some (.num n) => some (n, { fl with precision := true }, va)
  | some .star => (vaInt va).map fun (prec, va) =>
      (if 0 < prec.toInt then prec.toNat else 0, { fl with precision := true }, va)

/-- The length modifiers. `t`, `j` and `z` are as long as `long`. -/
inductive Length where
  | default
  | l
  | ll
  | h
  | hh
  deriving DecidableEq, Repr

def Length.flags (fl : Flags) : Length → Flags
  | .default => fl
  | .l => { fl with long := true }
  | .ll => { fl with long := true, longLong := true }
  | .h => { fl with short := true }
  | .hh => { fl with short := true, char := true }

/-- A second letter of `l` and `h`. -/
def lengthTwice (c : Char) (once twice : Length) : List Char → Option (Length × List Char)
  | [] => none
  | c' :: f => if c' = c then some (twice, f) else some (once, c' :: f)

/-- "evaluate length field". -/
def evalLength : List Char → Option (Length × List Char)
  | [] => none
  | c :: f =>
      if c = 'l' then lengthTwice 'l' .l .ll f
      else if c = 'h' then lengthTwice 'h' .h .hh f
      else if c = 't' ∨ c = 'j' ∨ c = 'z' then some (.l, f)
      else some (.default, c :: f)

/-! ## Specifiers -/

/-- `_strnlen_s`. It looks at a character before it counts. -/
def strnlenS : List Char → ℕ → Option ℕ
  | [], _ => none
  | c :: str, maxsize =>
      if c = '\x00' then some 0
      else
        match maxsize with
        | 0 => some 0
        | maxsize + 1 => (strnlenS str maxsize).map (· + 1)

/-- `while ((*p != 0) && (!(flags & FLAGS_PRECISION) || precision--)) …`. -/
def strChars (hasPrecision : Bool) : List Char → ℕ → Option (List Char)
  | [], _ => none
  | c :: p, precision =>
      if c = '\x00' then some []
      else if hasPrecision then
        match precision with
        | 0 => some []
        | precision + 1 => (strChars hasPrecision p precision).map (c :: ·)
      else (strChars hasPrecision p precision).map (c :: ·)

/-- `(char)va_arg(va, int)`. -/
def charOfInt (v : BitVec 32) : Char := Char.ofNat (v.toNat % 256)

/-- The base of an integer specifier. -/
def integerBase (c : Char) : ℕ :=
  if c = 'x' ∨ c = 'X' then 16 else if c = 'o' then 8 else if c = 'b' then 2 else 10

/-- The flags an integer specifier is converted with. -/
def integerFlags (c : Char) (fl : Flags) : Flags :=
  let fl := if integerBase c = 10 then { fl with hash := false } else fl
  let fl := if c = 'X' then { fl with uppercase := true } else fl
  let fl := if c ≠ 'i' ∧ c ≠ 'd' then { fl with plus := false, space := false } else fl
  if fl.precision then { fl with zeropad := false } else fl

/-- `value > 0 ? value : 0 - value`, as an unsigned number. -/
def magnitude {w : ℕ} (v : BitVec w) : ℕ := (if 0 < v.toInt then v else 0 - v).toNat

/-- A signed number to convert. -/
def signedArg (fl : Flags) (va : VaList δ) : Option (ℕ × Bool × VaList δ) :=
  if fl.longLong then (vaLongLong va).map fun (v, va) => (magnitude v, v.toInt < 0, va)
  else if fl.long then (vaLong va).map fun (v, va) => (magnitude v, v.toInt < 0, va)
  else
    (vaInt va).map fun (v, va) =>
      let value : BitVec 32 :=
        if fl.char then (v.setWidth 8).setWidth 32
        else if fl.short then (v.setWidth 16).signExtend 32
        else v
      (magnitude value, value.toInt < 0, va)

/-- An unsigned number to convert. -/
def unsignedArg (fl : Flags) (va : VaList δ) : Option (ℕ × Bool × VaList δ) :=
  if fl.longLong then (vaLongLong va).map fun (v, va) => (v.toNat, false, va)
  else if fl.long then (vaLong va).map fun (v, va) => (v.toNat, false, va)
  else
    (vaInt va).map fun (v, va) =>
      (if fl.char then (v.setWidth 8).toNat else if fl.short then (v.setWidth 16).toNat else v.toNat,
        false, va)

/-- The number of an integer specifier, and whether it is negative. -/
def integerArg (c : Char) (fl : Flags) (va : VaList δ) : Option (ℕ × Bool × VaList δ) :=
  if c = 'i' ∨ c = 'd' then signedArg fl va else unsignedArg fl va

/-- The arms of "evaluate specifier". -/
inductive Specifier where
  | integer
  | fixed
  | exponent
  | char
  | string
  | pointer
  | other
  deriving DecidableEq, Repr

def specifierOf (c : Char) : Specifier :=
  if c ∈ ['d', 'i', 'u', 'x', 'X', 'o', 'b'] then .integer
  else if c ∈ ['f', 'F'] then .fixed
  else if c ∈ ['e', 'E', 'g', 'G'] then .exponent
  else if c = 'c' then .char
  else if c = 's' then .string
  else if c = 'p' then .pointer
  else .other

/-- The texts of `_ftoa` and `_etoa`: value, precision, width and flags. -/
structure FloatText (δ : Type) where
  ftoa : δ → ℕ → ℕ → Flags → List Char
  etoa : δ → ℕ → ℕ → Flags → List Char

/-- The flags `_etoa` is called with. -/
def exponentFlags (c : Char) (fl : Flags) : Flags :=
  let fl := if c = 'g' ∨ c = 'G' then { fl with adaptExp := true } else fl
  if c = 'E' ∨ c = 'G' then { fl with uppercase := true } else fl

section Run

variable (ft : FloatText δ) (out : OutFct σ) (maxlen : BitVec 64)

/-- "evaluate specifier". -/
def evalSpecifier (c : Char) (fl : Flags) (width precision : ℕ) (va : VaList δ) (o : Out σ) :
    Option (VaList δ × Out σ) :=
  match specifierOf c with
  | .integer =>
      let fl := integerFlags c fl
      (integerArg c fl va).map fun (value, negative, va) =>
        (va, ntoaLong out maxlen o value negative (integerBase c) precision width fl)
  | .fixed =>
      let fl := if c = 'F' then { fl with uppercase := true } else fl
      (vaDouble va).map fun (d, va) => (va, puts out maxlen o (ft.ftoa d precision width fl))
  | .exponent =>
      (vaDouble va).map fun (d, va) =>
        (va, puts out maxlen o (ft.etoa d precision width (exponentFlags c fl)))
  | .char =>
      let o := if !fl.left then puts out maxlen o (List.replicate (width - 1) ' ') else o
      (vaInt va).map fun (v, va) =>
        let o := put out maxlen o (charOfInt v)
        (va, if fl.left then puts out maxlen o (List.replicate (width - 1) ' ') else o)
  | .string =>
      (vaPtr va).bind fun ((_, p), va) =>
        (strnlenS p (if precision ≠ 0 then precision else 2 ^ 64 - 1)).bind fun len =>
          let l := len % 2 ^ 32
          let l := if fl.precision then (if l < precision then l else precision) else l
          let o := if !fl.left then puts out maxlen o (List.replicate (width - l) ' ') else o
          (strChars fl.precision p precision).map fun text =>
            let o := puts out maxlen o text
            (va, if fl.left then puts out maxlen o (List.replicate (width - l) ' ') else o)
  | .pointer =>
      let fl := { fl with zeropad := true, uppercase := true }
      (vaPtr va).map fun ((addr, _), va) =>
        (va, ntoaLongLong out maxlen o addr.toNat false 16 precision 16 fl)
  | .other => some (va, put out maxlen o c)

/-- One directive, from behind its `%` on. -/
def directive (f : List Char) (va : VaList δ) (o : Out σ) :
    Option (List Char × VaList δ × Out σ) :=
  (evalFlags f {}).bind fun (fl, f) =>
  (evalField f).bind fun (field, f) =>
  (evalWidth fl va field).bind fun (width, fl, va) =>
  (precisionField f).bind fun (field, f) =>
  (evalPrecision fl va field).bind fun (precision, fl, va) =>
  (evalLength f).bind fun (length, f) =>
  match f with
  | [] => none
  | c :: f =>
      (evalSpecifier ft out maxlen c (length.flags fl) width precision va o).map
        fun (va, o) => (f, va, o)

/-- `while (*format)`. A round takes a character at least, so there are never
more rounds than characters. -/
def formatLoop : ℕ → List Char → VaList δ → Out σ → Option (VaList δ × Out σ)
  | 0, _, _, _ => none
  | _ + 1, [], _, _ => none
  | fuel + 1, c :: f, va, o =>
      if c = '\x00' then some (va, o)
      else if c ≠ '%' then formatLoop fuel f va (put out maxlen o c)
      else (directive ft out maxlen f va o).bind fun (f, va, o) => formatLoop fuel f va o

end Run

/-- `_vsnprintf`, what it returns and what it leaves behind the buffer pointer;
`null` is the test of the pointer. -/
def vsnprintfInternal (ft : FloatText δ) (out : OutFct σ) (null : Bool) (buffer : σ) (maxlen : BitVec 64)
    (format : List Char) (va : VaList δ) : Option (BitVec 32 × σ) :=
  let out := if null then outNull else out
  (formatLoop ft out maxlen format.length format va ⟨buffer, 0⟩).map fun (_, o) =>
    (o.idx.setWidth 32,
      out '\x00' (if o.idx < maxlen then o.idx else maxlen - 1) maxlen o.buffer)

end Phytium.Port
