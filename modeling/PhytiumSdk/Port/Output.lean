import Mathlib.Data.BitVec

/-!
# Output functions of the debug printf

Everything `_vsnprintf` produces goes through a pointer to an output function,
one character at a time, each with the index of the character. The conversions
are modelled over any output function; what they produce is said as a text, and
`puts` of that text is all that they do.
-/

namespace Phytium.Port

universe u
variable {σ : Type u}

/-- `out_fct_type`: the character, `idx` and `maxlen`, over what it writes to. -/
abbrev OutFct (σ : Type u) := Char → BitVec 64 → BitVec 64 → σ → σ

/-- What the output function writes to, and `size_t idx`. -/
structure Out (σ : Type u) where
  buffer : σ
  idx : BitVec 64

/-! ## The four output functions -/

/-- `_out_buffer`. -/
def outBuffer : OutFct (ℕ → Char) := fun character idx maxlen buffer =>
  if idx < maxlen then Function.update buffer idx.toNat character else buffer

/-- `_out_null`. -/
def outNull : OutFct σ := fun _ _ _ buffer => buffer

/-- `_out_fct`: `fct` is the client's function over its own `arg`. -/
def outFct (fct : Char → σ → σ) : OutFct σ := fun character _ _ arg =>
  if character ≠ '\x00' then fct character arg else arg

/-- `_out_char`: as `_out_fct` with `_putchar`. -/
def outChar (putchar : Char → σ → σ) : OutFct σ := fun character _ _ line =>
  if character ≠ '\x00' then putchar character line else line

/-! ## A run of characters -/

section Puts

variable (out : OutFct σ) (maxlen : BitVec 64)

/-- `out(c, buffer, idx++, maxlen)`. -/
def put (o : Out σ) (c : Char) : Out σ := ⟨out c o.idx maxlen o.buffer, o.idx + 1⟩

/-- A text, from its first character on. -/
def puts (o : Out σ) (text : List Char) : Out σ := text.foldl (put out maxlen) o

@[simp] theorem puts_nil (o : Out σ) : puts out maxlen o [] = o := rfl

theorem puts_cons (o : Out σ) (c : Char) (text : List Char) :
    puts out maxlen o (c :: text) = puts out maxlen (put out maxlen o c) text := rfl

theorem puts_append (o : Out σ) (s t : List Char) :
    puts out maxlen o (s ++ t) = puts out maxlen (puts out maxlen o s) t :=
  List.foldl_append

theorem puts_singleton (o : Out σ) (c : Char) : puts out maxlen o [c] = put out maxlen o c := rfl

theorem puts_idx (o : Out σ) (text : List Char) :
    (puts out maxlen o text).idx = o.idx + BitVec.ofNat 64 text.length := by
  induction text generalizing o with
  | nil => simp
  | cons c text ih =>
      rw [puts_cons, ih]
      show o.idx + 1#64 + _ = _
      rw [List.length_cons, BitVec.ofNat_add]
      ac_rfl

/-! ## `_out_rev` -/

/-- `while (idx - start_idx < width) out(' ', buffer, idx++, maxlen)`; every
round is one character, so `width` rounds are enough. -/
def padTo (start : BitVec 64) (width : ℕ) : ℕ → Out σ → Out σ
  | 0, o => o
  | fuel + 1, o =>
      if (o.idx - start).toNat < width then padTo start width fuel (put out maxlen o ' ') else o

/-- `_out_rev`. -/
def outRev (o : Out σ) (buf : List Char) (width : ℕ) (left zeropad : Bool) : Out σ :=
  let start := o.idx
  let o :=
    if !left && !zeropad then puts out maxlen o (List.replicate (width - buf.length) ' ') else o
  let o := puts out maxlen o buf.reverse
  if left then padTo out maxlen start width width o else o

end Puts

/-- The text `_out_rev` produces. -/
def outRevText (buf : List Char) (width : ℕ) (left zeropad : Bool) : List Char :=
  List.replicate (if !left && !zeropad then width - buf.length else 0) ' ' ++ buf.reverse ++
    List.replicate (if left then width - buf.length else 0) ' '

section Puts

variable (out : OutFct σ) (maxlen : BitVec 64)

/-- What is still missing to the field width is filled up. -/
theorem padTo_eq {start : BitVec 64} {width fuel k : ℕ} {o : Out σ} (hwidth : width < 2 ^ 32)
    (hk : k < 2 ^ 32) (hidx : o.idx = start + BitVec.ofNat 64 k) (hfuel : width - k ≤ fuel) :
    padTo out maxlen start width fuel o =
      puts out maxlen o (List.replicate (width - k) ' ') := by
  induction fuel generalizing o k with
  | zero =>
      have hnone : width - k = 0 := by omega
      rw [hnone]
      rfl
  | succ fuel ih =>
      have hsub : (o.idx - start).toNat = k := by
        rw [hidx]
        bv_omega
      rw [padTo, hsub]
      by_cases h : k < width
      · have hone : width - k = (width - (k + 1)) + 1 := by omega
        have hnext : (put out maxlen o ' ').idx = start + BitVec.ofNat 64 (k + 1) := by
          show o.idx + 1 = _
          rw [hidx]
          bv_omega
        rw [if_pos h, ih (by omega) hnext (by omega), hone, List.replicate_succ, puts_cons]
      · have hnone : width - k = 0 := by omega
        rw [if_neg h, hnone]
        rfl

theorem outRev_eq {buf : List Char} {width : ℕ} (hbuf : buf.length < 2 ^ 32)
    (hwidth : width < 2 ^ 32) (left zeropad : Bool) (o : Out σ) :
    outRev out maxlen o buf width left zeropad =
      puts out maxlen o (outRevText buf width left zeropad) := by
  cases left with
  | false =>
      cases zeropad <;> simp [outRev, outRevText, puts_append]
  | true =>
      have hpad : padTo out maxlen o.idx width width (puts out maxlen o buf.reverse) =
          puts out maxlen (puts out maxlen o buf.reverse)
            (List.replicate (width - buf.length) ' ') :=
        padTo_eq out maxlen hwidth hbuf (by simp [puts_idx]) (by omega)
      simp [outRev, outRevText, puts_append, hpad]

end Puts

end Phytium.Port
