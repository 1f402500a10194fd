import PhytiumSdk.Lib.Numeral
import PhytiumSdk.Port.Output

/-!
# Integer conversion of the debug printf

`_ntoa_long` writes the digits of a number into a buffer of 32 characters, the
least significant first, `_ntoa_format` adds zeros, the prefix of the base and
the sign behind them, and `_out_rev` gives them out in reverse. The buffer is
the list of what stands in it; `buf[len++] = c` appends.

The text is then read as a number again. It is not always the number that was
converted: the prefix may take the place of digits, and what does not fit into
the buffer is left out.
-/

namespace Phytium.Port

open Lib.Numeral

universe u
variable {σ : Type u}

/-- `flags`, a field for each bit. -/
structure Flags where
  zeropad : Bool := false
  left : Bool := false
  plus : Bool := false
  space : Bool := false
  hash : Bool := false
  uppercase : Bool := false
  char : Bool := false
  short : Bool := false
  long : Bool := false
  longLong : Bool := false
  precision : Bool := false
  adaptExp : Bool := false
  deriving DecidableEq, Repr

/-- `PRINTF_NTOA_BUFFER_SIZE`. -/
abbrev ntoaBufferSize : ℕ := 32

/-! ## The buffer -/

/-- The digits of `_ntoa_long`. The loop tests after the first digit, and then
for a value and for room. -/
def ntoaDigits (base : ℕ) (upper : Bool) : ℕ → ℕ → List Char
  | 0, _ => []
  | room + 1, value =>
      digitChar upper (value % base) ::
        if value / base = 0 then [] else ntoaDigits base upper room (value / base)

/-- `while ((len < bound) && (len < PRINTF_NTOA_BUFFER_SIZE)) buf[len++] = '0'`. -/
def padZeros (bound : ℕ) (buf : List Char) : List Char :=
  buf ++ List.replicate (min bound ntoaBufferSize - buf.length) '0'

/-- The width `_ntoa_format` goes on with: the sign has its place in it. -/
def ntoaWidth (negative : Bool) (width : ℕ) (fl : Flags) : ℕ :=
  if !fl.left && width ≠ 0 && fl.zeropad && (negative || fl.plus || fl.space) then width - 1
  else width

/-- "handle hash": what is taken back to make room for the prefix. -/
def hashStrip (base prec width : ℕ) (fl : Flags) (buf : List Char) : List Char :=
  if !fl.precision && buf.length ≠ 0 && (buf.length = prec || buf.length = width) then
    if buf.dropLast.length ≠ 0 && base = 16 then buf.dropLast.dropLast else buf.dropLast
  else buf

/-- The letter of the prefix. -/
def hashLetter (base : ℕ) (fl : Flags) (buf : List Char) : List Char :=
  if base = 16 && !fl.uppercase && buf.length < ntoaBufferSize then buf ++ ['x']
  else if base = 16 && fl.uppercase && buf.length < ntoaBufferSize then buf ++ ['X']
  else if base = 2 && buf.length < ntoaBufferSize then buf ++ ['b']
  else buf

/-- The zero of the prefix. -/
def hashZero (buf : List Char) : List Char :=
  if buf.length < ntoaBufferSize then buf ++ ['0'] else buf

def signChar (negative : Bool) (fl : Flags) (buf : List Char) : List Char :=
  if buf.length < ntoaBufferSize then
    if negative then buf ++ ['-']
    else if fl.plus then buf ++ ['+']
    else if fl.space then buf ++ [' ']
    else buf
  else buf

/-- "pad leading zeros". -/
def ntoaPad (prec width : ℕ) (fl : Flags) (buf : List Char) : List Char :=
  if fl.left then buf
  else
    let buf := padZeros prec buf
    if fl.zeropad then padZeros width buf else buf

/-- The buffer `_ntoa_format` gives to `_out_rev`. -/
def ntoaFormatBuf (buf : List Char) (negative : Bool) (base prec width : ℕ) (fl : Flags) :
    List Char :=
  let width := ntoaWidth negative width fl
  let buf := ntoaPad prec width fl buf
  let buf :=
    if fl.hash then hashZero (hashLetter base fl (hashStrip base prec width fl buf)) else buf
  signChar negative fl buf

/-- `_ntoa_format`. -/
def ntoaFormat (out : OutFct σ) (maxlen : BitVec 64) (o : Out σ) (buf : List Char)
    (negative : Bool) (base prec width : ℕ) (fl : Flags) : Out σ :=
  outRev out maxlen o (ntoaFormatBuf buf negative base prec width fl)
    (ntoaWidth negative width fl) fl.left fl.zeropad

/-- "no hash for 0 values". -/
def ntoaFlags (value : ℕ) (fl : Flags) : Flags :=
  if value = 0 then { fl with hash := false } else fl

/-- "write if precision != 0 and value is != 0". -/
def ntoaStart (value base : ℕ) (fl : Flags) : List Char :=
  if !fl.precision || value ≠ 0 then ntoaDigits base fl.uppercase ntoaBufferSize value else []

/-- `_ntoa_long`. -/
def ntoaLong (out : OutFct σ) (maxlen : BitVec 64) (o : Out σ) (value : ℕ) (negative : Bool)
    (base prec width : ℕ) (fl : Flags) : Out σ :=
  let fl := ntoaFlags value fl
  ntoaFormat out maxlen o (ntoaStart value base fl) negative base prec width fl

/-- `_ntoa_long_long`: the body of `_ntoa_long` over another type of the same width. -/
abbrev ntoaLongLong (out : OutFct σ) (maxlen : BitVec 64) (o : Out σ) (value : ℕ)
    (negative : Bool) (base prec width : ℕ) (fl : Flags) : Out σ :=
  ntoaLong out maxlen o value negative base prec width fl

/-! ## The text -/

/-- What the buffer of a conversion holds in the end. -/
def ntoaBuf (value : ℕ) (negative : Bool) (base prec width : ℕ) (fl : Flags) : List Char :=
  ntoaFormatBuf (ntoaStart value base (ntoaFlags value fl)) negative base prec width
    (ntoaFlags value fl)

/-- The text of a conversion. -/
def ntoaText (value : ℕ) (negative : Bool) (base prec width : ℕ) (fl : Flags) : List Char :=
  outRevText (ntoaBuf value negative base prec width fl) (ntoaWidth negative width fl)
    fl.left fl.zeropad

@[simp] theorem ntoaFlags_left (value : ℕ) (fl : Flags) : (ntoaFlags value fl).left = fl.left := by
  unfold ntoaFlags
  split <;> rfl

@[simp] theorem ntoaFlags_zeropad (value : ℕ) (fl : Flags) :
    (ntoaFlags value fl).zeropad = fl.zeropad := by
  unfold ntoaFlags
  split <;> rfl

@[simp] theorem ntoaFlags_precision (value : ℕ) (fl : Flags) :
    (ntoaFlags value fl).precision = fl.precision := by
  unfold ntoaFlags
  split <;> rfl

@[simp] theorem ntoaFlags_uppercase (value : ℕ) (fl : Flags) :
    (ntoaFlags value fl).uppercase = fl.uppercase := by
  unfold ntoaFlags
  split <;> rfl

@[simp] theorem ntoaFlags_plus (value : ℕ) (fl : Flags) : (ntoaFlags value fl).plus = fl.plus := by
  unfold ntoaFlags
  split <;> rfl

@[simp] theorem ntoaFlags_space (value : ℕ) (fl : Flags) :
    (ntoaFlags value fl).space = fl.space := by
  unfold ntoaFlags
  split <;> rfl

@[simp] theorem ntoaWidth_ntoaFlags (value : ℕ) (negative : Bool) (width : ℕ) (fl : Flags) :
    ntoaWidth negative width (ntoaFlags value fl) = ntoaWidth negative width fl := by
  unfold ntoaFlags
  split <;> rfl

theorem ntoaWidth_le (negative : Bool) (width : ℕ) (fl : Flags) :
    ntoaWidth negative width fl ≤ width := by
  unfold ntoaWidth
  split <;> omega

/-! ## The stages as appended texts -/

/-- The digits the loop goes through, the least significant first. -/
def digitRun (base : ℕ) : ℕ → ℕ → List ℕ
  | 0, _ => []
  | room + 1, value =>
      value % base :: if value / base = 0 then [] else digitRun base room (value / base)

theorem ntoaDigits_eq (base : ℕ) (upper : Bool) (room value : ℕ) :
    ntoaDigits base upper room value = (digitRun base room value).map (digitChar upper) := by
  induction room generalizing value with
  | zero => rfl
  | succ room ih =>
      rw [ntoaDigits, digitRun, List.map_cons, apply_ite (List.map (digitChar upper)), ih,
        List.map_nil]

theorem digitRun_lt {base : ℕ} (hbase : 1 < base) (room value : ℕ) :
    ∀ d ∈ digitRun base room value, d < base := by
  induction room generalizing value with
  | zero => simp [digitRun]
  | succ room ih =>
      have hhead : value % base < base := Nat.mod_lt _ (by omega)
      rw [digitRun]
      split
      · simpa using hhead
      · simpa [hhead] using ih (value / base)

/-- What the loop writes is the value, cut to the digits it has room for. -/
theorem ofDigits_digitRun (base room value : ℕ) :
    Nat.ofDigits base (digitRun base room value) = value % base ^ room := by
  induction room generalizing value with
  | zero => simp [digitRun, Nat.mod_one]
  | succ room ih =>
      rw [digitRun, Nat.ofDigits_cons, pow_succ', Nat.mod_mul]
      by_cases h : value / base = 0
      · simp [h]
      · rw [if_neg h, ih]

/-- The loop ends with the value or with the buffer. -/
theorem digitRun_length {base : ℕ} (hbase : 1 < base) {room : ℕ} (hroom : 0 < room) (value : ℕ) :
    (digitRun base room value).length = min room (max 1 (Nat.digits base value).length) := by
  induction room generalizing value with
  | zero => omega
  | succ room ih =>
      rw [digitRun, List.length_cons]
      by_cases h : value / base = 0
      · have hsmall : value < base := by
          rcases Nat.div_eq_zero_iff.mp h with h | h <;> omega
        have hone : (Nat.digits base value).length ≤ 1 := by
          rw [Nat.digits_length_le_iff hbase]
          simpa using hsmall
        simp only [h, if_true, List.length_nil]
        omega
      · have hvalue : value ≠ 0 := by
          rintro rfl
          simp at h
        have hdigits : (Nat.digits base value).length = (Nat.digits base (value / base)).length + 1 := by
          rw [Nat.digits_eq_cons_digits_div hbase hvalue, List.length_cons]
        have hpos : 0 < (Nat.digits base (value / base)).length := by
          rw [List.length_pos_iff]
          exact Nat.digits_ne_nil_iff_ne_zero.mpr h
        rw [if_neg h, hdigits]
        rcases Nat.eq_zero_or_pos room with rfl | hroom
        · simp [digitRun]
        · rw [ih hroom]
          omega

/-- How many characters "handle hash" takes back from `len`. -/
def strippedCount (base prec width len : ℕ) (fl : Flags) : ℕ :=
  if !fl.precision && len ≠ 0 && (len = prec || len = width) then
    if len - 1 ≠ 0 && base = 16 then 2 else 1
  else 0

theorem hashStrip_eq (base prec width : ℕ) (fl : Flags) (buf : List Char) :
    hashStrip base prec width fl buf =
      buf.take (buf.length - strippedCount base prec width buf.length fl) := by
  unfold hashStrip strippedCount
  split
  · rw [List.length_dropLast]
    split
    · rw [List.dropLast_eq_take, List.dropLast_eq_take, List.take_take, List.length_take]
      congr 1
      omega
    · rw [List.dropLast_eq_take]
  · simp

/-- The letter of the prefix of a base. -/
def prefixLetter (base : ℕ) (fl : Flags) : List Char :=
  if base = 16 then [if fl.uppercase then 'X' else 'x'] else if base = 2 then ['b'] else []

/-- The prefix that is added behind `len` characters. -/
def prefixChars (base len : ℕ) (fl : Flags) : List Char :=
  (prefixLetter base fl ++ ['0']).take (ntoaBufferSize - len)

theorem hashLetter_eq (base : ℕ) (fl : Flags) (buf : List Char) :
    hashLetter base fl buf =
      if buf.length < ntoaBufferSize then buf ++ prefixLetter base fl else buf := by
  unfold hashLetter prefixLetter
  by_cases h : buf.length < ntoaBufferSize
  · cases fl.uppercase <;> by_cases h16 : base = 16 <;> by_cases h2 : base = 2 <;> simp_all
  · simp [h]

theorem prefixLetter_length_le (base : ℕ) (fl : Flags) : (prefixLetter base fl).length ≤ 1 := by
  unfold prefixLetter
  split_ifs <;> simp

theorem hashPrefix_eq (base : ℕ) (fl : Flags) (buf : List Char) :
    hashZero (hashLetter base fl buf) = buf ++ prefixChars base buf.length fl := by
  have hone := prefixLetter_length_le base fl
  rw [hashLetter_eq, hashZero, prefixChars]
  by_cases h : buf.length < ntoaBufferSize
  · rw [if_pos h, List.take_append, List.length_append]
    by_cases h' : buf.length + (prefixLetter base fl).length < ntoaBufferSize
    · rw [if_pos h', List.take_of_length_le (by omega), List.take_of_length_le (by simp; omega),
        List.append_assoc]
    · have hnone : ntoaBufferSize - buf.length - (prefixLetter base fl).length = 0 := by omega
      rw [if_neg h', hnone, List.take_of_length_le (by omega)]
      simp
  · have hnone : ntoaBufferSize - buf.length = 0 := by omega
    rw [if_neg h, if_neg h, hnone]
    simp

/-- The sign behind `len` characters. -/
def signText (negative : Bool) (len : ℕ) (fl : Flags) : List Char :=
  if len < ntoaBufferSize then
    if negative then ['-'] else if fl.plus then ['+'] else if fl.space then [' '] else []
  else []

theorem signChar_eq (negative : Bool) (fl : Flags) (buf : List Char) :
    signChar negative fl buf = buf ++ signText negative buf.length fl := by
  unfold signChar signText
  split_ifs <;> simp

section Conversion

variable (value : ℕ) (negative : Bool) (base prec width : ℕ) (fl : Flags)

/-- How many digits `_ntoa_long` writes. -/
def ntoaDigitCount : ℕ :=
  if fl.precision && value = 0 then 0
  else min ntoaBufferSize (max 1 (Nat.digits base value).length)

/-- How many digits and zeros stand in the buffer before "handle hash". -/
def ntoaLen : ℕ :=
  if fl.left then ntoaDigitCount value base fl
  else max (ntoaDigitCount value base fl) (max (min prec ntoaBufferSize)
    (if fl.zeropad then min (ntoaWidth negative width fl) ntoaBufferSize else 0))

/-- How many of them it takes back. -/
def ntoaStripped : ℕ :=
  if fl.hash && value ≠ 0 then
    strippedCount base prec (ntoaWidth negative width fl)
      (ntoaLen value negative base prec width fl) fl
  else 0

/-- How many of them are left. -/
def ntoaKept : ℕ :=
  ntoaLen value negative base prec width fl - ntoaStripped value negative base prec width fl

/-- The prefix of a conversion. -/
def ntoaPrefix : List Char :=
  if fl.hash && value ≠ 0 then
    prefixChars base (ntoaKept value negative base prec width fl) fl
  else []

/-- The sign of a conversion. -/
def ntoaSign : List Char :=
  signText negative (ntoaKept value negative base prec width fl +
    (ntoaPrefix value negative base prec width fl).length) fl

/-- The digits of the value with the zeros before them. -/
theorem ntoaStart_digits (hbase : 1 < base) :
    ∃ ds : List ℕ, (∀ d ∈ ds, d < base) ∧
      Nat.ofDigits base ds = value % base ^ ntoaBufferSize ∧
      ntoaStart value base fl = ds.map (digitChar fl.uppercase) ∧
      ds.length = ntoaDigitCount value base fl := by
  unfold ntoaStart ntoaDigitCount
  by_cases h : fl.precision = true ∧ value = 0
  · refine ⟨[], by simp, ?_, ?_, ?_⟩ <;> simp [h]
  · have hstart : (!fl.precision || decide (value ≠ 0)) = true := by
      by_cases hp : fl.precision = true
      · simpa [hp] using h
      · simp [hp]
    refine ⟨digitRun base ntoaBufferSize value, digitRun_lt hbase _ _,
      ofDigits_digitRun _ _ _, ?_, ?_⟩
    · rw [if_pos hstart, ntoaDigits_eq]
    · rw [digitRun_length hbase (by decide), if_neg (by simpa using h)]

theorem padZeros_map (upper : Bool) (bound : ℕ) (ds : List ℕ) :
    padZeros bound (ds.map (digitChar upper)) =
      (ds ++ List.replicate (min bound ntoaBufferSize - ds.length) 0).map (digitChar upper) := by
  have hzero : digitChar upper 0 = '0' := by
    cases upper <;> decide
  simp [padZeros, hzero]

theorem ntoaPad_map (upper : Bool) (ds : List ℕ) :
    ∃ z, ntoaPad prec width fl (ds.map (digitChar upper)) =
        (ds ++ List.replicate z 0).map (digitChar upper) ∧
      ds.length + z = if fl.left then ds.length
        else max ds.length (max (min prec ntoaBufferSize)
          (if fl.zeropad then min width ntoaBufferSize else 0)) := by
  unfold ntoaPad
  cases fl.left with
  | true => exact ⟨0, by simp, by simp⟩
  | false =>
      cases fl.zeropad with
      | true =>
          simp only [Bool.false_eq_true, if_false, if_true]
          rw [padZeros_map, padZeros_map, List.append_assoc, List.replicate_append_replicate]
          refine ⟨_, rfl, ?_⟩
          simp only [List.length_append, List.length_replicate]
          omega
      | false =>
          simp only [Bool.false_eq_true, if_false]
          rw [padZeros_map]
          refine ⟨_, rfl, ?_⟩
          omega

theorem ntoaLen_le : ntoaLen value negative base prec width fl ≤ ntoaBufferSize := by
  unfold ntoaLen ntoaDigitCount
  split_ifs <;> omega

theorem ntoaKept_le :
    ntoaKept value negative base prec width fl ≤ ntoaLen value negative base prec width fl :=
  Nat.sub_le _ _

/-- The digits of the value with the zeros before them. -/
theorem ntoaPad_digits (hbase : 1 < base) :
    ∃ ds : List ℕ, (∀ d ∈ ds, d < base) ∧
      Nat.ofDigits base ds = value % base ^ ntoaBufferSize ∧
      ntoaPad prec (ntoaWidth negative width fl) fl (ntoaStart value base fl) =
        ds.map (digitChar fl.uppercase) ∧
      ds.length = ntoaLen value negative base prec width fl := by
  obtain ⟨ds, hlt, hval, hstart, hlen⟩ := ntoaStart_digits value base fl hbase
  obtain ⟨z, hpad, hz⟩ := ntoaPad_map prec (ntoaWidth negative width fl) fl fl.uppercase ds
  refine ⟨ds ++ List.replicate z 0, ?_, ?_, by rw [hstart, hpad], ?_⟩
  · intro d hd
    rcases List.mem_append.mp hd with hd | hd
    · exact hlt d hd
    · have := List.eq_of_mem_replicate hd
      omega
  · rw [Nat.ofDigits_append_replicate_zero, hval]
  · rw [List.length_append, List.length_replicate, hz, hlen, ntoaLen]

/-- **The buffer of a conversion.** Digits that stand for the value, as far as
they go, then the prefix, then the sign. -/
theorem ntoaBuf_eq (hbase : 1 < base) :
    ∃ ds : List ℕ, (∀ d ∈ ds, d < base) ∧
      ds.length = ntoaKept value negative base prec width fl ∧
      Nat.ofDigits base ds = value % base ^ ntoaKept value negative base prec width fl ∧
      ntoaBuf value negative base prec width fl =
        ds.map (digitChar fl.uppercase) ++ ntoaPrefix value negative base prec width fl ++
          ntoaSign value negative base prec width fl := by
  obtain ⟨ds, hlt, hval, hpad, hlen⟩ := ntoaPad_digits value negative base prec width fl hbase
  have hkept := ntoaKept_le value negative base prec width fl
  have hsize := ntoaLen_le value negative base prec width fl
  refine ⟨ds.take (ntoaKept value negative base prec width fl),
    fun d hd => hlt d (List.mem_of_mem_take hd), by simp; omega, ?_, ?_⟩
  · rw [← Nat.ofDigits_mod_pow_eq_ofDigits_take _ (by omega) _ hlt, hval]
    exact Nat.mod_mod_of_dvd _ (pow_dvd_pow _ (hkept.trans hsize))
  · have hstart : ntoaStart value base (ntoaFlags value fl) = ntoaStart value base fl := by
      simp [ntoaStart]
    have hpad' : ntoaPad prec (ntoaWidth negative width fl) (ntoaFlags value fl)
        (ntoaStart value base fl) = ds.map (digitChar fl.uppercase) := by
      rw [← hpad]
      simp [ntoaPad]
    have hmap : (ds.map (digitChar fl.uppercase)).length =
        ntoaLen value negative base prec width fl := by
      rw [List.length_map, hlen]
    rw [ntoaBuf, ntoaFormatBuf, hstart, ntoaWidth_ntoaFlags, hpad', signChar_eq]
    unfold ntoaSign ntoaPrefix ntoaKept ntoaStripped
    by_cases hhash : fl.hash = true ∧ value ≠ 0
    · obtain ⟨hhash, hvalue⟩ := hhash
      have hflags : ntoaFlags value fl = fl := if_neg hvalue
      have hstripped : (true && decide (value ≠ 0)) = true := by simp [hvalue]
      simp only [hflags, hhash, hstripped, if_true, hashPrefix_eq, hashStrip_eq, hmap,
        List.map_take, List.length_append, List.length_take, Nat.min_eq_left (Nat.sub_le _ _)]
    · have hflags : (ntoaFlags value fl).hash = false := by
        unfold ntoaFlags
        split
        · rfl
        · simpa [*] using hhash
      have hstripped : (fl.hash && decide (value ≠ 0)) = false := by simpa using hhash
      have hsign : ∀ len, signText negative len (ntoaFlags value fl) = signText negative len fl := by
        intro len
        simp [signText]
      simp only [hflags, hstripped, hmap, hsign, Bool.false_eq_true, if_false, Nat.sub_zero,
        List.length_nil, Nat.add_zero, List.append_nil]
      rw [List.take_of_length_le hlen.le]

/-! ## The text read as a number -/

/-- Nothing is stored behind the buffer. -/
theorem ntoaBuf_length_le (hbase : 1 < base) :
    (ntoaBuf value negative base prec width fl).length ≤ ntoaBufferSize := by
  obtain ⟨ds, -, hlen, -, hbuf⟩ := ntoaBuf_eq value negative base prec width fl hbase
  have hkept := (ntoaKept_le value negative base prec width fl).trans
    (ntoaLen_le value negative base prec width fl)
  have hpre : ntoaKept value negative base prec width fl +
      (ntoaPrefix value negative base prec width fl).length ≤ ntoaBufferSize := by
    unfold ntoaPrefix
    split
    · have := List.length_take_le (ntoaBufferSize - ntoaKept value negative base prec width fl)
        (prefixLetter base fl ++ ['0'])
      rw [prefixChars]
      omega
    · simpa using hkept
  have hsign : (ntoaSign value negative base prec width fl).length ≤ ntoaBufferSize -
      (ntoaKept value negative base prec width fl +
        (ntoaPrefix value negative base prec width fl).length) := by
    unfold ntoaSign signText
    split_ifs <;> simp <;> omega
  rw [hbuf]
  simp only [List.length_append, List.length_map]
  omega

/-- The conversion gives out its text, and nothing else. -/
theorem ntoaLong_eq (out : OutFct σ) (maxlen : BitVec 64) (o : Out σ) (hwidth : width < 2 ^ 32)
    (hbase : 1 < base) :
    ntoaLong out maxlen o value negative base prec width fl =
      puts out maxlen o (ntoaText value negative base prec width fl) := by
  have hbuf := ntoaBuf_length_le value negative base prec width fl hbase
  have hwidth' := ntoaWidth_le negative width fl
  rw [ntoaLong, ntoaFormat, ntoaWidth_ntoaFlags, ntoaFlags_left, ntoaFlags_zeropad]
  exact outRev_eq out maxlen (lt_of_le_of_lt hbuf (by decide)) (by omega) _ _ o

/-- A letter or a zero: no character of a prefix is a blank or a sign. -/
theorem mem_ntoaPrefix {c : Char} (h : c ∈ ntoaPrefix value negative base prec width fl) :
    c ≠ ' ' ∧ c ≠ '-' ∧ c ≠ '+' := by
  have hchars : c ∈ prefixLetter base fl ++ ['0'] := by
    unfold ntoaPrefix at h
    split at h
    · exact List.mem_of_mem_take h
    · simp at h
  rcases List.mem_append.mp hchars with h | h
  · unfold prefixLetter at h
    split_ifs at h <;> simp at h <;> subst h <;> decide
  · simp at h
    subst h
    decide

/-- The prefix is broken when its letter takes the last place. -/
def PrefixBroken : Prop :=
  fl.hash = true ∧ value ≠ 0 ∧ (base = 16 ∨ base = 2) ∧
    ntoaKept value negative base prec width fl = 31

instance : Decidable (PrefixBroken value negative base prec width fl) := by
  unfold PrefixBroken
  infer_instance

theorem prefixLetter_cases :
    (prefixLetter base fl = [] ∧ ¬ (base = 16 ∨ base = 2)) ∨
      ∃ c, prefixLetter base fl = [c] ∧ IsPrefixOf base c ∧ (base = 16 ∨ base = 2) := by
  unfold prefixLetter
  by_cases h16 : base = 16
  · right
    refine ⟨_, if_pos h16, Or.inl ⟨h16, ?_⟩, Or.inl h16⟩
    cases fl.uppercase <;> simp
  · by_cases h2 : base = 2
    · right
      exact ⟨'b', by rw [if_neg h16, if_pos h2], Or.inr ⟨h2, rfl⟩, Or.inr h2⟩
    · left
      exact ⟨by rw [if_neg h16, if_neg h2], by tauto⟩

/-- The digits with their prefix. -/
theorem readNat_ntoa (hbase : 1 < base) (hbase' : base ≤ 16) {ds : List ℕ}
    (hlt : ∀ d ∈ ds, d < base) :
    readNat base ((ntoaPrefix value negative base prec width fl).reverse ++
        (ds.map (digitChar fl.uppercase)).reverse) =
      if PrefixBroken value negative base prec width fl then none
      else some (Nat.ofDigits base ds) := by
  have hdigits : ∀ es : List ℕ, (∀ d ∈ es, d < base) →
      readNat base (es.map (digitChar fl.uppercase)).reverse = some (Nat.ofDigits base es) := by
    intro es hes
    rw [readNat_unprefixed, readDigits_map_reverse hbase' _ hes]
    intro c hc
    obtain ⟨d, hd, rfl⟩ := List.mem_map.mp (List.mem_reverse.mp hc)
    exact not_isPrefixOf_digitChar hbase' _ (hes d hd)
  by_cases hhash : fl.hash = true ∧ value ≠ 0
  · have hpre : ntoaPrefix value negative base prec width fl =
        prefixChars base (ntoaKept value negative base prec width fl) fl := by
      simp [ntoaPrefix, hhash]
    rw [hpre, prefixChars]
    rcases prefixLetter_cases base fl with ⟨hletter, hother⟩ | ⟨c, hletter, hc, hcase⟩
    · have hintact : ¬ PrefixBroken value negative base prec width fl := fun h => hother h.2.2.1
      have hzero : digitChar fl.uppercase 0 = '0' := by
        cases fl.uppercase <;> decide
      rw [hletter, if_neg hintact]
      rcases Nat.eq_zero_or_pos (ntoaBufferSize - ntoaKept value negative base prec width fl) with
        hfull | hroom
      · rw [hfull]
        exact hdigits ds hlt
      · have hone : (['0'].take (ntoaBufferSize - ntoaKept value negative base prec width fl)) =
            ['0'] := List.take_of_length_le hroom
        have hmore := hdigits (ds ++ [0]) (by
          intro d hd
          rcases List.mem_append.mp hd with hd | hd
          · exact hlt d hd
          · have := List.mem_singleton.mp hd
            omega)
        rw [Nat.ofDigits_append_zero, List.map_append, List.map_singleton, hzero,
          List.reverse_append] at hmore
        rw [List.nil_append, hone]
        exact hmore
    · have hsize : ntoaBufferSize = 32 := rfl
      rw [hletter]
      obtain hfull | hlast | hroom :
          ntoaBufferSize - ntoaKept value negative base prec width fl = 0 ∨
          ntoaBufferSize - ntoaKept value negative base prec width fl = 1 ∨
          2 ≤ ntoaBufferSize - ntoaKept value negative base prec width fl := by omega
      · have hintact : ¬ PrefixBroken value negative base prec width fl := by
          rintro ⟨-, -, -, h⟩
          omega
        rw [hfull, if_neg hintact]
        exact hdigits ds hlt
      · have hbroken : PrefixBroken value negative base prec width fl :=
          ⟨hhash.1, hhash.2, hcase, by omega⟩
        rw [hlast, if_pos hbroken]
        exact readNat_half_prefixed hc _
      · have hintact : ¬ PrefixBroken value negative base prec width fl := by
          rintro ⟨-, -, -, h⟩
          omega
        rw [List.take_of_length_le (by simpa using hroom), if_neg hintact]
        exact (readNat_prefixed hc _).trans (readDigits_map_reverse hbase' _ hlt)
  · have hintact : ¬ PrefixBroken value negative base prec width fl := fun h => hhash ⟨h.1, h.2.1⟩
    have hpre : ntoaPrefix value negative base prec width fl = [] := by
      rw [ntoaPrefix, if_neg (by simpa using hhash)]
    rw [hpre, if_neg hintact]
    exact hdigits ds hlt

/-- There is a place for the sign. -/
def SignFits : Prop :=
  ntoaKept value negative base prec width fl +
    (ntoaPrefix value negative base prec width fl).length < ntoaBufferSize

instance : Decidable (SignFits value negative base prec width fl) := by
  unfold SignFits
  infer_instance

/-- What a reader finds in the field. -/
theorem readInt_ntoaText (hbase : 1 < base) (hbase' : base ≤ 16) :
    readInt base (ntoaText value negative base prec width fl) =
      if PrefixBroken value negative base prec width fl then none
      else if negative = true ∧ SignFits value negative base prec width fl then
        some (-((value % base ^ ntoaKept value negative base prec width fl : ℕ) : ℤ))
      else some ((value % base ^ ntoaKept value negative base prec width fl : ℕ) : ℤ) := by
  obtain ⟨ds, hlt, -, hval, hbuf⟩ := ntoaBuf_eq value negative base prec width fl hbase
  have hnat := readNat_ntoa value negative base prec width fl hbase hbase' hlt
  have hbody : ∀ c ∈ (ntoaPrefix value negative base prec width fl).reverse ++
      (ds.map (digitChar fl.uppercase)).reverse, c ≠ ' ' ∧ c ≠ '-' ∧ c ≠ '+' := by
    intro c hc
    rcases List.mem_append.mp hc with hc | hc
    · exact mem_ntoaPrefix value negative base prec width fl (List.mem_reverse.mp hc)
    · obtain ⟨d, hd, rfl⟩ := List.mem_map.mp (List.mem_reverse.mp hc)
      exact digitChar_ne _ ((hlt d hd).trans_le hbase')
  have htext : ntoaText value negative base prec width fl =
      List.replicate (if !fl.left && !fl.zeropad then
        ntoaWidth negative width fl - (ntoaBuf value negative base prec width fl).length else 0) ' ' ++
        ((ntoaSign value negative base prec width fl).reverse ++
          ((ntoaPrefix value negative base prec width fl).reverse ++
            (ds.map (digitChar fl.uppercase)).reverse)) ++
      List.replicate (if fl.left then
        ntoaWidth negative width fl - (ntoaBuf value negative base prec width fl).length else 0) ' ' := by
    rw [ntoaText, outRevText]
    congr 2
    rw [hbuf, List.reverse_append, List.reverse_append]
  generalize (if !fl.left && !fl.zeropad then
    ntoaWidth negative width fl - (ntoaBuf value negative base prec width fl).length else 0) = m at htext
  generalize (if fl.left then
    ntoaWidth negative width fl - (ntoaBuf value negative base prec width fl).length else 0) = n at htext
  rw [htext, ← hval]
  by_cases hfits : SignFits value negative base prec width fl
  · have hroom : ntoaSign value negative base prec width fl =
        if negative then ['-'] else if fl.plus then ['+'] else if fl.space then [' '] else [] :=
      if_pos hfits
    rw [hroom]
    cases negative with
    | true =>
        rw [if_pos rfl, List.reverse_singleton, List.singleton_append, readInt_pad_minus hbody, hnat]
        simp only [hfits, true_and, if_true]
        split <;> rfl
    | false =>
        simp only [Bool.false_eq_true, if_false, false_and]
        have hblank : List.replicate m ' ' ++ [' '] = List.replicate (m + 1) ' ' :=
          List.replicate_succ'.symm
        cases fl.plus with
        | true =>
            rw [if_pos rfl, List.reverse_singleton, List.singleton_append, readInt_pad_plus hbody,
              hnat]
            split <;> rfl
        | false =>
            cases fl.space with
            | true =>
                rw [if_neg Bool.false_ne_true, if_pos rfl, List.reverse_singleton,
                  ← List.append_assoc (List.replicate m ' '), hblank, readInt_pad hbody, hnat]
                split <;> rfl
            | false =>
                rw [if_neg Bool.false_ne_true, if_neg Bool.false_ne_true, List.reverse_nil,
                  List.nil_append, readInt_pad hbody, hnat]
                split <;> rfl
  · have hroom : ntoaSign value negative base prec width fl = [] := if_neg hfits
    rw [hroom, List.reverse_nil, List.nil_append, readInt_pad hbody, hnat]
    simp only [hfits, and_false, if_false]
    split <;> rfl

/-- **A conversion read back.** The text is that of the number just when the
digits that are kept are enough for it, the prefix is not cut in two, and the
sign of a negative number finds a place. -/
theorem ntoa_reads_back_iff (hbase : 1 < base) (hbase' : base ≤ 16) :
    readInt base (ntoaText value negative base prec width fl) =
        some (if negative then -(value : ℤ) else value) ↔
      value < base ^ ntoaKept value negative base prec width fl ∧
      ¬ PrefixBroken value negative base prec width fl ∧
      (negative = true → value ≠ 0 → SignFits value negative base prec width fl) := by
  have hmod : value % base ^ ntoaKept value negative base prec width fl = value ↔
      value < base ^ ntoaKept value negative base prec width fl :=
    Nat.mod_eq_iff_lt (by positivity)
  rw [readInt_ntoaText value negative base prec width fl hbase hbase', ← hmod]
  have hle : value % base ^ ntoaKept value negative base prec width fl ≤ value := Nat.mod_le _ _
  generalize value % base ^ ntoaKept value negative base prec width fl = kept at hle ⊢
  by_cases hbroken : PrefixBroken value negative base prec width fl
  · simp [hbroken]
  · rw [if_neg hbroken]
    cases negative with
    | false => simp [hbroken]
    | true =>
        by_cases hfits : SignFits value true base prec width fl
        · simp [hbroken, hfits]
        · simp [hbroken, hfits]
          omega

/-! ## The field width -/

theorem outRevText_length (buf : List Char) (left zeropad : Bool) :
    (outRevText buf width left zeropad).length =
      if left = true ∨ zeropad = false then max buf.length width else buf.length := by
  cases left <;> cases zeropad <;> simp [outRevText] <;> omega

/-- The prefix takes at least the place of what was taken back for it. -/
theorem ntoaLen_le_prefix :
    ntoaLen value negative base prec width fl ≤ ntoaKept value negative base prec width fl +
      (ntoaPrefix value negative base prec width fl).length := by
  have hsize : ntoaBufferSize = 32 := rfl
  have hlen := ntoaLen_le value negative base prec width fl
  unfold ntoaPrefix ntoaKept ntoaStripped
  by_cases hhash : (fl.hash && decide (value ≠ 0)) = true
  · simp only [hhash, if_true]
    unfold strippedCount prefixChars
    split
    · split
      · rename_i h16
        have hletter : (prefixLetter base fl).length = 1 := by
          have hbase : base = 16 := by simpa using (Bool.and_eq_true_iff.mp h16).2
          simp [prefixLetter, hbase]
        simp only [List.length_take, List.length_append, List.length_singleton, hletter]
        omega
      · simp only [List.length_take, List.length_append, List.length_singleton]
        omega
    · omega
  · simp only [hhash, Bool.false_eq_true, if_false]
    omega

/-- The field is filled: with the sign in its place, the zeros go up to the width
as long as the buffer does. -/
theorem width_le_ntoaBuf (hbase : 1 < base) (hzero : fl.zeropad = true) (hleft : fl.left = false)
    (hwidth : width ≤ 32) :
    width ≤ (ntoaBuf value negative base prec width fl).length := by
  have hsize : ntoaBufferSize = 32 := rfl
  obtain ⟨ds, -, hlen, -, hbuf⟩ := ntoaBuf_eq value negative base prec width fl hbase
  have hpre := ntoaLen_le_prefix value negative base prec width fl
  have hw : min (ntoaWidth negative width fl) 32 ≤ ntoaLen value negative base prec width fl := by
    simp only [ntoaLen, hzero, hleft, if_true, Bool.false_eq_true, if_false]
    omega
  have hsign : ntoaWidth negative width fl + 1 = width →
      ntoaKept value negative base prec width fl +
        (ntoaPrefix value negative base prec width fl).length < 32 →
      (ntoaSign value negative base prec width fl).length = 1 := by
    intro hshort hroom
    unfold ntoaSign signText
    rw [if_pos hroom]
    unfold ntoaWidth at hshort
    split at hshort
    · rename_i h
      cases negative <;> cases hplus : fl.plus <;> cases hspace : fl.space <;> simp_all
    · omega
  have hcases : ntoaWidth negative width fl = width ∨ ntoaWidth negative width fl + 1 = width := by
    unfold ntoaWidth
    split
    · rename_i h
      have : width ≠ 0 := by simp at h; tauto
      omega
    · exact Or.inl rfl
  rw [hbuf]
  simp only [List.length_append, List.length_map, hlen]
  rcases hcases with h | h
  · omega
  · have := hsign h
    omega

/-- **The field width.** A conversion is at least as wide as its field, except
when it is to be filled with zeros beyond the buffer; and it is never wider
than the field and the buffer. -/
theorem ntoaText_width (hbase : 1 < base) :
    (width ≤ (ntoaText value negative base prec width fl).length ↔
      (fl.zeropad = true → fl.left = false → width ≤ 32)) ∧
    (ntoaText value negative base prec width fl).length ≤ max width 32 := by
  have hbuf := ntoaBuf_length_le value negative base prec width fl hbase
  have hsize : ntoaBufferSize = 32 := rfl
  have hle := ntoaWidth_le negative width fl
  rw [ntoaText, outRevText_length]
  cases hleft : fl.left with
  | true =>
      have hsame : ntoaWidth negative width fl = width := by simp [ntoaWidth, hleft]
      simp only [hsame, true_or, if_true]
      refine ⟨?_, by omega⟩
      simp
  | false =>
      cases hzero : fl.zeropad with
      | false =>
          have hsame : ntoaWidth negative width fl = width := by simp [ntoaWidth, hzero]
          simp only [hsame, or_true, if_true]
          refine ⟨?_, by omega⟩
          simp
      | true =>
          have hfill := width_le_ntoaBuf value negative base prec width fl hbase hzero hleft
          simp only [Bool.false_eq_true, Bool.true_eq_false, or_self, if_false, forall_const]
          refine ⟨⟨?_, hfill⟩, ?_⟩
          · omega
          · omega

end Conversion

/-- Zeros up to a width of 40 stop at the buffer. -/
theorem ntoaText_width_forty : (ntoaText 5 true 10 0 40 { zeropad := true }).length ≤ 40 ∧
    ¬ 40 ≤ (ntoaText 5 true 10 0 40 { zeropad := true }).length := by
  have h := ntoaText_width 5 true 10 0 40 { zeropad := true } (by norm_num)
  exact ⟨h.2.trans (by decide), fun hle => absurd (h.1.mp hle rfl rfl) (by decide)⟩

/-- `%#06x` of five digits: the prefix takes the one zero, and a digit with it. -/
example : ntoaText 0x12345 false 16 0 6 { hash := true, zeropad := true } = "0x2345".toList := by
  decide

end Phytium.Port
