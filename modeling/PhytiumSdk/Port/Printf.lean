import PhytiumSdk.Port.Signature

/-!
# The printf family

The functions of `debug_printf.h` differ in the output function and the length
they give to `_vsnprintf`. All of them make the same text of a format and its
arguments and return its length; what they do with it is said for each output
function.
-/

namespace Phytium.Port

open Lib.Munch

universe u
variable {σ : Type u} {δ : Type} (ft : FloatText δ)

/-! ## The functions -/

/-- `(size_t)-1`. -/
abbrev sizeMax : BitVec 64 := -1

/-- `vprintf_`, over the characters `_putchar` was given. -/
def vprintf (putchar : Char → σ → σ) (line : σ) (format : List Char) (va : VaList δ) :
    Option (BitVec 32 × σ) :=
  vsnprintfInternal ft (outChar putchar) false line sizeMax format va

/-- `printf_`. -/
def printf (putchar : Char → σ → σ) (line : σ) (format : List Char) (va : VaList δ) :
    Option (BitVec 32 × σ) :=
  vsnprintfInternal ft (outChar putchar) false line sizeMax format va

/-- `vsnprintf_`; `null` is a null `buffer`. -/
def vsnprintf (null : Bool) (buffer : ℕ → Char) (count : BitVec 64) (format : List Char)
    (va : VaList δ) : Option (BitVec 32 × (ℕ → Char)) :=
  vsnprintfInternal ft outBuffer null buffer count format va

/-- `snprintf_`. -/
def snprintf (null : Bool) (buffer : ℕ → Char) (count : BitVec 64) (format : List Char)
    (va : VaList δ) : Option (BitVec 32 × (ℕ → Char)) :=
  vsnprintfInternal ft outBuffer null buffer count format va

/-- `sprintf_`. -/
def sprintf (null : Bool) (buffer : ℕ → Char) (format : List Char) (va : VaList δ) :
    Option (BitVec 32 × (ℕ → Char)) :=
  vsnprintfInternal ft outBuffer null buffer sizeMax format va

/-- `fctprintf`; the wrapper that is its buffer is never null. -/
def fctprintf (out : Char → σ → σ) (arg : σ) (format : List Char) (va : VaList δ) :
    Option (BitVec 32 × σ) :=
  vsnprintfInternal ft (outFct out) false arg sizeMax format va

/-- The levels of `debug_print`. -/
inductive DebugLevel where
  | error
  | info
  | warning
  | log
  | verbose
  | other
  deriving DecidableEq, Repr

/-- The escape sequences of `fdrivers_port.h`. -/
def colorReset : List Char := ['\x1b', '[', '0', 'm']
def colorRed : List Char := ['\x1b', '[', '3', '1', 'm']
def colorGreen : List Char := ['\x1b', '[', '3', '2', 'm']
def colorYellow : List Char := ['\x1b', '[', '3', '3', 'm']
def colorWhite : List Char := ['\x1b', '[', '3', '7', 'm']

def levelTag : DebugLevel → List Char
  | .error => colorRed ++ "[ERRO] ".toList
  | .info => colorGreen ++ "[INFO] ".toList
  | .warning => colorYellow ++ "[WARN] ".toList
  | .log => colorWhite ++ "[DBUG] ".toList
  | .verbose => colorWhite ++ "[VBOS] ".toList
  | .other => colorReset ++ "[UNKN] ".toList

/-- `debug_print`. It returns 0, whatever is printed. -/
def debugPrint (putchar : Char → σ → σ) (level : DebugLevel) (line : σ) (format : List Char)
    (va : VaList δ) : Option σ :=
  (printf ft putchar line (levelTag level ++ ['\x00']) []).bind fun (_, line) =>
  (vprintf ft putchar line format va).bind fun (_, line) =>
  (printf ft putchar line (colorReset ++ ['\r', '\n', '\x00']) []).map fun (_, line) => line

/-! ## One text for all of them -/

/-- The text of a format and its arguments. -/
def textOf (format : List Char) (va : VaList δ) : Option (List Char) :=
  (scan format.length format).bind fun ks => (formatText ft ks va).map Prod.fst

theorem vsnprintfInternal_eq (out : OutFct σ) (null : Bool) (buffer : σ) (maxlen : BitVec 64)
    (format : List Char) (va : VaList δ) :
    vsnprintfInternal ft out null buffer maxlen format va =
      (textOf ft format va).map fun text =>
        let out := if null then outNull else out
        let len := BitVec.ofNat 64 text.length
        (BitVec.ofNat 32 text.length,
          out '\x00' (if len < maxlen then len else maxlen - 1) maxlen
            (puts out maxlen ⟨buffer, 0⟩ text).buffer) := by
  unfold vsnprintfInternal textOf
  dsimp only
  generalize (if null then outNull else out) = out
  rw [formatLoop_eq]
  rcases scan format.length format with _ | ks
  · rfl
  · simp only [Option.bind_some]
    rcases formatText ft ks va with _ | ⟨text, va'⟩
    · rfl
    · have hidx := puts_idx out maxlen ⟨buffer, 0⟩ text
      have hret : (BitVec.ofNat 64 text.length).setWidth 32 = BitVec.ofNat 32 text.length := by
        apply BitVec.eq_of_toNat_eq
        simp only [BitVec.toNat_setWidth, BitVec.toNat_ofNat]
        omega
      rw [BitVec.ofNat_eq_ofNat, BitVec.zero_add] at hidx
      simp only [Option.map_some, BitVec.ofNat_eq_ofNat, hidx, hret]

/-! ## What the output functions do with it -/

theorem puts_outNull (maxlen : BitVec 64) (o : Out σ) (text : List Char) :
    (puts outNull maxlen o text).buffer = o.buffer := by
  induction text generalizing o with
  | nil => rfl
  | cons c text ih =>
      rw [puts_cons, ih]
      rfl

theorem puts_outFct (fct : Char → σ → σ) (maxlen : BitVec 64) (o : Out σ) (text : List Char) :
    (puts (outFct fct) maxlen o text).buffer =
      (text.filter (· ≠ '\x00')).foldl (fun arg c => fct c arg) o.buffer := by
  induction text generalizing o with
  | nil => rfl
  | cons c text ih =>
      rw [puts_cons, ih]
      by_cases hnul : c = '\x00'
      · simp [hnul, put, outFct]
      · simp [hnul, put, outFct]

/-- What `snprintf_` leaves in `count` characters. -/
def stored (text : List Char) (count : ℕ) : List Char :=
  (text.take (count - 1) ++ ['\x00']).take count

/-- A row of characters laid over a buffer. -/
def overlay (cs : List Char) (buffer : ℕ → Char) : ℕ → Char := fun i => (cs[i]?).getD (buffer i)

theorem overlay_concat (cs : List Char) (c : Char) (buffer : ℕ → Char) :
    overlay (cs ++ [c]) buffer = Function.update (overlay cs buffer) cs.length c := by
  funext i
  rcases lt_trichotomy i cs.length with h | rfl | h
  · rw [Function.update_of_ne h.ne]
    simp [overlay, List.getElem?_append_left h]
  · simp [overlay]
  · rw [Function.update_of_ne h.ne']
    have hnone : (cs ++ [c])[i]? = none := List.getElem?_eq_none (by simp; omega)
    have hnone' : cs[i]? = none := List.getElem?_eq_none (by omega)
    simp [overlay, hnone, hnone']

theorem outBuffer_of_lt {idx maxlen : BitVec 64} (h : idx.toNat < maxlen.toNat) (c : Char)
    (buffer : ℕ → Char) : outBuffer c idx maxlen buffer = Function.update buffer idx.toNat c :=
  if_pos (BitVec.lt_def.mpr h)

theorem outBuffer_of_le {idx maxlen : BitVec 64} (h : maxlen.toNat ≤ idx.toNat) (c : Char)
    (buffer : ℕ → Char) : outBuffer c idx maxlen buffer = buffer :=
  if_neg fun hlt => absurd (BitVec.lt_def.mp hlt) (by omega)

theorem puts_outBuffer (maxlen : BitVec 64) (buffer : ℕ → Char) {text : List Char}
    (hlen : text.length < 2 ^ 64) :
    (puts outBuffer maxlen ⟨buffer, 0⟩ text).buffer = overlay (text.take maxlen.toNat) buffer := by
  induction text using List.reverseRecOn with
  | nil =>
      funext i
      simp [overlay]
  | append_singleton text c ih =>
      rw [List.length_append, List.length_singleton] at hlen
      have hidx : (puts outBuffer maxlen ⟨buffer, 0⟩ text).idx.toNat = text.length := by
        rw [puts_idx]
        simp
        omega
      rw [puts_append, puts_singleton]
      show outBuffer c _ maxlen _ = _
      rw [ih (by omega)]
      by_cases hroom : text.length < maxlen.toNat
      · rw [outBuffer_of_lt (by omega), hidx, List.take_of_length_le hroom.le,
          List.take_of_length_le (by simp; omega), overlay_concat]
      · rw [outBuffer_of_le (by omega), List.take_append_of_le_length (by omega)]

/-- The text in a buffer of `count` characters, with its terminator. -/
theorem outBuffer_stored (count : BitVec 64) (buffer : ℕ → Char) {text : List Char}
    (hlen : text.length < 2 ^ 64) :
    outBuffer '\x00'
        (if BitVec.ofNat 64 text.length < count then BitVec.ofNat 64 text.length else count - 1)
        count (puts outBuffer count ⟨buffer, 0⟩ text).buffer =
      overlay (stored text count.toNat) buffer := by
  have hnat : (BitVec.ofNat 64 text.length).toNat = text.length := by
    simp
    omega
  rw [puts_outBuffer count buffer hlen]
  by_cases hfits : text.length < count.toNat
  · have hall : stored text count.toNat = text ++ ['\x00'] := by
      rw [stored, List.take_of_length_le (l := text) (by omega),
        List.take_of_length_le (by simp; omega)]
    rw [if_pos (BitVec.lt_def.mpr (by omega)), outBuffer_of_lt (by omega), hnat, hall,
      overlay_concat, List.take_of_length_le (by omega)]
  · rw [if_neg fun hlt => hfits (by rw [← hnat]; exact BitVec.lt_def.mp hlt)]
    rcases Nat.eq_zero_or_pos count.toNat with hzero | hpos
    · have hcount : count = 0 := BitVec.eq_of_toNat_eq (by simpa using hzero)
      subst hcount
      rw [outBuffer_of_le (by decide)]
      simp [stored]
    · have hlast : (count - 1).toNat = count.toNat - 1 := by bv_omega
      have hshort : (text.take (count.toNat - 1)).length = count.toNat - 1 := by
        rw [List.length_take]
        omega
      have hcut : stored text count.toNat = text.take (count.toNat - 1) ++ ['\x00'] :=
        List.take_of_length_le (by rw [List.length_append, hshort]; simp; omega)
      have htake : text.take count.toNat =
          text.take (count.toNat - 1) ++ [text[count.toNat - 1]] := by
        rw [List.take_append_getElem]
        congr 1
        omega
      rw [outBuffer_of_lt (by omega), hlast, hcut, htake, overlay_concat, overlay_concat, hshort,
        Function.update_idem]

/-! ## Formats and arguments that have a text -/

/-- A format that is written down from pieces has their text. -/
theorem textOf_formatOf {ps : List PieceSyntax} (hok : ∀ p ∈ ps, p.Ok) (beyond : List Char)
    (va : VaList δ) :
    textOf ft (formatOf ps ++ '\x00' :: beyond) va =
      (formatText ft (ps.map PieceSyntax.piece) va).map Prod.fst := by
  have hscan := (scan_iff le_rfl).mpr ⟨ps, beyond, hok, rfl, rfl⟩
  rw [textOf, hscan]
  rfl

/-- **What a format means.** Of a format that is written down from pieces, up to
its terminator, the interpreter makes the texts of the pieces in their order,
each from the arguments the ones before it leave; it returns their length and
hands the buffer over with a terminator behind them, or in the last place when
they do not fit. -/
theorem vsnprintfInternal_formatOf (out : OutFct σ) (buffer : σ) (maxlen : BitVec 64)
    {ps : List PieceSyntax} (hok : ∀ p ∈ ps, p.Ok) (beyond : List Char) (va : VaList δ) :
    vsnprintfInternal ft out false buffer maxlen (formatOf ps ++ '\x00' :: beyond) va =
      (formatText ft (ps.map PieceSyntax.piece) va).map fun (text, _) =>
        let len := BitVec.ofNat 64 text.length
        (BitVec.ofNat 32 text.length,
          out '\x00' (if len < maxlen then len else maxlen - 1) maxlen
            (puts out maxlen ⟨buffer, 0⟩ text).buffer) := by
  rw [vsnprintfInternal_eq, textOf_formatOf ft hok, Option.map_map]
  rfl

/-- `"n=%-5d|"` of -42. -/
theorem vsnprintfInternal_formatOf_field :
    vsnprintfInternal (δ := Unit) ⟨fun _ _ _ _ => [], fun _ _ _ _ => []⟩ (outChar List.cons)
        false [] sizeMax "n=%-5d|\x00".toList [.int (-42)] =
      some (8, "|  24-=n".toList) := by
  let d : DirectiveSyntax := ⟨['-'], .digits ['5'], none, .absent, 'd'⟩
  have hd : d.Ok :=
    ⟨List.all_eq_true.mp (by decide), next_cons.mpr (by decide),
      ⟨by decide, List.all_eq_true.mp (by decide), next_cons.mpr (by decide)⟩,
      next_cons.mpr (by decide), next_cons.mpr (by decide)⟩
  have hok : ∀ p ∈ [PieceSyntax.lit 'n', .lit '=', .directive d, .lit '|'], p.Ok := by
    simp only [List.mem_cons, List.not_mem_nil, or_false, forall_eq_or_imp, forall_eq]
    refine ⟨?_, ?_, hd, ?_⟩ <;> exact ⟨by decide, by decide⟩
  have h := vsnprintfInternal_formatOf (δ := Unit) ⟨fun _ _ _ _ => [], fun _ _ _ _ => []⟩
    (outChar List.cons) [] sizeMax hok [] [.int (-42)]
  exact h.trans (by decide)

theorem append_nul_inj {body a b : List Char} (hnul : '\x00' ∉ body)
    (h : body ++ ['\x00'] = a ++ '\x00' :: b) : a = body ∧ b = [] := by
  induction body generalizing a with
  | nil =>
      cases a with
      | nil =>
          cases h
          exact ⟨rfl, rfl⟩
      | cons c a => simp at h
  | cons d body ih =>
      cases a with
      | nil =>
          cases h
          simp at hnul
      | cons c a =>
          rw [List.cons_append, List.cons_append] at h
          obtain ⟨rfl, hrest⟩ := List.cons.inj h
          obtain ⟨rfl, rfl⟩ := ih (fun hmem => hnul (List.mem_cons_of_mem _ hmem)) hrest
          exact ⟨rfl, rfl⟩

/-- **Which formats and arguments are safe.** The interpreter stays within its
format and finds an argument of the right type wherever it takes one just when
the format is a row of literals and whole directives, and the arguments begin
with what these ask for. -/
theorem vsnprintfInternal_isSome_iff (out : OutFct σ) (null : Bool) (buffer : σ)
    (maxlen : BitVec 64) {body : List Char} {va : VaList δ} (hnul : '\x00' ∉ body)
    (hterm : ∀ a ∈ va, a.Terminated) :
    (vsnprintfInternal ft out null buffer maxlen (body ++ ['\x00']) va).isSome ↔
      ∃ ps, (∀ p ∈ ps, PieceSyntax.Ok p) ∧ body = formatOf ps ∧
        signature (ps.map PieceSyntax.piece) <+: va.map Arg.type := by
  rw [vsnprintfInternal_eq, Option.isSome_map]
  constructor
  · intro h
    obtain ⟨text, htext⟩ := Option.isSome_iff_exists.mp h
    obtain ⟨ks, hscan, hks⟩ := Option.bind_eq_some_iff.mp htext
    obtain ⟨⟨t, va'⟩, hrun, -⟩ := Option.map_eq_some_iff.mp hks
    obtain ⟨ps, beyond, hok, hbody, rfl⟩ := (scan_iff le_rfl).mp hscan
    obtain ⟨used, rfl, htypes⟩ := formatText_takes hrun
    refine ⟨ps, hok, (append_nul_inj hnul hbody).1.symm, va'.map Arg.type, ?_⟩
    rw [← htypes, List.map_append]
  · rintro ⟨ps, hok, rfl, rest, hrest⟩
    obtain ⟨used, va', rfl, hused, -⟩ := List.map_eq_append_iff.mp hrest.symm
    have htakes : Takes (signature (ps.map PieceSyntax.piece)) (used ++ va') va' :=
      ⟨used, rfl, hused⟩
    obtain ⟨text, htext⟩ := formatText_of_takes ft htakes hterm
    rw [textOf_formatOf ft hok, htext]
    rfl

/-- `"%*d"` asks for two numbers, and a string will not do for the second. -/
theorem vsnprintfInternal_isSome_iff_star :
    ¬ ∃ ps, (∀ p ∈ ps, PieceSyntax.Ok p) ∧ "%*d".toList = formatOf ps ∧
      signature (ps.map PieceSyntax.piece) <+:
        [Arg.int 5, Arg.ptr 1 ['a', '\x00']].map (Arg.type (δ := Unit)) := by
  have hnul : '\x00' ∉ "%*d".toList := by decide
  have hterm : ∀ a ∈ [Arg.int 5, Arg.ptr 1 ['a', '\x00']], Arg.Terminated (δ := Unit) a := by
    intro a ha
    rcases List.mem_pair.mp ha with rfl | rfl
    · exact trivial
    · exact List.mem_cons_of_mem _ (List.mem_singleton_self _)
  have h := vsnprintfInternal_isSome_iff (δ := Unit)
    ⟨fun _ _ _ _ => [], fun _ _ _ _ => []⟩ (outChar List.cons) false [] sizeMax hnul hterm
  exact fun hps => absurd (h.mpr hps) (by decide)

/-! ## What the functions do -/

/-- The text on its way through `_putchar`. -/
theorem vsnprintfInternal_outChar (putchar : Char → σ → σ) (line : σ) (format : List Char)
    (va : VaList δ) :
    vsnprintfInternal ft (outChar putchar) false line sizeMax format va =
      (textOf ft format va).map fun text => (BitVec.ofNat 32 text.length,
        (text.filter (· ≠ '\x00')).foldl (fun line c => putchar c line) line) := by
  rw [vsnprintfInternal_eq]
  congr 1
  funext text
  exact congrArg (Prod.mk (BitVec.ofNat 32 text.length))
    (puts_outFct putchar sizeMax ⟨line, 0⟩ text)

/-- **One text for all.** Whatever a format and its arguments give, every
function of the family returns its length; `_putchar` and the function of
`fctprintf` get the text without terminators in it, a buffer of `count`
characters gets as much of it as fits and a terminator, and a null buffer
nothing. -/
theorem printf_family {format : List Char} {va : VaList δ} {text : List Char}
    (htext : textOf ft format va = some text) (hlen : text.length < 2 ^ 64)
    (putchar : Char → σ → σ) (line : σ) (buffer : ℕ → Char) (count : BitVec 64) :
    printf ft putchar line format va = some (BitVec.ofNat 32 text.length,
      (text.filter (· ≠ '\x00')).foldl (fun line c => putchar c line) line) ∧
    fctprintf ft putchar line format va = some (BitVec.ofNat 32 text.length,
      (text.filter (· ≠ '\x00')).foldl (fun line c => putchar c line) line) ∧
    snprintf ft false buffer count format va = some (BitVec.ofNat 32 text.length,
      overlay (stored text count.toNat) buffer) ∧
    snprintf ft true buffer count format va = some (BitVec.ofNat 32 text.length, buffer) := by
  have hstored := outBuffer_stored count buffer hlen
  have hline := vsnprintfInternal_outChar ft putchar line format va
  rw [htext] at hline
  have hnull := puts_outNull count ⟨buffer, 0⟩ text
  refine ⟨?_, ?_, ?_, ?_⟩
  · exact hline
  · exact hline
  · rw [snprintf, vsnprintfInternal_eq, htext]
    exact congrArg (fun b => some (BitVec.ofNat 32 text.length, b)) hstored
  · rw [snprintf, vsnprintfInternal_eq, htext]
    exact congrArg (fun b => some (BitVec.ofNat 32 text.length, b)) hnull

/-- `"%u!"` of 4711 in a buffer of four characters. -/
theorem printf_family_short :
    snprintf (δ := Unit) ⟨fun _ _ _ _ => [], fun _ _ _ _ => []⟩ false (fun _ => '#') 4
        "%u!\x00".toList [.int 4711] =
      some (5, overlay ['4', '7', '1', '\x00'] fun _ => '#') := by
  have htext : textOf (δ := Unit) ⟨fun _ _ _ _ => [], fun _ _ _ _ => []⟩ "%u!\x00".toList
      [.int 4711] = some "4711!".toList := by decide
  exact (printf_family _ htext (by decide) (fun c line => c :: line) [] (fun _ => '#') 4).2.2.1

/-- A text without directives. -/
theorem textOf_literal {s : List Char} (h : ∀ c ∈ s, c ≠ '\x00' ∧ c ≠ '%') (va : VaList δ) :
    textOf ft (s ++ ['\x00']) va = some s := by
  have hformat : formatOf (s.map PieceSyntax.lit) = s := by
    induction s with
    | nil => rfl
    | cons c s ih => simpa [formatOf, PieceSyntax.text] using ih fun c hc => h c (by simp [hc])
  have hrun : formatText ft ((s.map PieceSyntax.lit).map PieceSyntax.piece) va = some (s, va) := by
    clear hformat h
    rw [List.map_map]
    induction s with
    | nil => rfl
    | cons c s ih => simp [formatText, PieceSyntax.piece, ih]
  have hok : ∀ p ∈ s.map PieceSyntax.lit, p.Ok := by
    intro p hp
    obtain ⟨c, hc, rfl⟩ := List.mem_map.mp hp
    exact h c hc
  have := textOf_formatOf ft hok [] va
  rw [hformat, hrun] at this
  exact this

/-- **`debug_print`.** A line gets the tag of its level, the text, and the end
that takes the colour back. -/
theorem debugPrint_eq (putchar : Char → σ → σ) (level : DebugLevel) (line : σ)
    (format : List Char) (va : VaList δ) :
    debugPrint ft putchar level line format va =
      (textOf ft format va).map fun text =>
        (levelTag level ++ text.filter (· ≠ '\x00') ++ colorReset ++ ['\r', '\n']).foldl
          (fun line c => putchar c line) line := by
  have htag : ∀ c ∈ levelTag level, c ≠ '\x00' ∧ c ≠ '%' := by
    rw [← List.forall_iff_forall_mem]
    cases level <;> decide
  have hend : ∀ c ∈ colorReset ++ ['\r', '\n'], c ≠ '\x00' ∧ c ≠ '%' :=
    List.forall_iff_forall_mem.mp (by decide)
  have hfilter : ∀ s : List Char, (∀ c ∈ s, c ≠ '\x00' ∧ c ≠ '%') →
      s.filter (· ≠ '\x00') = s := by
    intro s hs
    rw [List.filter_eq_self]
    intro c hc
    simpa using (hs c hc).1
  have hreset : colorReset ++ ['\r', '\n', '\x00'] =
      (colorReset ++ ['\r', '\n']) ++ ['\x00'] := rfl
  rw [debugPrint, printf, vsnprintfInternal_outChar, textOf_literal ft htag]
  simp only [Option.map_some, Option.bind_some, hfilter _ htag, vprintf,
    vsnprintfInternal_outChar]
  rcases textOf ft format va with _ | text
  · rfl
  · simp only [Option.map_some, Option.bind_some, printf, vsnprintfInternal_outChar]
    rw [hreset, textOf_literal ft hend]
    simp only [Option.map_some, hfilter _ hend, List.foldl_append]

end Phytium.Port
