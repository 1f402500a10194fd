import PhytiumSdk.Port.Directive

/-!
# The grammar of formats

`%[flags][width][.precision][length]specifier`, read with maximal munch: every
part takes what it can, and a directive is well formed when no part would take
characters of the next. The interpreter's parser reads exactly these, and a
format it reads to its end is a row of them.
-/

namespace Phytium.Port

open Lib.Munch

variable {δ : Type}

/-! ## Directives as text -/

/-- The characters of flags. -/
def isFlag (c : Char) : Bool := (flagOf c {}).isSome

/-- A width or a precision. -/
inductive FieldSyntax where
  | absent
  | digits (ds : List Char)
  | star
  deriving DecidableEq, Repr

/-- The number of a row of digits. -/
def decimal (ds : List Char) : ℕ := absorb atoiStep 0 ds

def FieldSyntax.text : FieldSyntax → List Char
  | .absent => []
  | .digits ds => ds
  | .star => ['*']

def FieldSyntax.field : FieldSyntax → Field
  | .absent => .num 0
  | .digits ds => .num (decimal ds)
  | .star => .star

/-- The field ends where `rest` begins. -/
def FieldSyntax.Ok (rest : List Char) : FieldSyntax → Prop
  | .absent => Next (fun c => isDigit c = false ∧ c ≠ '*') rest
  | .digits ds => ds ≠ [] ∧ (∀ c ∈ ds, isDigit c = true) ∧ Next (fun c => isDigit c = false) rest
  | .star => True

/-- The length modifiers. -/
inductive LengthSyntax where
  | absent
  | l
  | ll
  | h
  | hh
  | t
  | j
  | z
  deriving DecidableEq, Repr

def LengthSyntax.text : LengthSyntax → List Char
  | .absent => []
  | .l => ['l']
  | .ll => ['l', 'l']
  | .h => ['h']
  | .hh => ['h', 'h']
  | .t => ['t']
  | .j => ['j']
  | .z => ['z']

def LengthSyntax.length : LengthSyntax → Length
  | .absent => .default
  | .l | .t | .j | .z => .l
  | .ll => .ll
  | .h => .h
  | .hh => .hh

/-- The modifier ends where `rest` begins. -/
def LengthSyntax.Ok (rest : List Char) : LengthSyntax → Prop
  | .absent => Next (fun c => c ≠ 'l' ∧ c ≠ 'h' ∧ c ≠ 't' ∧ c ≠ 'j' ∧ c ≠ 'z') rest
  | .l => Next (· ≠ 'l') rest
  | .h => Next (· ≠ 'h') rest
  | _ => True

/-- A directive, without its `%`. -/
structure DirectiveSyntax where
  flags : List Char
  width : FieldSyntax
  precision : Option FieldSyntax
  length : LengthSyntax
  spec : Char
  deriving DecidableEq, Repr

namespace DirectiveSyntax

variable (d : DirectiveSyntax)

def lengthOn : List Char := d.length.text ++ [d.spec]

def precisionOn : List Char :=
  match d.precision with
  | none => d.lengthOn
  | some field => '.' :: (field.text ++ d.lengthOn)

def widthOn : List Char := d.width.text ++ d.precisionOn

def text : List Char := d.flags ++ d.widthOn

/-- The flags word. -/
def flagWord : Flags := absorb flagOf {} d.flags

/-- What the parser makes of it. -/
def conv : Conv :=
  ⟨d.flagWord, d.width.field, d.precision.map FieldSyntax.field, d.length.length, d.spec⟩

/-- No part would take characters of the next. -/
structure Ok : Prop where
  flags : ∀ c ∈ d.flags, isFlag c = true
  flags_end : Next (fun c => isFlag c = false) d.widthOn
  width : d.width.Ok d.precisionOn
  precision : match d.precision with
    | none => Next (· ≠ '.') d.lengthOn
    | some field => field.Ok d.lengthOn
  length : d.length.Ok [d.spec]

end DirectiveSyntax

/-! ## The parts of the parser -/

theorem flagOf_isSome (c : Char) (fl : Flags) : (flagOf c fl).isSome = isFlag c := by
  unfold isFlag flagOf
  split <;> rfl

theorem atoiStep_isSome (c : Char) (i : ℕ) : (atoiStep c i).isSome = isDigit c := by
  unfold atoiStep
  cases isDigit c <;> rfl

theorem evalFlags_iff {f rest : List Char} {fl : Flags} :
    evalFlags f {} = some (fl, rest) ↔
      ∃ cs, f = cs ++ rest ∧ (∀ c ∈ cs, isFlag c = true) ∧
        Next (fun c => isFlag c = false) rest ∧ fl = absorb flagOf {} cs :=
  munch_iff flagOf_isSome

theorem atoi_iff {f rest : List Char} {n : ℕ} :
    atoi f 0 = some (n, rest) ↔
      ∃ ds, f = ds ++ rest ∧ (∀ c ∈ ds, isDigit c = true) ∧
        Next (fun c => isDigit c = false) rest ∧ n = decimal ds :=
  munch_iff atoiStep_isSome

theorem FieldSyntax.Ok.head {ds rest f : List Char} {c : Char}
    (hok : (FieldSyntax.digits ds).Ok rest) (hf : c :: f = ds ++ rest) : isDigit c = true := by
  cases ds with
  | nil => exact absurd rfl hok.1
  | cons d ds =>
      cases hf
      exact hok.2.1 _ (by simp)

theorem evalField_iff {f rest : List Char} {field : Field} :
    evalField f = some (field, rest) ↔
      ∃ s : FieldSyntax, f = s.text ++ rest ∧ s.Ok rest ∧ field = s.field := by
  cases f with
  | nil =>
      simp only [evalField, reduceCtorEq, false_iff]
      rintro ⟨s, hf, hok, -⟩
      cases s with
      | absent => exact hok.ne_nil hf.symm
      | digits ds => exact hok.1 (List.append_eq_nil_iff.mp hf.symm).1
      | star => cases hf
  | cons c f =>
      rw [evalField]
      cases hdigit : isDigit c with
      | true =>
          rw [if_pos rfl, Option.map_eq_some_iff]
          constructor
          · rintro ⟨⟨n, r⟩, hn, heq⟩
            obtain ⟨ds, hf, hds, hnext, rfl⟩ := atoi_iff.mp hn
            cases heq
            refine ⟨.digits ds, hf, ⟨?_, hds, hnext⟩, rfl⟩
            rintro rfl
            rw [List.nil_append] at hf
            rw [← hf, next_cons, hdigit] at hnext
            cases hnext
          · rintro ⟨s, hf, hok, rfl⟩
            cases s with
            | absent =>
                rw [FieldSyntax.text, List.nil_append] at hf
                rw [← hf, FieldSyntax.Ok, next_cons, hdigit] at hok
                cases hok.1
            | digits ds => exact ⟨_, atoi_iff.mpr ⟨ds, hf, hok.2.1, hok.2.2, rfl⟩, rfl⟩
            | star =>
                cases hf
                exact absurd hdigit (by decide)
      | false =>
          rw [if_neg Bool.false_ne_true]
          by_cases hstar : c = '*'
          · subst hstar
            rw [if_pos rfl]
            constructor
            · intro h
              cases h
              exact ⟨.star, rfl, trivial, rfl⟩
            · rintro ⟨s, hf, hok, rfl⟩
              cases s with
              | absent =>
                  rw [FieldSyntax.text, List.nil_append] at hf
                  rw [← hf, FieldSyntax.Ok, next_cons] at hok
                  exact absurd rfl hok.2
              | digits ds =>
                  rw [FieldSyntax.Ok.head hok hf] at hdigit
                  cases hdigit
              | star =>
                  cases hf
                  rfl
          · rw [if_neg hstar]
            constructor
            · intro h
              cases h
              exact ⟨.absent, rfl, next_cons.mpr ⟨hdigit, hstar⟩, rfl⟩
            · rintro ⟨s, hf, hok, rfl⟩
              cases s with
              | absent =>
                  cases hf
                  rfl
              | digits ds =>
                  rw [FieldSyntax.Ok.head hok hf] at hdigit
                  cases hdigit
              | star =>
                  cases hf
                  exact absurd rfl hstar

theorem precisionField_iff {f rest : List Char} {field : Option Field} :
    precisionField f = some (field, rest) ↔
      (f = rest ∧ field = none ∧ Next (· ≠ '.') rest) ∨
      ∃ s : FieldSyntax, f = '.' :: (s.text ++ rest) ∧ s.Ok rest ∧ field = some s.field := by
  cases f with
  | nil =>
      simp only [precisionField, reduceCtorEq, false_iff]
      rintro (⟨rfl, -, hnext⟩ | ⟨s, hf, -⟩)
      · exact hnext.ne_nil rfl
      · cases hf
  | cons c f =>
      rw [precisionField]
      by_cases hdot : c = '.'
      · subst hdot
        rw [if_pos rfl, Option.map_eq_some_iff]
        constructor
        · rintro ⟨⟨n, r⟩, hn, heq⟩
          cases heq
          obtain ⟨s, rfl, hok, rfl⟩ := evalField_iff.mp hn
          exact Or.inr ⟨s, rfl, hok, rfl⟩
        · rintro (⟨rfl, -, hnext⟩ | ⟨s, hf, hok, rfl⟩)
          · rw [next_cons] at hnext
            exact absurd rfl hnext
          · cases hf
            exact ⟨_, evalField_iff.mpr ⟨s, rfl, hok, rfl⟩, rfl⟩
      · rw [if_neg hdot]
        constructor
        · intro h
          cases h
          exact Or.inl ⟨rfl, rfl, next_cons.mpr hdot⟩
        · rintro (⟨rfl, rfl, -⟩ | ⟨s, hf, -⟩)
          · rfl
          · cases hf
            exact absurd rfl hdot

theorem lengthTwice_iff {c : Char} {once twice length : Length} {f rest : List Char} :
    lengthTwice c once twice f = some (length, rest) ↔
      (f = rest ∧ Next (· ≠ c) rest ∧ length = once) ∨ (f = c :: rest ∧ length = twice) := by
  cases f with
  | nil =>
      simp only [lengthTwice, reduceCtorEq, false_iff, false_and, or_false]
      rintro ⟨rfl, hnext, -⟩
      exact hnext.ne_nil rfl
  | cons d f =>
      rw [lengthTwice]
      by_cases h : d = c
      · subst h
        rw [if_pos rfl]
        constructor
        · intro h
          cases h
          exact Or.inr ⟨rfl, rfl⟩
        · rintro (⟨rfl, hnext, -⟩ | ⟨hf, rfl⟩)
          · rw [next_cons] at hnext
            exact absurd rfl hnext
          · cases hf
            rfl
      · rw [if_neg h]
        constructor
        · intro heq
          cases heq
          exact Or.inl ⟨rfl, next_cons.mpr h, rfl⟩
        · rintro (⟨rfl, -, rfl⟩ | ⟨hf, rfl⟩)
          · rfl
          · cases hf
            exact absurd rfl h

theorem evalLength_iff {f rest : List Char} {length : Length} :
    evalLength f = some (length, rest) ↔
      ∃ s : LengthSyntax, f = s.text ++ rest ∧ s.Ok rest ∧ length = s.length := by
  constructor
  · intro h
    cases f with
    | nil => cases h
    | cons c f =>
        rw [evalLength] at h
        split_ifs at h with hl hh hone
        · subst hl
          rcases lengthTwice_iff.mp h with ⟨rfl, hnext, rfl⟩ | ⟨rfl, rfl⟩
          · exact ⟨.l, rfl, hnext, rfl⟩
          · exact ⟨.ll, rfl, trivial, rfl⟩
        · subst hh
          rcases lengthTwice_iff.mp h with ⟨rfl, hnext, rfl⟩ | ⟨rfl, rfl⟩
          · exact ⟨.h, rfl, hnext, rfl⟩
          · exact ⟨.hh, rfl, trivial, rfl⟩
        · cases h
          rcases hone with rfl | rfl | rfl
          · exact ⟨.t, rfl, trivial, rfl⟩
          · exact ⟨.j, rfl, trivial, rfl⟩
          · exact ⟨.z, rfl, trivial, rfl⟩
        · cases h
          push Not at hone
          exact ⟨.absent, rfl, next_cons.mpr ⟨hl, hh, hone⟩, rfl⟩
  · rintro ⟨s, rfl, hok, rfl⟩
    cases s with
    | absent =>
        obtain ⟨c, r, rfl, hl, hh, ht, hj, hz⟩ := hok
        simp [LengthSyntax.text, LengthSyntax.length, evalLength, hl, hh, ht, hj, hz]
    | l => exact lengthTwice_iff.mpr (Or.inl ⟨rfl, hok, rfl⟩)
    | h => exact lengthTwice_iff.mpr (Or.inl ⟨rfl, hok, rfl⟩)
    | ll | hh | t | j | z => rfl

/-! ## The parser reads the grammar -/

theorem FieldSyntax.ok_append {s : FieldSyntax} {f : List Char} (hf : f ≠ []) (r : List Char) :
    s.Ok (f ++ r) ↔ s.Ok f := by
  cases s with
  | absent => exact next_append hf r
  | digits ds => simp only [FieldSyntax.Ok, next_append hf r]
  | star => exact Iff.rfl

theorem LengthSyntax.ok_append {s : LengthSyntax} {f : List Char} (hf : f ≠ []) (r : List Char) :
    s.Ok (f ++ r) ↔ s.Ok f := by
  cases s with
  | absent => exact next_append hf r
  | l => exact next_append hf r
  | h => exact next_append hf r
  | _ => exact Iff.rfl

namespace DirectiveSyntax

variable (d : DirectiveSyntax)

theorem lengthOn_ne_nil : d.lengthOn ≠ [] := by simp [lengthOn]

theorem precisionOn_ne_nil : d.precisionOn ≠ [] := by
  unfold precisionOn
  split
  · exact d.lengthOn_ne_nil
  · exact List.cons_ne_nil _ _

theorem widthOn_ne_nil : d.widthOn ≠ [] := by simp [widthOn, d.precisionOn_ne_nil]

theorem lengthOn_append (rest : List Char) :
    d.lengthOn ++ rest = d.length.text ++ d.spec :: rest := by
  simp [lengthOn]

theorem widthOn_append (rest : List Char) :
    d.widthOn ++ rest = d.width.text ++ (d.precisionOn ++ rest) := List.append_assoc _ _ _

theorem text_append (rest : List Char) : d.text ++ rest = d.flags ++ (d.widthOn ++ rest) :=
  List.append_assoc _ _ _

end DirectiveSyntax

/-- **Directives, read and written.** The parser takes a text apart into a
directive and a rest just when the text is that directive written down and the
rest. -/
theorem scanConv_iff {f rest : List Char} {k : Conv} :
    scanConv f = some (k, rest) ↔
      ∃ d : DirectiveSyntax, d.Ok ∧ f = d.text ++ rest ∧ k = d.conv := by
  constructor
  · intro h
    unfold scanConv at h
    obtain ⟨⟨fl, f₁⟩, hflags, h⟩ := Option.bind_eq_some_iff.mp h
    obtain ⟨⟨width, f₂⟩, hwidth, h⟩ := Option.bind_eq_some_iff.mp h
    obtain ⟨⟨precision, f₃⟩, hprec, h⟩ := Option.bind_eq_some_iff.mp h
    obtain ⟨⟨length, f₄⟩, hlength, h⟩ := Option.bind_eq_some_iff.mp h
    dsimp only at hflags hwidth hprec hlength h
    cases f₄ with
    | nil => cases h
    | cons c f₄ =>
        cases h
        obtain ⟨cs, rfl, hcs, hstop, rfl⟩ := evalFlags_iff.mp hflags
        obtain ⟨w, rfl, hw, rfl⟩ := evalField_iff.mp hwidth
        obtain ⟨len, rfl, hl, rfl⟩ := evalLength_iff.mp hlength
        have hlOk : len.Ok [c] := (LengthSyntax.ok_append (List.cons_ne_nil c []) rest).mp hl
        rcases precisionField_iff.mp hprec with ⟨rfl, rfl, hdot⟩ | ⟨p, rfl, hp, rfl⟩
        · let d : DirectiveSyntax := ⟨cs, w, none, len, c⟩
          have hlength : d.lengthOn ++ rest = len.text ++ c :: rest := d.lengthOn_append rest
          have hwidthOn : d.widthOn ++ rest = w.text ++ (len.text ++ c :: rest) := by
            rw [← hlength]
            exact d.widthOn_append rest
          refine ⟨d, ⟨hcs, ?_, ?_, ?_, hlOk⟩, ?_, rfl⟩
          · rw [← hwidthOn, next_append d.widthOn_ne_nil] at hstop
            exact hstop
          · rw [← hlength, FieldSyntax.ok_append d.lengthOn_ne_nil] at hw
            exact hw
          · rw [← hlength, next_append d.lengthOn_ne_nil] at hdot
            exact hdot
          · rw [d.text_append, hwidthOn]
        · let d : DirectiveSyntax := ⟨cs, w, some p, len, c⟩
          have hlength : d.lengthOn ++ rest = len.text ++ c :: rest := d.lengthOn_append rest
          have hprecOn : d.precisionOn ++ rest = '.' :: (p.text ++ (len.text ++ c :: rest)) := by
            rw [← hlength, ← List.append_assoc]
            rfl
          have hwidthOn : d.widthOn ++ rest =
              w.text ++ '.' :: (p.text ++ (len.text ++ c :: rest)) := by
            rw [← hprecOn]
            exact d.widthOn_append rest
          refine ⟨d, ⟨hcs, ?_, ?_, ?_, hlOk⟩, ?_, rfl⟩
          · rw [← hwidthOn, next_append d.widthOn_ne_nil] at hstop
            exact hstop
          · rw [← hprecOn, FieldSyntax.ok_append d.precisionOn_ne_nil] at hw
            exact hw
          · rw [← hlength, FieldSyntax.ok_append d.lengthOn_ne_nil] at hp
            exact hp
          · rw [d.text_append, hwidthOn]
  · rintro ⟨d, hd, rfl, rfl⟩
    have hflags : evalFlags (d.text ++ rest) {} = some (d.flagWord, d.widthOn ++ rest) :=
      evalFlags_iff.mpr ⟨d.flags, d.text_append rest, hd.flags,
        (next_append d.widthOn_ne_nil rest).mpr hd.flags_end, rfl⟩
    have hwidth : evalField (d.widthOn ++ rest) = some (d.width.field, d.precisionOn ++ rest) :=
      evalField_iff.mpr ⟨d.width, d.widthOn_append rest,
        (FieldSyntax.ok_append d.precisionOn_ne_nil rest).mpr hd.width, rfl⟩
    have hprec : precisionField (d.precisionOn ++ rest) =
        some (d.precision.map FieldSyntax.field, d.lengthOn ++ rest) := by
      have hp := hd.precision
      unfold DirectiveSyntax.precisionOn
      cases hcase : d.precision with
      | none =>
          rw [hcase] at hp
          exact precisionField_iff.mpr
            (Or.inl ⟨rfl, rfl, (next_append d.lengthOn_ne_nil rest).mpr hp⟩)
      | some field =>
          rw [hcase] at hp
          refine precisionField_iff.mpr (Or.inr ⟨field, ?_,
            (FieldSyntax.ok_append d.lengthOn_ne_nil rest).mpr hp, rfl⟩)
          rw [List.cons_append, List.append_assoc]
    have hlength : evalLength (d.lengthOn ++ rest) = some (d.length.length, d.spec :: rest) :=
      evalLength_iff.mpr ⟨d.length, d.lengthOn_append rest,
        (LengthSyntax.ok_append (List.cons_ne_nil d.spec []) rest).mpr hd.length, rfl⟩
    simp [scanConv, hflags, hwidth, hprec, hlength, DirectiveSyntax.conv]

/-! ## Whole formats -/

/-- A piece of a format, written down. -/
inductive PieceSyntax where
  | lit (c : Char)
  | directive (d : DirectiveSyntax)
  deriving DecidableEq, Repr

namespace PieceSyntax

def text : PieceSyntax → List Char
  | .lit c => [c]
  | .directive d => '%' :: d.text

def piece : PieceSyntax → Piece
  | .lit c => .lit c
  | .directive d => .conv d.conv

/-- A literal is no `%` and does not end the format. -/
def Ok : PieceSyntax → Prop
  | .lit c => c ≠ '\x00' ∧ c ≠ '%'
  | .directive d => d.Ok

end PieceSyntax

/-- A format without its terminator. -/
def formatOf (ps : List PieceSyntax) : List Char := ps.flatMap PieceSyntax.text

theorem scanConv_length {f rest : List Char} {k : Conv} (h : scanConv f = some (k, rest)) :
    rest.length < f.length := by
  obtain ⟨d, -, rfl, -⟩ := scanConv_iff.mp h
  simp only [DirectiveSyntax.text, DirectiveSyntax.widthOn, DirectiveSyntax.precisionOn,
    DirectiveSyntax.lengthOn, List.length_append]
  split <;> simp

/-- **Formats, read and written.** What is scanned as a format is a row of
pieces up to a terminator, and every such row is. -/
theorem scan_iff {fuel : ℕ} {f : List Char} {ks : List Piece} (hfuel : f.length ≤ fuel) :
    scan fuel f = some ks ↔
      ∃ ps beyond, (∀ p ∈ ps, PieceSyntax.Ok p) ∧ f = formatOf ps ++ '\x00' :: beyond ∧
        ks = ps.map PieceSyntax.piece := by
  induction fuel generalizing f ks with
  | zero =>
      have hnil : f = [] := List.length_eq_zero_iff.mp (by omega)
      subst hnil
      simp [scan]
  | succ fuel ih =>
      cases f with
      | nil => simp [scan]
      | cons c f =>
          have hshort : f.length ≤ fuel := by simpa using hfuel
          rw [scan]
          by_cases hnul : c = '\x00'
          · subst hnul
            rw [if_pos rfl]
            constructor
            · intro h
              cases h
              exact ⟨[], f, by simp, rfl, rfl⟩
            · rintro ⟨ps, beyond, hok, hf, rfl⟩
              cases ps with
              | nil => rfl
              | cons p ps =>
                  have hp := hok p (by simp)
                  cases p with
                  | lit c =>
                      cases hf
                      exact absurd rfl hp.1
                  | directive d => cases hf
          · rw [if_neg hnul]
            by_cases hpercent : c = '%'
            · subst hpercent
              rw [if_neg (not_not.mpr rfl), Option.bind_eq_some_iff]
              constructor
              · rintro ⟨⟨k, rest⟩, hk, h⟩
                obtain ⟨ks', hks, rfl⟩ := Option.map_eq_some_iff.mp h
                have hlen := scanConv_length hk
                obtain ⟨d, hd, rfl, rfl⟩ := scanConv_iff.mp hk
                obtain ⟨ps, beyond, hok, rfl, rfl⟩ := (ih (by omega)).mp hks
                refine ⟨.directive d :: ps, beyond, ?_, ?_, rfl⟩
                · rintro p (_ | ⟨_, hp⟩)
                  · exact hd
                  · exact hok p hp
                · simp [formatOf, PieceSyntax.text]
              · rintro ⟨ps, beyond, hok, hf, rfl⟩
                cases ps with
                | nil => cases hf
                | cons p ps =>
                    have hp := hok p (by simp)
                    cases p with
                    | lit c =>
                        cases hf
                        exact absurd rfl hp.2
                    | directive d =>
                        have hf' : f = d.text ++ (formatOf ps ++ '\x00' :: beyond) := by
                          simpa [formatOf, PieceSyntax.text] using hf
                        have hk := scanConv_iff.mpr ⟨d, hp, hf', rfl⟩
                        have hlen := scanConv_length hk
                        refine ⟨_, hk, Option.map_eq_some_iff.mpr ⟨_, (ih (by omega)).mpr
                          ⟨ps, beyond, fun q hq => hok q (by simp [hq]), rfl, rfl⟩, rfl⟩⟩
            · rw [if_pos hpercent, Option.map_eq_some_iff]
              constructor
              · rintro ⟨ks', hks, rfl⟩
                obtain ⟨ps, beyond, hok, rfl, rfl⟩ := (ih hshort).mp hks
                refine ⟨.lit c :: ps, beyond, ?_, rfl, rfl⟩
                rintro p (_ | ⟨_, hp⟩)
                · exact ⟨hnul, hpercent⟩
                · exact hok p hp
              · rintro ⟨ps, beyond, hok, hf, rfl⟩
                cases ps with
                | nil =>
                    cases hf
                    exact absurd rfl hnul
                | cons p ps =>
                    cases p with
                    | lit c' =>
                        cases hf
                        exact ⟨_, (ih hshort).mpr
                          ⟨ps, beyond, fun q hq => hok q (by simp [hq]), rfl, rfl⟩, rfl⟩
                    | directive d =>
                        cases hf
                        exact absurd rfl hpercent

end Phytium.Port
