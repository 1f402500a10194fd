import PhytiumSdk.Port.Grammar

/-!
# The arguments of a format

A format says which arguments it takes: one for every star, and one for every
specifier but those that print themselves. A run takes exactly these, and when
they are there, and the strings among them have an end, it finds its text.
-/

namespace Phytium.Port

variable {δ : Type}

/-! ## Types of arguments -/

inductive ArgType where
  | int
  | long
  | longLong
  | double
  | ptr
  deriving DecidableEq, Repr

def Arg.type : Arg δ → ArgType
  | .int _ => .int
  | .long _ => .long
  | .longLong _ => .longLong
  | .double _ => .double
  | .ptr _ _ => .ptr

/-- What a pointer points to is a string. -/
def Arg.Terminated : Arg δ → Prop
  | .ptr _ object => '\x00' ∈ object
  | _ => True

/-- What a star takes. -/
def Field.args : Field → List ArgType
  | .num _ => []
  | .star => [.int]

/-- What a specifier takes. -/
def specArgs (c : Char) (fl : Flags) : List ArgType :=
  match specifierOf c with
  | .integer => [if fl.longLong then .longLong else if fl.long then .long else .int]
  | .fixed | .exponent => [.double]
  | .char => [.int]
  | .string | .pointer => [.ptr]
  | .other => []

/-- What a directive takes. -/
def Conv.signature (k : Conv) : List ArgType :=
  k.width.args ++ (k.precision.map Field.args).getD [] ++
    specArgs k.spec (k.length.flags k.flags)

def Piece.signature : Piece → List ArgType
  | .lit _ => []
  | .conv k => k.signature

/-- What a format takes. -/
def signature (ks : List Piece) : List ArgType := ks.flatMap Piece.signature

/-! ## Taking arguments -/

/-- `va` begins with arguments of the types, and `va'` is behind them. -/
def Takes (types : List ArgType) (va va' : VaList δ) : Prop :=
  ∃ used, va = used ++ va' ∧ used.map Arg.type = types

theorem Takes.nil (va : VaList δ) : Takes [] va va := ⟨[], rfl, rfl⟩

theorem Takes.append {s t : List ArgType} {va va' va'' : VaList δ} (h : Takes s va va')
    (h' : Takes t va' va'') : Takes (s ++ t) va va'' := by
  obtain ⟨used, rfl, rfl⟩ := h
  obtain ⟨used', rfl, rfl⟩ := h'
  exact ⟨used ++ used', by simp, by simp⟩

theorem Takes.split {s t : List ArgType} {va va'' : VaList δ} (h : Takes (s ++ t) va va'') :
    ∃ va', Takes s va va' ∧ Takes t va' va'' := by
  obtain ⟨used, rfl, htypes⟩ := h
  obtain ⟨u, v, rfl, hu, hv⟩ := List.map_eq_append_iff.mp htypes
  exact ⟨v ++ va'', ⟨u, by simp, hu⟩, ⟨v, rfl, hv⟩⟩

theorem Takes.unique {s : List ArgType} {va va₁ va₂ : VaList δ} (h₁ : Takes s va va₁)
    (h₂ : Takes s va va₂) : va₁ = va₂ := by
  obtain ⟨u, rfl, hu⟩ := h₁
  obtain ⟨v, heq, hv⟩ := h₂
  have hlen : u.length = v.length := by
    rw [← List.length_map (f := Arg.type), hu, ← hv, List.length_map]
  exact (List.append_inj heq hlen).2

theorem Takes.terminated {s : List ArgType} {va va' : VaList δ} (h : Takes s va va')
    (hterm : ∀ a ∈ va, a.Terminated) : ∀ a ∈ va', a.Terminated := by
  obtain ⟨used, rfl, -⟩ := h
  intro a ha
  exact hterm a (by simp [ha])

theorem takes_singleton_iff {t : ArgType} {va va' : VaList δ} :
    Takes [t] va va' ↔ ∃ a, va = a :: va' ∧ a.type = t := by
  constructor
  · rintro ⟨used, rfl, htypes⟩
    obtain ⟨a, rfl, rfl⟩ := List.map_eq_singleton_iff.mp htypes
    exact ⟨a, rfl, rfl⟩
  · rintro ⟨a, rfl, rfl⟩
    exact ⟨[a], rfl, rfl⟩

section VaArg

variable {α : Type} {get : Arg δ → Option α} {t : ArgType}

/-- `get` reads the arguments of type `t`. -/
def Reads (get : Arg δ → Option α) (t : ArgType) : Prop := ∀ a, (get a).isSome ↔ a.type = t

theorem reads_int : Reads (Arg.asInt : Arg δ → _) .int := by
  rintro (_ | _ | _ | _ | _) <;> simp [Arg.asInt, Arg.type]

theorem reads_long : Reads (Arg.asLong : Arg δ → _) .long := by
  rintro (_ | _ | _ | _ | _) <;> simp [Arg.asLong, Arg.type]

theorem reads_longLong : Reads (Arg.asLongLong : Arg δ → _) .longLong := by
  rintro (_ | _ | _ | _ | _) <;> simp [Arg.asLongLong, Arg.type]

theorem reads_double : Reads (Arg.asDouble : Arg δ → _) .double := by
  rintro (_ | _ | _ | _ | _) <;> simp [Arg.asDouble, Arg.type]

theorem reads_ptr : Reads (Arg.asPtr : Arg δ → _) .ptr := by
  rintro (_ | _ | _ | _ | _) <;> simp [Arg.asPtr, Arg.type]

/-- `va_arg` takes one argument of its type, and there is one to take. -/
theorem takes_iff_vaArg (hget : Reads get t) {va va' : VaList δ} :
    Takes [t] va va' ↔ ∃ v, vaArg get va = some (v, va') := by
  rw [takes_singleton_iff]
  constructor
  · rintro ⟨a, rfl, ha⟩
    obtain ⟨v, hv⟩ := Option.isSome_iff_exists.mp ((hget a).mpr ha)
    exact ⟨v, by simp [vaArg, hv]⟩
  · rintro ⟨v, hv⟩
    cases va with
    | nil => cases hv
    | cons a va =>
        obtain ⟨v', hv', heq⟩ := Option.map_eq_some_iff.mp hv
        cases heq
        exact ⟨a, rfl, (hget a).mp (Option.isSome_iff_exists.mpr ⟨_, hv'⟩)⟩

theorem takes_of_map {β : Type} {f : α × VaList δ → β} (hget : Reads get t) {va : VaList δ}
    {b : β} (h : (vaArg get va).map f = some b) :
    ∃ v va', Takes [t] va va' ∧ f (v, va') = b := by
  obtain ⟨⟨v, va'⟩, hv, hb⟩ := Option.map_eq_some_iff.mp h
  exact ⟨v, va', (takes_iff_vaArg hget).mpr ⟨v, hv⟩, hb⟩

end VaArg

/-! ## A directive takes its arguments -/

theorem evalWidth_takes {fl fl' : Flags} {va va' : VaList δ} {field : Field} {width : ℕ}
    (h : evalWidth fl va field = some (width, fl', va')) :
    Takes field.args va va' ∧ fl'.long = fl.long ∧ fl'.longLong = fl.longLong := by
  cases field with
  | num n =>
      cases h
      exact ⟨Takes.nil va, rfl, rfl⟩
  | star =>
      obtain ⟨w, va'', htakes, heq⟩ := takes_of_map reads_int h
      dsimp only at heq
      split_ifs at heq <;> cases heq <;> exact ⟨htakes, rfl, rfl⟩

theorem evalWidth_of_takes {va va' : VaList δ} {field : Field} (fl : Flags)
    (h : Takes field.args va va') : ∃ width fl', evalWidth fl va field = some (width, fl', va') := by
  cases field with
  | num n =>
      rw [h.unique (Takes.nil va)]
      exact ⟨n, fl, rfl⟩
  | star =>
      obtain ⟨w, hw⟩ := (takes_iff_vaArg reads_int).mp h
      simp only [evalWidth, hw, Option.map_some]
      split_ifs <;> exact ⟨_, _, rfl⟩

theorem evalPrecision_takes {fl fl' : Flags} {va va' : VaList δ} {field : Option Field}
    {precision : ℕ} (h : evalPrecision fl va field = some (precision, fl', va')) :
    Takes ((field.map Field.args).getD []) va va' ∧ fl'.long = fl.long ∧
      fl'.longLong = fl.longLong := by
  rcases field with _ | n | _
  · cases h
    exact ⟨Takes.nil va, rfl, rfl⟩
  · cases h
    exact ⟨Takes.nil va, rfl, rfl⟩
  · obtain ⟨w, va'', htakes, heq⟩ := takes_of_map reads_int h
    cases heq
    exact ⟨htakes, rfl, rfl⟩

theorem evalPrecision_of_takes {va va' : VaList δ} {field : Option Field} (fl : Flags)
    (h : Takes ((field.map Field.args).getD []) va va') :
    ∃ precision fl', evalPrecision fl va field = some (precision, fl', va') := by
  rcases field with _ | n | _
  · rw [h.unique (Takes.nil va)]
    exact ⟨0, fl, rfl⟩
  · rw [h.unique (Takes.nil va)]
    exact ⟨n, _, rfl⟩
  · obtain ⟨w, hw⟩ := (takes_iff_vaArg reads_int).mp h
    simp only [evalPrecision, hw, Option.map_some]
    exact ⟨_, _, rfl⟩

theorem integerFlags_lengths (c : Char) (fl : Flags) :
    (integerFlags c fl).long = fl.long ∧ (integerFlags c fl).longLong = fl.longLong := by
  simp only [integerFlags]
  split_ifs <;> exact ⟨rfl, rfl⟩

/-- The type of an integer argument. -/
def integerType (fl : Flags) : ArgType :=
  if fl.longLong then .longLong else if fl.long then .long else .int

theorem integerArg_takes {c : Char} {fl : Flags} {va va' : VaList δ} {value : ℕ} {negative : Bool}
    (h : integerArg c fl va = some (value, negative, va')) : Takes [integerType fl] va va' := by
  unfold integerArg signedArg unsignedArg at h
  unfold integerType
  split_ifs at h ⊢
  all_goals
    first
    | obtain ⟨v, va'', htakes, heq⟩ := takes_of_map reads_longLong h
    | obtain ⟨v, va'', htakes, heq⟩ := takes_of_map reads_long h
    | obtain ⟨v, va'', htakes, heq⟩ := takes_of_map reads_int h
    cases heq
    exact htakes

theorem integerArg_of_takes {c : Char} {fl : Flags} {va va' : VaList δ}
    (h : Takes [integerType fl] va va') :
    ∃ value negative, integerArg c fl va = some (value, negative, va') := by
  unfold integerArg signedArg unsignedArg
  unfold integerType at h
  cases hll : fl.longLong with
  | true =>
      rw [hll, if_pos rfl] at h
      obtain ⟨v, hv⟩ := (takes_iff_vaArg reads_longLong).mp h
      simp only [if_true, hv, Option.map_some]
      split_ifs <;> exact ⟨_, _, rfl⟩
  | false =>
      rw [hll, if_neg Bool.false_ne_true] at h
      cases hl : fl.long with
      | true =>
          rw [hl, if_pos rfl] at h
          obtain ⟨v, hv⟩ := (takes_iff_vaArg reads_long).mp h
          simp only [Bool.false_eq_true, if_false, if_true, hv, Option.map_some]
          split_ifs <;> exact ⟨_, _, rfl⟩
      | false =>
          rw [hl, if_neg Bool.false_ne_true] at h
          obtain ⟨v, hv⟩ := (takes_iff_vaArg reads_int).mp h
          simp only [Bool.false_eq_true, if_false, hv, Option.map_some]
          split_ifs <;> exact ⟨_, _, rfl⟩

/-! ### Strings -/

theorem strnlenS_isSome_iff {p : List Char} {maxsize : ℕ} :
    (strnlenS p maxsize).isSome ↔ '\x00' ∈ p ∨ maxsize < p.length := by
  induction p generalizing maxsize with
  | nil => simp [strnlenS]
  | cons c p ih =>
      unfold strnlenS
      by_cases hnul : c = '\x00'
      · simp [hnul]
      · rw [if_neg hnul]
        cases maxsize with
        | zero => simp
        | succ maxsize => simp [ih, Ne.symm hnul]

theorem strChars_isSome_iff {hasPrecision : Bool} {p : List Char} {precision : ℕ} :
    (strChars hasPrecision p precision).isSome ↔
      '\x00' ∈ p ∨ (hasPrecision = true ∧ precision < p.length) := by
  induction p generalizing precision with
  | nil => simp [strChars]
  | cons c p ih =>
      unfold strChars
      by_cases hnul : c = '\x00'
      · simp [hnul]
      · rw [if_neg hnul]
        cases hasPrecision with
        | false => simp [ih, Ne.symm hnul]
        | true =>
            cases precision with
            | zero => simp
            | succ precision => simp [ih, Ne.symm hnul]

/-! ### Specifiers -/

theorem specText_takes {ft : FloatText δ} {c : Char} {fl : Flags} {width precision : ℕ}
    {va va' : VaList δ} {text : List Char}
    (h : specText ft c fl width precision va = some (text, va')) : Takes (specArgs c fl) va va' := by
  unfold specText at h
  unfold specArgs
  cases hspec : specifierOf c with
  | integer =>
      rw [hspec] at h
      obtain ⟨⟨value, negative, va''⟩, harg, heq⟩ := Option.map_eq_some_iff.mp h
      cases heq
      have htakes := integerArg_takes harg
      rw [integerType, (integerFlags_lengths c fl).1, (integerFlags_lengths c fl).2] at htakes
      exact htakes
  | fixed =>
      rw [hspec] at h
      obtain ⟨v, va'', htakes, heq⟩ := takes_of_map reads_double h
      cases heq
      exact htakes
  | exponent =>
      rw [hspec] at h
      obtain ⟨v, va'', htakes, heq⟩ := takes_of_map reads_double h
      cases heq
      exact htakes
  | char =>
      rw [hspec] at h
      obtain ⟨v, va'', htakes, heq⟩ := takes_of_map reads_int h
      cases heq
      exact htakes
  | string =>
      rw [hspec] at h
      obtain ⟨⟨⟨addr, p⟩, va''⟩, hptr, h⟩ := Option.bind_eq_some_iff.mp h
      obtain ⟨len, -, h⟩ := Option.bind_eq_some_iff.mp h
      obtain ⟨t, -, heq⟩ := Option.map_eq_some_iff.mp h
      cases heq
      exact (takes_iff_vaArg reads_ptr).mpr ⟨_, hptr⟩
  | pointer =>
      rw [hspec] at h
      obtain ⟨v, va'', htakes, heq⟩ := takes_of_map reads_ptr h
      cases heq
      exact htakes
  | other =>
      rw [hspec] at h
      cases h
      exact Takes.nil va

theorem specText_of_takes (ft : FloatText δ) {c : Char} {fl : Flags} (width precision : ℕ)
    {va va' : VaList δ} (h : Takes (specArgs c fl) va va') (hterm : ∀ a ∈ va, a.Terminated) :
    ∃ text, specText ft c fl width precision va = some (text, va') := by
  unfold specArgs at h
  unfold specText
  cases hspec : specifierOf c with
  | integer =>
      rw [hspec] at h
      have h' : Takes [integerType (integerFlags c fl)] va va' := by
        rw [integerType, (integerFlags_lengths c fl).1, (integerFlags_lengths c fl).2]
        exact h
      obtain ⟨value, negative, harg⟩ := integerArg_of_takes (c := c) h'
      exact ⟨_, by simp only [harg, Option.map_some]; rfl⟩
  | fixed =>
      rw [hspec] at h
      obtain ⟨d, hd⟩ := (takes_iff_vaArg reads_double).mp h
      simp only [hd, Option.map_some]
      exact ⟨_, rfl⟩
  | exponent =>
      rw [hspec] at h
      obtain ⟨d, hd⟩ := (takes_iff_vaArg reads_double).mp h
      simp only [hd, Option.map_some]
      exact ⟨_, rfl⟩
  | char =>
      rw [hspec] at h
      obtain ⟨v, hv⟩ := (takes_iff_vaArg reads_int).mp h
      simp only [hv, Option.map_some]
      exact ⟨_, rfl⟩
  | string =>
      rw [hspec] at h
      obtain ⟨a, rfl, ha⟩ := takes_singleton_iff.mp h
      cases a with
      | ptr addr p =>
          have hnul : '\x00' ∈ p := hterm (.ptr addr p) (by simp)
          have hlenSome : (strnlenS p
              (if precision ≠ 0 then precision else 2 ^ 64 - 1)).isSome :=
            strnlenS_isSome_iff.mpr (Or.inl hnul)
          have htextSome : (strChars fl.precision p precision).isSome :=
            strChars_isSome_iff.mpr (Or.inl hnul)
          obtain ⟨len, hlen⟩ := Option.isSome_iff_exists.mp hlenSome
          obtain ⟨t, ht⟩ := Option.isSome_iff_exists.mp htextSome
          simp only [vaArg, Arg.asPtr, Option.map_some, Option.bind_some, stringLen, hlen, ht]
          exact ⟨_, rfl⟩
      | _ => cases ha
  | pointer =>
      rw [hspec] at h
      obtain ⟨p, hp⟩ := (takes_iff_vaArg reads_ptr).mp h
      simp only [hp, Option.map_some]
      exact ⟨_, rfl⟩
  | other =>
      rw [hspec] at h
      rw [h.unique (Takes.nil va)]
      exact ⟨_, rfl⟩

theorem Length.flags_lengths (length : Length) {fl fl' : Flags} (hlong : fl'.long = fl.long)
    (hlongLong : fl'.longLong = fl.longLong) :
    (length.flags fl').long = (length.flags fl).long ∧
      (length.flags fl').longLong = (length.flags fl).longLong := by
  cases length <;> simp [Length.flags, hlong, hlongLong]

theorem specArgs_congr {c : Char} {fl fl' : Flags}
    (h : fl'.long = fl.long ∧ fl'.longLong = fl.longLong) : specArgs c fl' = specArgs c fl := by
  unfold specArgs
  rw [h.1, h.2]

/-! ## A format takes its arguments -/

theorem convText_takes {ft : FloatText δ} {k : Conv} {va va' : VaList δ} {text : List Char}
    (h : convText ft k va = some (text, va')) : Takes k.signature va va' := by
  obtain ⟨⟨width, fl₁, va₁⟩, hwidth, h⟩ := Option.bind_eq_some_iff.mp h
  obtain ⟨⟨precision, fl₂, va₂⟩, hprec, h⟩ := Option.bind_eq_some_iff.mp h
  obtain ⟨hw, hl₁, hll₁⟩ := evalWidth_takes hwidth
  obtain ⟨hp, hl₂, hll₂⟩ := evalPrecision_takes hprec
  have hspec := specText_takes h
  rw [specArgs_congr (k.length.flags_lengths (hl₂.trans hl₁) (hll₂.trans hll₁))] at hspec
  exact (hw.append hp).append hspec

theorem convText_of_takes (ft : FloatText δ) {k : Conv} {va va' : VaList δ}
    (h : Takes k.signature va va') (hterm : ∀ a ∈ va, a.Terminated) :
    ∃ text, convText ft k va = some (text, va') := by
  obtain ⟨va₂, h, hspec⟩ := h.split
  obtain ⟨va₁, hw, hp⟩ := h.split
  obtain ⟨width, fl₁, hwidth⟩ := evalWidth_of_takes k.flags hw
  obtain ⟨precision, fl₂, hprec⟩ := evalPrecision_of_takes fl₁ hp
  obtain ⟨-, hl₁, hll₁⟩ := evalWidth_takes hwidth
  obtain ⟨-, hl₂, hll₂⟩ := evalPrecision_takes hprec
  rw [← specArgs_congr (k.length.flags_lengths (hl₂.trans hl₁) (hll₂.trans hll₁))] at hspec
  obtain ⟨text, htext⟩ := specText_of_takes ft width precision hspec
    (hp.terminated (hw.terminated hterm))
  exact ⟨text, by simp [convText, hwidth, hprec, htext]⟩

theorem formatText_takes {ft : FloatText δ} {ks : List Piece} {va va' : VaList δ}
    {text : List Char} (h : formatText ft ks va = some (text, va')) : Takes (signature ks) va va' := by
  induction ks generalizing va text with
  | nil =>
      cases h
      exact Takes.nil _
  | cons k ks ih =>
      cases k with
      | lit c =>
          obtain ⟨⟨rest, va₁⟩, hrest, heq⟩ := Option.map_eq_some_iff.mp h
          cases heq
          exact (Takes.nil va).append (ih hrest)
      | conv k =>
          obtain ⟨⟨t, va₁⟩, hk, h⟩ := Option.bind_eq_some_iff.mp h
          obtain ⟨⟨rest, va₂⟩, hrest, heq⟩ := Option.map_eq_some_iff.mp h
          cases heq
          exact (convText_takes hk).append (ih hrest)

theorem formatText_of_takes (ft : FloatText δ) {ks : List Piece} {va va' : VaList δ}
    (h : Takes (signature ks) va va') (hterm : ∀ a ∈ va, a.Terminated) :
    ∃ text, formatText ft ks va = some (text, va') := by
  induction ks generalizing va with
  | nil =>
      rw [h.unique (Takes.nil _)]
      exact ⟨[], rfl⟩
  | cons k ks ih =>
      obtain ⟨va₁, hk, hks⟩ := h.split
      obtain ⟨rest, hrest⟩ := ih hks (hk.terminated hterm)
      cases k with
      | lit c =>
          rw [hk.unique (Takes.nil va)] at hrest
          exact ⟨c :: rest, by simp [formatText, hrest]⟩
      | conv k =>
          obtain ⟨text, htext⟩ := convText_of_takes ft hk hterm
          exact ⟨text ++ rest, by simp [formatText, htext, hrest]⟩

end Phytium.Port
