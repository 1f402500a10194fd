import Mathlib.Logic.Basic
import Mathlib.Tactic.Common

/-!
# Settings behind a cache

A setting is made for an input `x` as `f x`, and is not made again as long as
`key x` is what the cache holds. `Tracks` says what cache and setting have to do
with the input the setting was last made for, and `Fresh` when leaving it alone
is right: what the key leaves out of the input must not matter.
-/

namespace Lib

variable {κ α β : Type*} (key : α → κ) (f : α → β) (c₀ : κ) (v₀ : β)

/-- The cache and the setting belong to the input `source`, or are the first
ones. -/
structure Tracks (source : Option α) (cache : κ) (value : β) : Prop where
  unset : source = none → cache = c₀ ∧ value = v₀
  set : ∀ y, source = some y → cache = key y ∧ value = f y

/-- A setting made for `source` is the one for `x` if the cache cannot tell them
apart. -/
def Fresh (source : Option α) (x : α) : Prop :=
  match source with
  | none => c₀ = key x → v₀ = f x
  | some y => key y = key x → f y = f x

instance [DecidableEq κ] [DecidableEq β] (source : Option α) (x : α) :
    Decidable (Fresh key f c₀ v₀ source x) := by
  unfold Fresh
  cases source <;> infer_instance

variable {key f c₀ v₀} {source : Option α} {cache : κ} {value : β} {x : α}

theorem Tracks.init : Tracks key f c₀ v₀ none c₀ v₀ :=
  ⟨fun _ => ⟨rfl, rfl⟩, fun _ h => nomatch h⟩

theorem Tracks.put (x : α) : Tracks key f c₀ v₀ (some x) (key x) (f x) := by
  constructor
  · intro h
    cases h
  · intro y h
    cases h
    exact ⟨rfl, rfl⟩

/-- Where the setting is made again, nothing was stale. -/
theorem Tracks.fresh_of_ne (h : Tracks key f c₀ v₀ source cache value) (hne : cache ≠ key x) :
    Fresh key f c₀ v₀ source x := by
  cases source with
  | none =>
      intro hk
      exact absurd ((h.unset rfl).1.trans hk) hne
  | some y =>
      intro hk
      exact absurd ((h.set y rfl).1.trans hk) hne

/-- The setting is left alone: it is right just when it was fresh. -/
theorem Tracks.value_iff (h : Tracks key f c₀ v₀ source cache value) (heq : cache = key x) :
    value = f x ↔ Fresh key f c₀ v₀ source x := by
  cases source with
  | none =>
      obtain ⟨hc, hv⟩ := h.unset rfl
      rw [hv]
      constructor
      · exact fun hf _ => hf
      · intro hf
        exact hf (hc.symm.trans heq)
  | some y =>
      obtain ⟨hc, hv⟩ := h.set y rfl
      rw [hv]
      constructor
      · exact fun hf _ => hf
      · intro hf
        exact hf (hc.symm.trans heq)

end Lib
