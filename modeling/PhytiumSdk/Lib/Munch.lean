import Mathlib.Data.List.Basic

/-!
# Maximal munch

A scanner over a row of tokens absorbs them into an accumulator as long as it
can, and must see one that it cannot absorb: running out of tokens is a failure.
What it absorbs and where it stops is determined by the tokens alone when the
accumulator has no say in it.
-/

namespace Lib.Munch

variable {τ α : Type*}

/-- The row begins with a token such that `p`. -/
def Next (p : τ → Prop) (f : List τ) : Prop := ∃ c r, f = c :: r ∧ p c

theorem Next.ne_nil {p : τ → Prop} {f : List τ} (h : Next p f) : f ≠ [] := by
  obtain ⟨c, r, rfl, -⟩ := h
  exact List.cons_ne_nil c r

theorem next_cons {p : τ → Prop} {c : τ} {f : List τ} : Next p (c :: f) ↔ p c := by
  constructor
  · rintro ⟨c, r, heq, h⟩
    cases heq
    exact h
  · intro h
    exact ⟨c, f, rfl, h⟩

/-- What follows a row that is not empty has no part in its beginning. -/
theorem next_append {p : τ → Prop} {f : List τ} (hf : f ≠ []) (r : List τ) :
    Next p (f ++ r) ↔ Next p f := by
  cases f with
  | nil => exact absurd rfl hf
  | cons c f => rw [List.cons_append, next_cons, next_cons]

/-- Absorb tokens while `step` takes them. -/
def munch (step : τ → α → Option α) : List τ → α → Option (α × List τ)
  | [], _ => none
  | c :: f, a =>
      match step c a with
      | some a => munch step f a
      | none => some (a, c :: f)

/-- The accumulator after the tokens. -/
def absorb (step : τ → α → Option α) (a : α) (cs : List τ) : α :=
  cs.foldl (fun a c => (step c a).getD a) a

theorem munch_iff {step : τ → α → Option α} {p : τ → Bool}
    (hp : ∀ c a, (step c a).isSome = p c) {f rest : List τ} {a a' : α} :
    munch step f a = some (a', rest) ↔
      ∃ cs, f = cs ++ rest ∧ (∀ c ∈ cs, p c = true) ∧ Next (fun c => p c = false) rest ∧
        a' = absorb step a cs := by
  induction f generalizing a with
  | nil =>
      simp only [munch, reduceCtorEq, false_iff]
      rintro ⟨cs, hf, -, hnext, -⟩
      exact hnext.ne_nil (List.append_eq_nil_iff.mp hf.symm).2
  | cons c f ih =>
      rw [munch]
      cases hc : step c a with
      | some b =>
          have hpc : p c = true := by rw [← hp c a, hc]; rfl
          have hstep : ∀ cs, absorb step a (c :: cs) = absorb step b cs := by
            intro cs
            simp [absorb, hc]
          rw [ih]
          constructor
          · rintro ⟨cs, rfl, hcs, hnext, rfl⟩
            exact ⟨c :: cs, rfl, by simpa [hpc] using hcs, hnext, (hstep cs).symm⟩
          · rintro ⟨cs, hf, hcs, hnext, rfl⟩
            cases cs with
            | nil =>
                rw [List.nil_append] at hf
                rw [← hf, next_cons, hpc] at hnext
                cases hnext
            | cons d cs =>
                obtain ⟨rfl, hrest⟩ := List.cons.inj hf
                exact ⟨cs, hrest, fun c hc => hcs c (by simp [hc]), hnext, hstep cs⟩
      | none =>
          have hpc : p c = false := by rw [← hp c a, hc]; rfl
          simp only [Option.some.injEq, Prod.mk.injEq]
          constructor
          · rintro ⟨rfl, rfl⟩
            exact ⟨[], rfl, by simp, next_cons.mpr hpc, rfl⟩
          · rintro ⟨cs, hf, hcs, hnext, rfl⟩
            cases cs with
            | nil => exact ⟨rfl, hf⟩
            | cons d cs =>
                obtain ⟨rfl, -⟩ := List.cons.inj hf
                have := hcs c (by simp)
                rw [hpc] at this
                cases this

end Lib.Munch
