import Mathlib.Algebra.Order.Group.Multiset
import Mathlib.Data.Multiset.AddSub

/-!
# Ledgers of resources

A ledger lists what was acquired and what was released, in order. Settling it
gives what is still held at its end, or `none` at the first release of
something that is not held. A ledger balances when it settles to nothing:
everything acquired has then been released, each instance once, and nothing
else.
-/

namespace Lib

/-- One line of a ledger. -/
inductive Entry (ρ : Type*)
  | acquired (r : ρ)
  | released (r : ρ)
  deriving DecidableEq, Repr

/-- What was acquired and released, in order. -/
abbrev Ledger (ρ : Type*) := List (Entry ρ)

variable {ρ : Type*} [DecidableEq ρ]

/-- One entry against what is held. -/
def Entry.post (held : Multiset ρ) : Entry ρ → Option (Multiset ρ)
  | .acquired r => some (r ::ₘ held)
  | .released r => if r ∈ held then some (held.erase r) else none

namespace Ledger

/-- What is held after the ledger. -/
def settle (held : Multiset ρ) (l : Ledger ρ) : Option (Multiset ρ) :=
  l.foldlM Entry.post held

/-- Every resource acquired has been released, and nothing else has. -/
def Balanced (l : Ledger ρ) : Prop := settle 0 l = some 0

instance (l : Ledger ρ) : Decidable (Balanced l) :=
  inferInstanceAs (Decidable (settle 0 l = some 0))

variable {held rest : Multiset ρ} {r : ρ} {l : Ledger ρ}

@[simp] theorem settle_nil (held : Multiset ρ) : settle held [] = some held := rfl

@[simp] theorem settle_cons (held : Multiset ρ) (e : Entry ρ) (l : Ledger ρ) :
    settle held (e :: l) = (e.post held).bind (fun t => settle t l) := rfl

theorem settle_append (held : Multiset ρ) (k l : Ledger ρ) :
    settle held (k ++ l) = (settle held k).bind (fun t => settle t l) := by
  simp only [settle, List.foldlM_append]
  rfl

/-- Two ledgers one after the other. -/
theorem settle_trans {s t : Multiset ρ} {k : Ledger ρ} (hk : settle held k = some s)
    (hl : settle s l = some t) : settle held (k ++ l) = some t := by
  rw [settle_append, hk, Option.bind_some, hl]

/-- **The frame rule**: what is held beside the ledger's own resources stays held. -/
theorem settle_frame {t : Multiset ρ} (h : settle held l = some t) (k : Multiset ρ) :
    settle (held + k) l = some (t + k) := by
  induction l generalizing held with
  | nil =>
      cases h
      rfl
  | cons e l ih =>
      rw [settle_cons, Option.bind_eq_some_iff] at h ⊢
      obtain ⟨u, hu, h⟩ := h
      refine ⟨u + k, ?_, ih h⟩
      cases e with
      | acquired r =>
          cases hu
          exact congrArg some (Multiset.cons_add r held k).symm
      | released r =>
          simp only [Entry.post] at hu ⊢
          split at hu
          · rename_i hmem
            cases hu
            rw [if_pos (Multiset.mem_add.mpr (Or.inl hmem)),
              Multiset.erase_add_left_pos k hmem]
          · cases hu

/-- What two ledgers leave, each on its own, they leave together. -/
theorem settle_add {s t : Multiset ρ} {k l : Ledger ρ} (hk : settle 0 k = some s)
    (hl : settle 0 l = some t) : settle 0 (k ++ l) = some (t + s) := by
  refine settle_trans hk ?_
  have hframe := settle_frame hl s
  rw [zero_add] at hframe
  exact hframe

/-- Acquiring a list of resources. -/
theorem settle_acquired (held : Multiset ρ) (rs : List ρ) :
    settle held (rs.map .acquired) = some (held + (rs : Multiset ρ)) := by
  induction rs generalizing held with
  | nil => simp
  | cons r rs ih =>
      rw [List.map_cons, settle_cons]
      change settle (r ::ₘ held) (rs.map .acquired) = _
      rw [ih, Multiset.cons_add, ← Multiset.cons_coe, Multiset.add_cons]

/-- Steps that acquire, up to the first that fails: whether none has, and the
ledger. -/
def acquireAll : List (Bool × List ρ) → Bool × Ledger ρ
  | [] => (true, [])
  | (ok, rs) :: steps =>
      if ok then ((acquireAll steps).1, rs.map .acquired ++ (acquireAll steps).2)
      else (false, [])

omit [DecidableEq ρ] in
theorem acquireAll_ok (steps : List (Bool × List ρ)) :
    (acquireAll steps).1 = true ↔ ∀ step ∈ steps, step.1 = true := by
  induction steps with
  | nil => simp [acquireAll]
  | cons step steps ih =>
      obtain ⟨ok, rs⟩ := step
      cases ok with
      | false => simp [acquireAll]
      | true => simpa [acquireAll] using ih

omit [DecidableEq ρ] in
/-- Of all the steps it is a first part that has been taken. -/
theorem acquireAll_log (steps : List (Bool × List ρ)) :
    ∃ rs, (acquireAll steps).2 = rs.map .acquired ∧ rs <+: steps.flatMap Prod.snd ∧
      ((acquireAll steps).1 = true → rs = steps.flatMap Prod.snd) := by
  induction steps with
  | nil => exact ⟨[], rfl, List.prefix_rfl, fun _ => rfl⟩
  | cons step steps ih =>
      obtain ⟨ok, qs⟩ := step
      obtain ⟨rs, hlog, hpre, hall⟩ := ih
      cases ok with
      | false => exact ⟨[], rfl, List.nil_prefix, fun hok => absurd hok Bool.false_ne_true⟩
      | true =>
          refine ⟨qs ++ rs, ?_, ?_, ?_⟩
          · simp only [acquireAll, if_true, hlog, List.map_append]
          · exact (List.prefix_append_right_inj qs).mpr hpre
          · intro hok
            rw [hall hok]
            rfl

/-- Resources are released in a row just when they are held. -/
theorem settle_released_iff {t : Multiset ρ} {rs : List ρ} :
    settle held (rs.map .released) = some t ↔ held = t + (rs : Multiset ρ) := by
  induction rs generalizing held with
  | nil => simp
  | cons r rs ih =>
      rw [List.map_cons, settle_cons, Entry.post, ← Multiset.cons_coe, Multiset.add_cons]
      split
      · rename_i hmem
        rw [Option.bind_some, ih]
        constructor
        · intro herase
          rw [← herase, Multiset.cons_erase hmem]
        · intro hheld
          rw [hheld, Multiset.erase_cons_head]
      · rename_i hmem
        constructor
        · intro hnone
          cases hnone
        · intro hheld
          rw [hheld] at hmem
          exact absurd (Multiset.mem_cons_self r _) hmem

/-- Releasing a list of resources that are held. -/
theorem settle_released (rest : Multiset ρ) (rs : List ρ) :
    settle (rest + (rs : Multiset ρ)) (rs.map .released) = some rest :=
  settle_released_iff.mpr rfl

/-- What is held at the end and what was released make up what was held at the
start and what was acquired. -/
theorem settle_count {t : Multiset ρ} (h : settle held l = some t) (r : ρ) :
    t.count r + l.count (.released r) = held.count r + l.count (.acquired r) := by
  induction l generalizing held with
  | nil =>
      cases h
      rfl
  | cons e l ih =>
      rw [settle_cons, Option.bind_eq_some_iff] at h
      obtain ⟨u, hu, h⟩ := h
      have hcount := ih h
      cases e with
      | acquired q =>
          cases hu
          rw [Multiset.count_cons] at hcount
          rw [List.count_cons, List.count_cons]
          by_cases hq : r = q
          · subst hq
            simp at hcount ⊢
            omega
          · have hq' : ¬ q = r := fun hqr => hq hqr.symm
            simp [hq, hq'] at hcount ⊢
            exact hcount
      | released q =>
          simp only [Entry.post] at hu
          split at hu
          · rename_i hmem
            cases hu
            rw [List.count_cons, List.count_cons]
            by_cases hq : q = r
            · subst hq
              have hpos := Multiset.count_pos.mpr hmem
              rw [Multiset.count_erase_self] at hcount
              simp at hcount ⊢
              omega
            · have hq' : r ≠ q := fun hrq => hq hrq.symm
              rw [Multiset.count_erase_of_ne hq'] at hcount
              simp [hq] at hcount ⊢
              exact hcount
          · cases hu

/-- In a balanced ledger every acquisition has its release. -/
theorem Balanced.count (h : Balanced l) (r : ρ) :
    l.count (.released r) = l.count (.acquired r) := by
  have hcount := settle_count h r
  simpa using hcount

/-- A ledger that leaves something held does not balance. -/
theorem not_balanced {t : Multiset ρ} (h : settle 0 l = some t) (hne : t ≠ 0) :
    ¬ Balanced l := by
  intro hb
  rw [Balanced, h, Option.some.injEq] at hb
  exact hne hb

end Ledger

end Lib
