import Mathlib.Data.List.Range

/-!
# Chains of records

Records that lie in a memory and name the address of the next one. `walk` follows
them as a device does, up to the record marked as the last one; `Chain` says that
it meets a given list of records, and needs no bound on their number.
-/

namespace Lib

/-- How a record is found, and where it leads. -/
structure Linkage (α δ : Type*) where
  fetch : α → Option δ
  isLast : δ → Bool
  next : δ → α

namespace Linkage

variable {α δ : Type*} (C : Linkage α δ)

/-- The records from the address on, `fuel` of them at most. -/
def walk : ℕ → α → Option (List δ)
  | 0, _ => none
  | fuel + 1, a =>
      (C.fetch a).bind fun d =>
        if C.isLast d then some [d] else (walk fuel (C.next d)).map (d :: ·)

/-- The records from the address on are these. -/
inductive Chain : α → List δ → Prop
  | last {a : α} {d : δ} (hf : C.fetch a = some d) (hl : C.isLast d = true) : Chain a [d]
  | cons {a : α} {d : δ} {ds : List δ} (hf : C.fetch a = some d) (hl : C.isLast d = false)
      (h : Chain (C.next d) ds) : Chain a (d :: ds)

variable {C} {a : α} {ds : List δ}

/-- Enough fuel finds them all. -/
theorem Chain.walk_eq (h : C.Chain a ds) : ∀ {fuel : ℕ}, ds.length ≤ fuel →
    C.walk fuel a = some ds := by
  induction h with
  | last hf hl =>
      rintro (_ | fuel) hle
      · simp at hle
      · simp [walk, hf, hl]
  | cons hf hl _ ih =>
      rintro (_ | fuel) hle
      · simp at hle
      · have hrest := ih (Nat.le_of_succ_le_succ hle)
        simp [walk, hf, hl, hrest]

/-- The chain of a table whose entries name the next one, from the `i`-th entry
on. -/
theorem chain_of_table {n : ℕ} {addr : ℕ → α} {d : ℕ → δ}
    (hfetch : ∀ i < n, C.fetch (addr i) = some (d i))
    (hlast : ∀ i < n, C.isLast (d i) = decide (i + 1 = n))
    (hnext : ∀ i, i + 1 < n → C.next (d i) = addr (i + 1)) (m : ℕ) :
    ∀ i, i + (m + 1) = n → C.Chain (addr i) ((List.range' i (m + 1)).map d) := by
  induction m with
  | zero =>
      intro i hi
      have hin : i < n := by omega
      refine .last (hfetch i hin) ?_
      rw [hlast i hin]
      exact decide_eq_true hi
  | succ m ih =>
      intro i hi
      have hin : i + 1 < n := by omega
      have hrest := ih (i + 1) (by omega)
      rw [← hnext i hin] at hrest
      refine .cons (hfetch i (by omega)) ?_ hrest
      rw [hlast i (by omega)]
      exact decide_eq_false (by omega)

end Linkage

end Lib
