import PhytiumSdk.Lib.System
import Mathlib.Algebra.BigOperators.Group.List.Basic
import Mathlib.Algebra.GroupWithZero.Nat

/-!
# Amortized cost

A potential pays for what the events of a run cost: an event that costs more
than it is given lowers the potential by the difference. What a whole run costs
is then bounded by the potential it starts with and what it is given.
-/

namespace Lib.System

variable {σ ε : Type*} {M : System σ ε} (potential : σ → ℕ) (cost gain : ε → ℕ) {Q : ε → Prop}

/-- **The accounting rule.** -/
theorem Reachable.cost_le
    (hstep : ∀ s e s', M.Reachable s → Q e → M.step s e = some s' →
      potential s' + cost e ≤ potential s + gain e)
    {s t : σ} (h : M.Reachable s) {es : List ε} (hes : ∀ e ∈ es, Q e)
    (hr : M.run s es = some t) :
    potential t + (es.map cost).sum ≤ potential s + (es.map gain).sum := by
  induction es generalizing s with
  | nil =>
      cases hr
      exact Nat.le_refl _
  | cons e es ih =>
      rw [run_cons, Option.bind_eq_some_iff] at hr
      obtain ⟨u, hu, hr⟩ := hr
      have hfirst := hstep s e u h (hes e List.mem_cons_self) hu
      have hrest := ih (h.step hu) (fun f hf => hes f (List.mem_cons_of_mem e hf)) hr
      rw [List.map_cons, List.map_cons, List.sum_cons, List.sum_cons]
      calc
        potential t + (cost e + (es.map cost).sum)
            = potential t + (es.map cost).sum + cost e := by omega
        _ ≤ potential u + (es.map gain).sum + cost e := by omega
        _ = potential u + cost e + (es.map gain).sum := by omega
        _ ≤ potential s + gain e + (es.map gain).sum := by omega
        _ = potential s + (gain e + (es.map gain).sum) := by omega

end Lib.System
