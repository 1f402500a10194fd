import Mathlib.Data.List.Basic
import Mathlib.Data.List.Nodup
import Mathlib.Algebra.BigOperators.Group.List.Basic
import Mathlib.Algebra.Order.Ring.Nat
import Mathlib.Tactic.Common

/-!
# Rings whose lap ends early

A ring of `N` slots holds frames of at most `K` contiguous slots. A frame is
never split over the end: when the frame just placed leaves fewer than `K + 1`
slots behind it, the next one starts at slot `0`. So a lap is `N - K` to
`N - 1` slots long, and where it ends depends on the frames of that lap.

`pos p ns` is where the next frame goes after frames of lengths `ns` placed
from `p`, and `cells p ns` are the slots they take. The one geometric fact is
`shape`: with fewer than `N - K` slots in use the frames cross the end of the
ring at most once, and what they take is an interval or two. Everything else
(no slot twice, room for one more frame, the next start is free) is read off
it.
-/

namespace Lib.LapRing

variable (N K : ℕ)

/-- Where the frame after one of length `n` at `p` starts. -/
def next (p n : ℕ) : ℕ := if N ≤ p + n + K then 0 else p + n

/-- Where the next frame starts after frames of lengths `ns` from `p`. -/
def pos (p : ℕ) (ns : List ℕ) : ℕ := ns.foldl (next N K) p

/-- The slots of frames of lengths `ns` placed from `p`, in order. -/
def cells : ℕ → List ℕ → List ℕ
  | _, [] => []
  | p, n :: ns => List.range' p n ++ cells (next N K p n) ns

/-- The first frame ends before the last slot. Later ones do by construction. -/
def Fits (p : ℕ) : List ℕ → Prop
  | [] => p + K < N
  | n :: _ => p + n < N

/-- Frames of lengths `ns` from `p`, each of `1` to `K` slots, with fewer than
`N - K` slots in all. -/
structure Packed (p : ℕ) (ns : List ℕ) : Prop where
  size : ∀ n ∈ ns, 0 < n ∧ n ≤ K
  fits : Fits N K p ns
  total : ns.sum + K < N

variable {N K}
variable {p n : ℕ} {ns ms : List ℕ}

@[simp] theorem pos_nil : pos N K p [] = p := rfl

@[simp] theorem pos_cons : pos N K p (n :: ns) = pos N K (next N K p n) ns := rfl

theorem pos_append : pos N K p (ns ++ ms) = pos N K (pos N K p ns) ms := by
  simp [pos, List.foldl_append]

@[simp] theorem cells_nil : cells N K p [] = [] := rfl

@[simp] theorem cells_cons :
    cells N K p (n :: ns) = List.range' p n ++ cells N K (next N K p n) ns := rfl

theorem cells_append :
    cells N K p (ns ++ ms) = cells N K p ns ++ cells N K (pos N K p ns) ms := by
  induction ns generalizing p with
  | nil => simp
  | cons n ns ih => simp [ih]

theorem next_succ : next N K (p + 1) n = next N K p (n + 1) := by
  simp only [next, Nat.add_assoc, Nat.add_comm 1 n]

/-- Stepping over the first slot of a frame leaves the next start where it
is. -/
theorem pos_succ : pos N K p ((n + 1) :: ns) = pos N K (p + 1) (n :: ns) := by
  rw [pos_cons, pos_cons, next_succ]

theorem cells_succ :
    cells N K p ((n + 1) :: ns) = p :: cells N K (p + 1) (n :: ns) := by
  rw [cells_cons, cells_cons, next_succ, List.range'_succ, List.cons_append]

/-- A frame boundary leaves room for one more frame before the end. -/
theorem next_add_lt (hK : K < N) : next N K p n + K < N := by
  unfold next
  split <;> omega

theorem fits_of_room (hp : p + K < N) (hsz : ∀ n ∈ ns, n ≤ K) : Fits N K p ns := by
  cases ns with
  | nil => exact hp
  | cons n ns =>
      have := hsz n List.mem_cons_self
      simp only [Fits]
      omega

/-- Dropping the first frame leaves packed frames. -/
theorem Packed.tail (h : Packed N K p (n :: ns)) : Packed N K (next N K p n) ns where
  size := fun m hm => h.size m (List.mem_cons_of_mem _ hm)
  fits := by
    have ht := h.total
    refine fits_of_room (next_add_lt ?_) fun m hm =>
      (h.size m (List.mem_cons_of_mem _ hm)).2
    omega
  total := by
    have ht := h.total
    simp only [List.sum_cons] at ht
    omega

/-- So does dropping the first slot of a longer frame. -/
theorem Packed.advance (h : Packed N K p ((n + 1) :: ns)) (hn : 0 < n) :
    Packed N K (p + 1) (n :: ns) where
  size := by
    intro m hm
    rw [List.mem_cons] at hm
    rcases hm with rfl | hm
    · have := h.size (m + 1) List.mem_cons_self
      omega
    · exact h.size m (List.mem_cons_of_mem _ hm)
  fits := by
    have hf : p + (n + 1) < N := h.fits
    show p + 1 + n < N
    omega
  total := by
    have ht := h.total
    simp only [List.sum_cons] at ht ⊢
    omega

/-- A frame boundary after packed frames leaves room for one more frame. -/
theorem Packed.pos_add_lt (h : Packed N K p ns) : pos N K p ns + K < N := by
  induction ns generalizing p with
  | nil => exact h.fits
  | cons n ns ih => exact ih h.tail

/-- **The shape of the frames in use**: one interval from `p` to the next
start, or one from `p` to the end `L` of the lap and one from slot `0` to the
next start. -/
theorem Packed.shape (h : Packed N K p ns) :
    (pos N K p ns = p + ns.sum ∧ ∀ c ∈ cells N K p ns, p ≤ c ∧ c < p + ns.sum) ∨
    (∃ L, N ≤ L + K ∧ L < N ∧ p < L ∧ pos N K p ns + L = p + ns.sum ∧
      ∀ c ∈ cells N K p ns, (p ≤ c ∧ c < L) ∨ c < pos N K p ns) := by
  induction ns generalizing p with
  | nil => left; simp
  | cons n ns ih =>
      have hn := h.size n List.mem_cons_self
      have hfit : p + n < N := h.fits
      have htot := h.total
      simp only [List.sum_cons] at htot ⊢
      simp only [pos_cons, cells_cons, List.mem_append, List.mem_range'_1]
      have hnext : next N K p n = if N ≤ p + n + K then 0 else p + n := rfl
      rcases ih h.tail with ⟨hpos, hc⟩ | ⟨L, hL1, hL2, hpL, hpos, hc⟩
      · by_cases hw : N ≤ p + n + K
        · rw [if_pos hw] at hnext
          right
          refine ⟨p + n, by omega, hfit, by omega, by omega, ?_⟩
          rintro c (hc' | hc')
          · left; omega
          · have := hc c hc'; right; omega
        · rw [if_neg hw] at hnext
          left
          refine ⟨by omega, ?_⟩
          rintro c (hc' | hc')
          · omega
          · have := hc c hc'; omega
      · by_cases hw : N ≤ p + n + K
        · -- a second end of lap would need more slots than are in use
          rw [if_pos hw] at hnext
          omega
        · rw [if_neg hw] at hnext
          right
          refine ⟨L, hL1, hL2, by omega, by omega, ?_⟩
          rintro c (hc' | hc')
          · left; omega
          · rcases hc c hc' with h' | h'
            · left; omega
            · right; exact h'

theorem Packed.cells_lt (h : Packed N K p ns) : ∀ c ∈ cells N K p ns, c + 1 < N := by
  induction ns generalizing p with
  | nil => simp
  | cons n ns ih =>
      have hfit : p + n < N := h.fits
      intro c hc
      simp only [cells_cons, List.mem_append, List.mem_range'_1] at hc
      rcases hc with hc | hc
      · omega
      · exact ih h.tail c hc

/-- No slot is taken twice. -/
theorem Packed.nodup (h : Packed N K p ns) : (cells N K p ns).Nodup := by
  induction ns generalizing p with
  | nil => simp
  | cons n ns ih =>
      have hn := h.size n List.mem_cons_self
      have htot := h.total
      simp only [List.sum_cons] at htot
      rw [cells_cons, List.nodup_append]
      refine ⟨List.nodup_range', ih h.tail, ?_⟩
      rintro a ha b hb rfl
      rw [List.mem_range'_1] at ha
      have hnext : next N K p n = if N ≤ p + n + K then 0 else p + n := rfl
      rcases h.tail.shape with ⟨hpos, hc⟩ | ⟨L, hL1, hL2, hpL, hpos, hc⟩
      · have := hc a hb
        split at hnext <;> omega
      · have := hc a hb
        split at hnext <;> omega

/-- The next start is free. -/
theorem Packed.pos_not_mem (h : Packed N K p ns) : pos N K p ns ∉ cells N K p ns := by
  intro hmem
  have htot := h.total
  rcases h.shape with ⟨hpos, hc⟩ | ⟨L, hL1, hL2, hpL, hpos, hc⟩
  · have := hc _ hmem
    omega
  · have := hc _ hmem
    omega

/-- **Room for one more frame**: a frame that keeps the total below `N - K` can
be placed at the next start. -/
theorem Packed.push (h : Packed N K p ns) (h0 : 0 < n) (hn : n ≤ K)
    (hroom : ns.sum + n + K < N) : Packed N K p (ns ++ [n]) where
  size := by
    intro m hm
    rcases List.mem_append.mp hm with hm | hm
    · exact h.size m hm
    · rw [List.mem_singleton] at hm
      omega
  fits := by
    have hfit := h.fits
    cases ns with
    | nil => simp only [Fits, List.nil_append] at hfit ⊢; omega
    | cons m ms => exact hfit
  total := by simpa using hroom

/-- The slots of the frame placed next are taken by no frame in use. -/
theorem Packed.push_disjoint (h : Packed N K p ns) (h0 : 0 < n) (hn : n ≤ K)
    (hroom : ns.sum + n + K < N) {j : ℕ} (hj : j < n) :
    pos N K p ns + j ∉ cells N K p ns := by
  intro hmem
  have hnd := (h.push h0 hn hroom).nodup
  rw [cells_append, List.nodup_append] at hnd
  refine hnd.2.2 _ hmem (pos N K p ns + j) ?_ rfl
  simp only [cells_cons, cells_nil, List.append_nil, List.mem_range'_1]
  omega

end Lib.LapRing
