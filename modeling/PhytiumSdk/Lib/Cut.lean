import Mathlib.Data.Nat.Init
import Mathlib.Algebra.Order.Ring.Nat
import Mathlib.Tactic.Common

/-!
# Cutting a stretch of addresses into pieces

`cut` takes pieces off the front of a stretch; how long a piece may be depends on
where it starts. Two kinds of cuts are put together here: at the boundaries of
pages, and into blocks of a fixed size that divides a page. `pieces_length` counts
what they leave.
-/

namespace Lib.Cut

/-- A stretch of addresses. -/
structure Piece where
  addr : ℕ
  len : ℕ
deriving DecidableEq, Repr

/-- The stretch in pieces; one from `a` on has at most `room a` bytes, but at least
one. -/
def cut (room : ℕ → ℕ) (addr len : ℕ) : List Piece :=
  if len = 0 then []
  else
    let n := min len (max 1 (room addr))
    ⟨addr, n⟩ :: cut room (addr + n) (len - n)
termination_by len
decreasing_by omega

/-- Cuts at the boundaries of pages. -/
def atPages (page : ℕ) : ℕ → ℕ → List Piece := cut fun a => page - a % page

/-- Cuts into blocks. -/
def intoBlocks (size : ℕ) : ℕ → ℕ → List Piece := cut fun _ => size

/-- First the one, then the other; what lies in different pages stays apart. -/
def pieces (page size addr len : ℕ) : List Piece :=
  (atPages page addr len).flatMap fun p => intoBlocks size p.addr p.len

variable {page size addr len : ℕ}

theorem cut_zero (room : ℕ → ℕ) : cut room addr 0 = [] := by
  rw [cut, if_pos rfl]

theorem cut_short {room : ℕ → ℕ} (h0 : 0 < len) (h : len ≤ room addr) :
    cut room addr len = [⟨addr, len⟩] := by
  have hn : min len (max 1 (room addr)) = len := by omega
  rw [cut, if_neg (by omega)]
  dsimp only
  rw [hn, Nat.sub_self, cut_zero]

theorem cut_long {room : ℕ → ℕ} (h0 : 0 < room addr) (h : room addr < len) :
    cut room addr len =
      ⟨addr, room addr⟩ :: cut room (addr + room addr) (len - room addr) := by
  have hn : min len (max 1 (room addr)) = room addr := by omega
  rw [cut, if_neg (by omega)]
  dsimp only
  rw [hn]

theorem atPages_short (h0 : 0 < len) (h : len ≤ page - addr % page) :
    atPages page addr len = [⟨addr, len⟩] := cut_short h0 h

theorem atPages_long (h0 : 0 < page - addr % page) (h : page - addr % page < len) :
    atPages page addr len = ⟨addr, page - addr % page⟩ ::
      atPages page (addr + (page - addr % page)) (len - (page - addr % page)) := cut_long h0 h

/-- A stretch of blocks, the last of them perhaps not full. -/
theorem intoBlocks_length (hs : 0 < size) (addr len : ℕ) :
    (intoBlocks size addr len).length = (len + size - 1) / size := by
  unfold intoBlocks
  induction len using Nat.strong_induction_on generalizing addr with
  | _ len ih =>
    rcases Nat.eq_zero_or_pos len with rfl | h0
    · rw [cut_zero, Nat.zero_add, List.length_nil, Nat.div_eq_of_lt (by omega)]
    · by_cases hle : len ≤ size
      · rw [cut_short h0 hle, List.length_singleton]
        exact (Nat.div_eq_of_lt_le (by omega) (by omega)).symm
      · have hlt : size < len := Nat.lt_of_not_le hle
        have hsub : len + size - 1 = len - size + size - 1 + size := by omega
        rw [cut_long hs hlt, List.length_cons, ih _ (Nat.sub_lt h0 hs), hsub,
          Nat.add_div_right _ hs]

/-- From the start of a page on the pages make no difference. -/
theorem pieces_length_aligned (hs : 0 < size) (hp : 0 < page) (hdvd : size ∣ page)
    (ha : addr % page = 0) (len : ℕ) :
    (pieces page size addr len).length = (len + size - 1) / size := by
  unfold pieces
  induction len using Nat.strong_induction_on generalizing addr with
  | _ len ih =>
    have hroom : page - addr % page = page := by rw [ha, Nat.sub_zero]
    rcases Nat.eq_zero_or_pos len with rfl | h0
    · rw [atPages, cut_zero, Nat.zero_add, Nat.div_eq_of_lt (by omega)]
      rfl
    · by_cases hle : len ≤ page
      · rw [atPages_short h0 (by rwa [hroom]), List.flatMap_singleton, intoBlocks_length hs]
      · have hlt : page < len := Nat.lt_of_not_le hle
        have hnext : (addr + page) % page = 0 := by rw [Nat.add_mod_right, ha]
        obtain ⟨q, rfl⟩ := hdvd
        have hfull : (size * q + size - 1) / size = q := by
          refine Nat.div_eq_of_lt_le ?_ ?_
          · rw [Nat.mul_comm]
            omega
          · rw [Nat.add_mul, Nat.mul_comm]
            omega
        have hsplit : len + size - 1 = len - size * q + size - 1 + size * q := by omega
        rw [atPages_long (by rwa [hroom]) (by rwa [hroom]), hroom, List.flatMap_cons,
          List.length_append, intoBlocks_length hs, ih _ (Nat.sub_lt h0 hp) hnext, hfull, hsplit,
          Nat.add_mul_div_left _ _ hs, Nat.add_comm]

/-- **The number of pieces**: that of the blocks in the stretch, when it lies in
one page, and otherwise that of the blocks it touches. -/
theorem pieces_length (hs : 0 < size) (hp : 0 < page) (hdvd : size ∣ page) (addr len : ℕ) :
    (pieces page size addr len).length =
      if len ≤ page - addr % page then (len + size - 1) / size
      else (len + addr % size + size - 1) / size := by
  have hmod := Nat.mod_lt addr hp
  split
  · rename_i hle
    rcases Nat.eq_zero_or_pos len with rfl | h0
    · rw [pieces, atPages, cut_zero, Nat.zero_add, Nat.div_eq_of_lt (by omega)]
      rfl
    · rw [pieces, atPages_short h0 hle, List.flatMap_singleton, intoBlocks_length hs]
  · rename_i hlong
    -- the rest of the first page is `k` blocks less the part of one before `addr`
    obtain ⟨k, hk⟩ : ∃ k, page - addr % page + addr % size = size * k := by
      obtain ⟨q, rfl⟩ := hdvd
      refine ⟨q - addr % (size * q) / size, ?_⟩
      have hdiv := Nat.div_add_mod (addr % (size * q)) size
      rw [Nat.mod_mod_of_dvd _ (Nat.dvd_mul_right size q)] at hdiv
      rw [Nat.mul_sub]
      omega
    have hu := Nat.mod_lt addr hs
    have hroom : 0 < page - addr % page := Nat.sub_pos_of_lt hmod
    have hnext : (addr + (page - addr % page)) % page = 0 := by
      have hsum : addr + (page - addr % page) = page * (addr / page) + page := by
        have hdiv := Nat.div_add_mod addr page
        omega
      rw [hsum, Nat.add_mod_right, Nat.mul_mod_right]
    have hfirst : (page - addr % page + size - 1) / size = k := by
      refine Nat.div_eq_of_lt_le ?_ ?_
      · rw [Nat.mul_comm]
        omega
      · rw [Nat.add_mul, Nat.mul_comm]
        omega
    have hrest := pieces_length_aligned hs hp hdvd hnext (len - (page - addr % page))
    have hsplit : len + addr % size + size - 1 =
        len - (page - addr % page) + size - 1 + size * k := by omega
    unfold pieces at hrest ⊢
    rw [atPages_long hroom (Nat.lt_of_not_le hlong), List.flatMap_cons, List.length_append,
      intoBlocks_length hs, hfirst, hrest, hsplit, Nat.add_mul_div_left _ _ hs, Nat.add_comm]

end Lib.Cut
