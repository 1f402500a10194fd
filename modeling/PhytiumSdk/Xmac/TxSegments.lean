import PhytiumSdk.Lib.PointerList
import PhytiumSdk.Xmac.Descriptor
import Mathlib.Data.List.Induction

/-!
# XMAC transmit: cutting a packet into segments

`phytium_xmac_get_segs_for_tx` on mbufs in memory: it follows `m_next` from the
mbuf it is given and writes an array of eight entries. `getSegsForTx` is what it
computes from the list of mbufs, and what the transmit ring is built on;
`getSegs_refines` connects the two.
-/

namespace Phytium.Xmac

open Lib.PointerList

/-- The mbufs, at the addresses they have. -/
structure MbufMem (μ : Type*) where
  cell : μ → MbufCell
  mNext : μ → Option μ

/-- The array of the caller and the local index. -/
structure SegsLocals where
  segs : ℕ → Seg
  i : ℕ
  -- history
  /-- the indices of the array that were written to -/
  stores : List ℕ

/-- The loop body up to the link: an mbuf with data is entered at `segs[i]`. -/
def segsBody (c : MbufCell) (t : SegsLocals) : SegsLocals :=
  if 0 < c.mLen then
    { segs := Function.update t.segs t.i ⟨c.mData, c.mLen.toNat⟩
      i := t.i + 1
      stores := t.stores ++ [t.i] }
  else t

variable {μ : Type*} (H : MbufMem μ)

/-- The loop from the mbuf `m` on, for `fuel` passes at most. `.ok` carries what
is stored in `*nsegs`. -/
def segsLoop : ℕ → μ → SegsLocals → Option (Except TxErr ℕ × SegsLocals)
  | 0, _, _ => none
  | fuel + 1, m, t =>
      let t := segsBody (H.cell m) t
      match H.mNext m with
      | none => some (.ok t.i, t)
      | some m' => if t.i < txMaxDmaSegs then segsLoop fuel m' t else some (.error .efbig, t)

/-- `phytium_xmac_get_segs_for_tx`, with whatever the array holds before. -/
def getSegs (fuel : ℕ) (m : μ) (segs : ℕ → Seg) : Option (Except TxErr ℕ × SegsLocals) :=
  segsLoop H fuel m ⟨segs, 0, []⟩

/-! ## The entries -/

/-- The entry of an mbuf. -/
def MbufCell.seg (c : MbufCell) : Seg := ⟨c.mData, c.mLen.toNat⟩

/-- The mbufs that are not empty. -/
def nonEmpty (cells : List MbufCell) : List MbufCell := cells.filter fun c => c.mLen ≠ 0

/-- The entries of the mbufs with data. -/
def dataSegs (cells : List MbufCell) : List Seg :=
  (cells.filter fun c => 0 < c.mLen).map MbufCell.seg

variable {cells next : List MbufCell} {c m : MbufCell} {l : List Seg} {t : SegsLocals}

theorem dataSegs_cons (c : MbufCell) (cells : List MbufCell) :
    dataSegs (c :: cells) = dataSegs [c] ++ dataSegs cells := by
  unfold dataSegs
  rw [← List.map_append, ← List.filter_append]
  rfl

theorem pushSeg_eq : pushSeg l c = l ++ dataSegs [c] := by
  unfold pushSeg dataSegs
  by_cases hc : 0 < c.mLen
  · simp [hc, MbufCell.seg]
  · simp [hc]

theorem dataSegs_eq (h : ∀ c ∈ cells, 0 ≤ c.mLen) :
    dataSegs cells = (nonEmpty cells).map MbufCell.seg := by
  unfold dataSegs nonEmpty
  congr 1
  refine List.filter_congr fun c hc => ?_
  have hpos := h c hc
  rw [decide_eq_decide]
  omega

/-- **The loop on the list of mbufs**: the test of the index comes behind every
mbuf but the last. -/
theorem getSegsLoop_eq (hl : l.length < txMaxDmaSegs) :
    getSegsLoop l m next =
      if l.length + (dataSegs (m :: next).dropLast).length < txMaxDmaSegs then
        .ok (l ++ dataSegs (m :: next))
      else .error .efbig := by
  induction next generalizing l m with
  | nil =>
      rw [if_pos (by simpa [dataSegs] using hl), getSegsLoop, pushSeg_eq]
  | cons m' next ih =>
      have hdrop : (m :: m' :: next).dropLast = m :: (m' :: next).dropLast := rfl
      rw [getSegsLoop, hdrop, dataSegs_cons m (m' :: next).dropLast, List.length_append,
        ← Nat.add_assoc, pushSeg_eq, List.length_append]
      split
      · rename_i hlt
        rw [ih (by rwa [List.length_append]), List.length_append, dataSegs_cons m (m' :: next),
          List.append_assoc]
      · rename_i hlt
        rw [if_neg (fun h => hlt (Nat.lt_of_le_of_lt (Nat.le_add_right _ _) h))]

/-! ## The array -/

/-- The first entries of the array are these, and nothing else was written. -/
structure SegsLocals.Holds (t : SegsLocals) (l : List Seg) : Prop where
  index : t.i = l.length
  entries : (List.range l.length).map t.segs = l
  stores : t.stores = List.range l.length

theorem segsBody_holds (h : t.Holds l) : (segsBody c t).Holds (pushSeg l c) := by
  unfold segsBody pushSeg
  split
  · have hlen : (l ++ [c.seg]).length = l.length + 1 := by simp
    refine ⟨?_, ?_, ?_⟩
    · change t.i + 1 = (l ++ [c.seg]).length
      rw [hlen, h.index]
    · change (List.range (l ++ [c.seg]).length).map (Function.update t.segs t.i c.seg) =
        l ++ [c.seg]
      rw [hlen, List.range_succ, List.map_append, List.map_singleton, h.index,
        Function.update_self]
      congr 1
      refine Eq.trans (List.map_congr_left fun j hj => ?_) h.entries
      exact Function.update_of_ne (Nat.ne_of_lt (List.mem_range.mp hj)) _ _
    · change t.stores ++ [t.i] = List.range (l ++ [c.seg]).length
      rw [hlen, List.range_succ, h.stores, h.index]
  · exact h

theorem pushSeg_length_le : (pushSeg l c).length ≤ l.length + 1 := by
  rw [pushSeg_eq, List.length_append]
  have hone : (dataSegs [c]).length ≤ 1 := by
    unfold dataSegs
    rw [List.length_map]
    exact List.length_filter_le _ _
  exact Nat.add_le_add_left hone _

/-- **The loop in memory** computes what it computes from the list of mbufs, for
every amount of fuel that is enough to reach the last one. -/
theorem segsLoop_eq {a : μ} {as : List μ} (hchain : Threaded id H.mNext a as)
    (ht : t.Holds l) (hl : l.length < txMaxDmaSegs) :
    ∃ t' out, t'.Holds out ∧ out.length ≤ txMaxDmaSegs ∧
      (∀ out', getSegsLoop l (H.cell a) (as.map H.cell) = .ok out' → out = out') ∧
      ∀ fuel, as.length < fuel → segsLoop H fuel a t =
        some ((getSegsLoop l (H.cell a) (as.map H.cell)).map List.length, t') := by
  induction hchain generalizing t l with
  | @nil a hnull =>
      have hbody : (segsBody (H.cell a) t).Holds (pushSeg l (H.cell a)) := segsBody_holds ht
      refine ⟨_, _, hbody, pushSeg_length_le.trans hl, ?_, ?_⟩
      · intro out' hout
        cases hout
        rfl
      · rintro (_ | fuel) hfuel
        · exact absurd hfuel (Nat.not_lt_zero _)
        · rw [segsLoop, hnull, hbody.index]
          rfl
  | @cons a b as hnext hrest ih =>
      have hbody : (segsBody (H.cell a) t).Holds (pushSeg l (H.cell a)) := segsBody_holds ht
      by_cases hlt : (pushSeg l (H.cell a)).length < txMaxDmaSegs
      · obtain ⟨t', out, hout, hle, hok, hrun⟩ := ih hbody hlt
        refine ⟨t', out, hout, hle, ?_, ?_⟩
        · intro out' ho
          rw [List.map_cons, getSegsLoop, if_pos hlt] at ho
          exact hok out' ho
        · rintro (_ | fuel) hfuel
          · exact absurd hfuel (Nat.not_lt_zero _)
          · rw [segsLoop, hnext, List.map_cons, getSegsLoop, if_pos hlt, hbody.index]
            dsimp only
            rw [if_pos hlt]
            exact hrun fuel (Nat.lt_of_succ_lt_succ hfuel)
      · refine ⟨_, _, hbody, pushSeg_length_le.trans hl, ?_, ?_⟩
        · intro out' ho
          rw [List.map_cons, getSegsLoop, if_neg hlt] at ho
          cases ho
        · rintro (_ | fuel) hfuel
          · exact absurd hfuel (Nat.not_lt_zero _)
          · rw [segsLoop, hnext, List.map_cons, getSegsLoop, if_neg hlt, hbody.index]
            dsimp only
            rw [if_neg hlt]
            rfl

/-- **Refinement**: on a chain of mbufs in memory the function returns what
`getSegsForTx` computes from the chain. -/
theorem getSegs_refines {a : μ} {as : List μ} (hchain : Threaded id H.mNext a as)
    (segs : ℕ → Seg) : ∃ t out, t.Holds out ∧ out.length ≤ txMaxDmaSegs ∧
      (∀ out', getSegsForTx ⟨H.cell a, as.map H.cell⟩ = .ok out' → out = out') ∧
      ∀ fuel, as.length < fuel → getSegs H fuel a segs =
        some ((getSegsForTx ⟨H.cell a, as.map H.cell⟩).map List.length, t) :=
  segsLoop_eq H hchain ⟨rfl, rfl, rfl⟩ (by decide)

/-! ## What the caller gets -/

omit H in
/-- There are more than `k` entries just when one of them follows `k` others. -/
theorem lt_countP_iff {α : Type*} {p : α → Bool} {k : ℕ} {as : List α} :
    k < as.countP p ↔ ∃ pre a post, as = pre ++ a :: post ∧ p a = true ∧ pre.countP p = k := by
  constructor
  · intro h
    induction as using List.reverseRecOn with
    | nil => exact absurd h (Nat.not_lt_zero k)
    | append_singleton as a ih =>
        by_cases hk : k < as.countP p
        · obtain ⟨pre, b, post, rfl, hb, hpre⟩ := ih hk
          exact ⟨pre, b, post ++ [a], by simp, hb, hpre⟩
        · rw [List.countP_append, List.countP_singleton] at h
          split at h
          · rename_i ha
            exact ⟨as, a, [], rfl, ha, by omega⟩
          · exact absurd h hk
  · rintro ⟨pre, a, post, rfl, ha, rfl⟩
    rw [List.countP_append, List.countP_cons_of_pos ha]
    omega

/-- An mbuf follows the eighth one that is not empty. -/
def FollowedEighth (cells : List MbufCell) : Prop :=
  ∃ pre c post, cells = pre ++ c :: post ∧ c.mLen ≠ 0 ∧ (nonEmpty pre).length = 7 ∧ post ≠ []

theorem followedEighth_iff (hne : cells ≠ []) :
    FollowedEighth cells ↔ txMaxDmaSegs ≤ (nonEmpty cells.dropLast).length := by
  have hcount : ∀ l : List MbufCell, (nonEmpty l).length = l.countP fun c => c.mLen ≠ 0 :=
    fun l => List.countP_eq_length_filter.symm
  rw [hcount, show txMaxDmaSegs = 7 + 1 from rfl, Nat.succ_le_iff, lt_countP_iff]
  constructor
  · rintro ⟨pre, c, post, rfl, hc, hpre, hpost⟩
    refine ⟨pre, c, post.dropLast, ?_, decide_eq_true hc, (hcount pre).symm.trans hpre⟩
    rw [List.dropLast_append_of_ne_nil (List.cons_ne_nil c post),
      List.dropLast_cons_of_ne_nil hpost]
  · rintro ⟨pre, c, post, hdrop, hc, hpre⟩
    refine ⟨pre, c, post ++ [cells.getLast hne], ?_, of_decide_eq_true hc,
      (hcount pre).trans hpre, by simp⟩
    rw [← List.cons_append, ← List.append_assoc, ← hdrop, List.dropLast_append_getLast]

/-- What `phytium_xmac_get_segs_for_tx` returns for these mbufs, and leaves in
the array. -/
structure SegsExact (cells : List MbufCell) (r : Except TxErr ℕ) (t : SegsLocals) : Prop where
  inBounds : ∀ j ∈ t.stores, j < txMaxDmaSegs
  efbig : r = .error .efbig ↔ FollowedEighth cells
  nsegs : ∀ n, r = .ok n → n = (nonEmpty cells).length
  segs : ∀ n, r = .ok n → (List.range n).map t.segs = (nonEmpty cells).map MbufCell.seg
  total : ∀ n, r = .ok n →
    ((List.range n).map fun j => ((t.segs j).dsLen : ℤ)).sum = (cells.map MbufCell.mLen).sum

theorem sum_nonEmpty (h : ∀ c ∈ cells, 0 ≤ c.mLen) :
    (((nonEmpty cells).map MbufCell.seg).map fun g => (g.dsLen : ℤ)).sum =
      (cells.map MbufCell.mLen).sum := by
  induction cells with
  | nil => rfl
  | cons c cells ih =>
      have hrest := ih fun d hd => h d (List.mem_cons_of_mem c hd)
      have hseg : ((MbufCell.seg c).dsLen : ℤ) = c.mLen := Int.toNat_of_nonneg (h c List.mem_cons_self)
      rw [nonEmpty] at hrest ⊢
      rw [List.filter_cons]
      split
      · simp only [List.map_cons, List.sum_cons, hseg, hrest]
      · rename_i hc
        have hzero : c.mLen = 0 := by simpa using hc
        rw [hrest, List.map_cons, List.sum_cons, hzero, zero_add]

omit H in
/-- `EFBIG`, or the entries of the mbufs that are not empty. -/
theorem getSegsForTx_cases (h : ∀ a ∈ c :: next, 0 ≤ a.mLen) :
    (FollowedEighth (c :: next) ∧ getSegsForTx ⟨c, next⟩ = .error .efbig) ∨
    (¬ FollowedEighth (c :: next) ∧
      getSegsForTx ⟨c, next⟩ = .ok ((nonEmpty (c :: next)).map MbufCell.seg)) := by
  have hdrop : ∀ a ∈ (c :: next).dropLast, 0 ≤ a.mLen :=
    fun a ha => h a (List.dropLast_subset _ ha)
  have hloop : getSegsForTx ⟨c, next⟩ =
      if (nonEmpty (c :: next).dropLast).length < txMaxDmaSegs then
        .ok ((nonEmpty (c :: next)).map MbufCell.seg)
      else .error .efbig := by
    rw [getSegsForTx, getSegsLoop_eq (by decide), dataSegs_eq hdrop, dataSegs_eq h,
      List.length_map, List.length_nil, Nat.zero_add, List.nil_append]
  rw [followedEighth_iff (List.cons_ne_nil _ _), ← Nat.not_lt, not_not, hloop]
  by_cases hlt : (nonEmpty (c :: next).dropLast).length < txMaxDmaSegs
  · rw [if_pos hlt]
    exact Or.inr ⟨hlt, rfl⟩
  · rw [if_neg hlt]
    exact Or.inl ⟨hlt, rfl⟩

/-- **Segmentation.** For every chain of mbufs with lengths that are not
negative the function returns; it never writes behind the eight entries; it
returns `EFBIG` just when an mbuf follows the eighth one that is not empty, and
otherwise the entries of the mbufs that are not empty, in order. -/
theorem get_segs_exact {a : μ} {as : List μ} (hchain : Threaded id H.mNext a as)
    (hlen : ∀ b ∈ a :: as, 0 ≤ (H.cell b).mLen) (segs : ℕ → Seg) :
    ∃ r t, (∀ fuel, (a :: as).length ≤ fuel → getSegs H fuel a segs = some (r, t)) ∧
      SegsExact ((a :: as).map H.cell) r t := by
  obtain ⟨t, out, ht, hle, hok, hrun⟩ := getSegs_refines H hchain segs
  have hcells : ∀ c ∈ (a :: as).map H.cell, 0 ≤ c.mLen := by
    intro c hc
    obtain ⟨b, hb, rfl⟩ := List.mem_map.mp hc
    exact hlen b hb
  refine ⟨_, t, fun fuel hfuel => hrun fuel hfuel, ?_⟩
  have hbounds : ∀ j ∈ t.stores, j < txMaxDmaSegs := by
    intro j hj
    rw [ht.stores, List.mem_range] at hj
    exact hj.trans_le hle
  rcases getSegsForTx_cases hcells with ⟨hf, hres⟩ | ⟨hf, hres⟩
  · rw [hres]
    exact ⟨hbounds, iff_of_true rfl hf, nofun, nofun, nofun⟩
  · obtain rfl := hok _ hres
    have hn : ∀ n, Except.map List.length (.ok ((nonEmpty ((a :: as).map H.cell)).map
        MbufCell.seg)) = (.ok n : Except TxErr ℕ) → n = (nonEmpty ((a :: as).map H.cell)).length := by
      intro n h
      cases h
      exact List.length_map _
    have hentries : (List.range (nonEmpty ((a :: as).map H.cell)).length).map t.segs =
        (nonEmpty ((a :: as).map H.cell)).map MbufCell.seg := by
      have h := ht.entries
      rwa [List.length_map] at h
    rw [hres]
    refine ⟨hbounds, iff_of_false nofun hf, hn, ?_, ?_⟩
    · intro n h
      rw [hn n h]
      exact hentries
    · intro n h
      rw [hn n h, ← sum_nonEmpty hcells, ← hentries, List.map_map]
      rfl

/-- Three mbufs, the one in the middle empty. -/
def emptyBetween : MbufMem ℕ where
  cell := fun a => ⟨BitVec.ofNat 64 (0x1000 * a), if a = 1 then 0 else 64⟩
  mNext := fun a => if a < 2 then some (a + 1) else none

theorem get_segs_exact_empty_between :
    ∃ t, getSegs emptyBetween 3 0 (fun _ => ⟨0#64, 0⟩) = some (.ok 2, t) ∧
      SegsExact ([0, 1, 2].map emptyBetween.cell) (.ok 2) t := by
  have hchain : Threaded id emptyBetween.mNext 0 [1, 2] := .cons rfl (.cons rfl (.nil rfl))
  obtain ⟨r, t, hrun, hexact⟩ :=
    get_segs_exact emptyBetween hchain (by decide) fun _ => ⟨0#64, 0⟩
  have hthree := hrun 3 (by decide)
  have hr : r = .ok 2 := (Prod.mk.inj (Option.some.inj hthree)).1.symm
  subst hr
  exact ⟨t, hthree, hexact⟩

end Phytium.Xmac
