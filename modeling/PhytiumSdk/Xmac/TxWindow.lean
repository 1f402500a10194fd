import PhytiumSdk.Lib.LapRing
import PhytiumSdk.Xmac.Transmit
import Mathlib.Order.Interval.Set.Defs

/-!
# Frames in the transmit ring

The abstract view of the transmit ring: a list of frames, each a list of
segments, placed from the tail pointer on. `FrameAt` says that the descriptors
from `p` on describe one frame, `Frames` that they describe several, `Window`
that the ring holds exactly the frames `D` (completed) and then `U` (not yet
completed).

The last section reads the window back the way the hardware and the driver do,
by following `LAST` and `WRAP`.
-/

namespace Phytium.Xmac

open Lib Lib.Mask

variable {M : TxbufMasks} {r r' : ℕ → TxDesc}

/-! ## One frame -/

/-- The descriptor at `p` carries the segment `g`. -/
structure Describes (M : TxbufMasks) (d : TxDesc) (p : ℕ) (g : Seg) (isLast isUsed : Bool) :
    Prop where
  addr : d.addr = g.dsAddr.setWidth 32
  addrhi : d.addrhi = (g.dsAddr >>> 32).setWidth 32
  len : d.ctl &&& txbufLenMask = BitVec.ofNat 32 g.dsLen &&& txbufLenMask
  last : has d.ctl M.last = isLast
  wrap : has d.ctl M.wrap = (isLast && wraps p 1)
  used : has d.ctl M.used = isUsed

/-- The descriptors from `p` on carry the segments of one frame. `isUsed` is
the `USED` bit of the first of them; the others are the driver's to set. -/
def FrameAt (M : TxbufMasks) (r : ℕ → TxDesc) : ℕ → List Seg → Bool → Prop
  | _, [], _ => True
  | p, g :: gs, isUsed =>
      Describes M (r p) p g gs.isEmpty isUsed ∧ FrameAt M r (p + 1) gs false

theorem FrameAt.congr {w : List Seg} : ∀ {p : ℕ} {isUsed : Bool},
    (∀ j, p ≤ j → j < p + w.length → r' j = r j) →
    FrameAt M r p w isUsed → FrameAt M r' p w isUsed := by
  induction w with
  | nil => intro p isUsed _ h; exact h
  | cons g gs ih =>
      intro p isUsed hr h
      rw [List.length_cons] at hr
      refine ⟨?_, ih (fun j h1 h2 => hr j (by omega) (by omega)) h.2⟩
      rw [hr p le_rfl (by omega)]
      exact h.1

/-- Where the frame behind one of `n` segments at `p` starts. -/
abbrev behindFrame (p n : ℕ) : ℕ := LapRing.next xmacNumTxDescs txMaxDmaSegs p n

theorem behindFrame_eq (p n : ℕ) :
    behindFrame p n = if wraps p n then 0 else p + n := by
  simp [behindFrame, LapRing.next, wraps]

/-- The next descriptor in the middle of a frame. -/
theorem Describes.behind_mid {d : TxDesc} {p : ℕ} {g : Seg} {isUsed : Bool}
    (h : Describes M d p g false isUsed) : behind M d.ctl p = p + 1 := by
  rw [behind, h.wrap]
  rfl

/-- The next descriptor at the end of a frame. -/
theorem Describes.behind_last {d : TxDesc} {p : ℕ} {g : Seg} {isUsed : Bool}
    (h : Describes M d p g true isUsed) : behind M d.ctl p = behindFrame p 1 := by
  rw [behind, h.wrap, behindFrame_eq, Bool.true_and]

/-! ## Many frames -/

/-- The frames `W` stand in the ring from `p` on, all completed or none. -/
def Frames (M : TxbufMasks) (r : ℕ → TxDesc) (isUsed : Bool) : ℕ → List (List Seg) → Prop
  | _, [] => True
  | p, w :: W => FrameAt M r p w isUsed ∧ Frames M r isUsed (behindFrame p w.length) W

/-- The descriptors of the frames `W` placed from `p` on. -/
abbrev slots (p : ℕ) (W : List (List Seg)) : List ℕ :=
  LapRing.cells xmacNumTxDescs txMaxDmaSegs p (W.map List.length)

/-- Where the frame behind `W` starts. -/
abbrev after (p : ℕ) (W : List (List Seg)) : ℕ :=
  LapRing.pos xmacNumTxDescs txMaxDmaSegs p (W.map List.length)

/-- How many descriptors the frames `W` take. -/
abbrev descs (W : List (List Seg)) : ℕ := (W.map List.length).sum

theorem descs_cons {w : List Seg} {W : List (List Seg)} :
    descs (w :: W) = w.length + descs W := by
  rw [descs, List.map_cons, List.sum_cons]

theorem descs_append {W W' : List (List Seg)} : descs (W ++ W') = descs W + descs W' := by
  rw [descs, List.map_append, List.sum_append]

theorem after_append {p : ℕ} {W W' : List (List Seg)} :
    after p (W ++ W') = after (after p W) W' := by
  rw [after, List.map_append, LapRing.pos_append]

theorem slots_append {p : ℕ} {W W' : List (List Seg)} :
    slots p (W ++ W') = slots p W ++ slots (after p W) W' := by
  rw [slots, List.map_append, LapRing.cells_append]

theorem frames_append {isUsed : Bool} {W W' : List (List Seg)} : ∀ {p : ℕ},
    Frames M r isUsed p (W ++ W') ↔
      Frames M r isUsed p W ∧ Frames M r isUsed (after p W) W' := by
  induction W with
  | nil =>
      intro p
      exact ⟨fun h => ⟨trivial, h⟩, fun h => h.2⟩
  | cons w W ih =>
      intro p
      simp only [List.cons_append, Frames, ih, and_assoc]
      rfl

theorem Frames.congr {isUsed : Bool} {W : List (List Seg)} : ∀ {p : ℕ},
    (∀ j ∈ slots p W, r' j = r j) → Frames M r isUsed p W → Frames M r' isUsed p W := by
  induction W with
  | nil => intro p _ h; exact h
  | cons w W ih =>
      intro p hr h
      simp only [slots, List.map_cons, LapRing.cells_cons, List.mem_append,
        List.mem_range'_1] at hr
      refine ⟨h.1.congr fun j h1 h2 => hr j (Or.inl ⟨h1, h2⟩), ?_⟩
      exact ih (fun j hj => hr j (Or.inr hj)) h.2

/-! ## The window -/

/-- The ring holds the completed frames `D` and behind them the frames `U`
still to be transmitted. Every other descriptor has `USED` set, but for those
in `busy`, which the driver is writing. -/
structure Window (M : TxbufMasks) (r : ℕ → TxDesc) (tl : ℕ) (D U : List (List Seg))
    (busy : Set ℕ) : Prop where
  packed : LapRing.Packed xmacNumTxDescs txMaxDmaSegs tl ((D ++ U).map List.length)
  short : ∀ w ∈ D ++ U, SegsOk M w
  done : Frames M r true tl D
  todo : Frames M r false (after tl D) U
  outside : ∀ i, i ∉ slots tl (D ++ U) → i ∉ busy → has (r i).ctl M.used = true

namespace Window

variable {tl : ℕ} {D U : List (List Seg)} {busy : Set ℕ} {w : List Seg}

/-- A store outside the window, if it leaves the other free descriptors
`USED`. -/
theorem congr {busy' : Set ℕ} (h : Window M r tl D U busy)
    (hr : ∀ j ∈ slots tl (D ++ U), r' j = r j)
    (hout : ∀ i, i ∉ slots tl (D ++ U) → i ∉ busy' → has (r' i).ctl M.used = true) :
    Window M r' tl D U busy' := by
  rw [slots_append] at hr
  refine ⟨h.packed, h.short, ?_, ?_, hout⟩
  · exact h.done.congr fun j hj => hr j (List.mem_append_left _ hj)
  · exact h.todo.congr fun j hj => hr j (List.mem_append_right _ hj)

/-- An empty ring. -/
theorem empty (hr : ∀ i, has (r i).ctl M.used = true) : Window M r 0 [] [] ∅ where
  packed := ⟨by simp, show 0 + 8 < 512 by omega, show 0 + 8 < 512 by omega⟩
  short := by simp
  done := trivial
  todo := trivial
  outside := fun i _ _ => hr i

theorem total_le (h : Window M r tl D U busy) : descs (D ++ U) ≤ 503 := by
  have ht : descs (D ++ U) + 8 < 512 := h.packed.total
  omega

theorem size (h : Window M r tl D U busy) (hw : w ∈ D ++ U) : 0 < w.length ∧ w.length ≤ 8 :=
  h.packed.size _ (List.mem_map_of_mem hw)

/-- The head pointer leaves room for a whole frame before the end. -/
theorem head_le (h : Window M r tl D U busy) : after tl (D ++ U) ≤ 503 := by
  have hp : after tl (D ++ U) + 8 < 512 := h.packed.pos_add_lt
  omega

theorem tail_lt (h : Window M r tl D U busy) : tl < 512 := by
  have hf := h.packed.fits
  cases hW : D ++ U with
  | nil =>
      rw [hW] at hf
      have hf' : tl + 8 < 512 := hf
      omega
  | cons w W =>
      rw [hW] at hf
      have hf' : tl + w.length < 512 := hf
      omega

/-- The oldest frame still to be transmitted starts inside the window. -/
theorem oldest_mem (h : Window M r tl D (w :: U) busy) :
    after tl D ∈ slots tl (D ++ w :: U) := by
  have hw := h.size (w := w) (by simp)
  rw [slots_append, List.mem_append]
  right
  simp only [slots, List.map_cons, LapRing.cells_cons, List.mem_append, List.mem_range'_1]
  left
  omega

/-- **Completion**: the hardware gives the first descriptor of the oldest frame
back. -/
theorem complete {ctl : BitVec 32} (h : Window M r tl D (w :: U) busy)
    (hc : Completes M (r (after tl D)).ctl ctl) :
    Window M (setCtl r (after tl D) ctl) tl (D ++ [w]) U busy := by
  obtain ⟨hlen, hlast, hwrap, hused⟩ := hc
  have hassoc : D ++ [w] ++ U = D ++ w :: U := by simp
  have hnd := h.packed.nodup
  have hq := h.oldest_mem
  have hw := h.size (w := w) (by simp)
  have hne : ∀ j, j ≠ after tl D → setCtl r (after tl D) ctl j = r j :=
    fun j hj => Function.update_of_ne hj _ _
  rw [← slots, slots_append, List.nodup_append] at hnd
  obtain ⟨-, hnd2, hdisj⟩ := hnd
  simp only [slots, List.map_cons, LapRing.cells_cons] at hnd2 hdisj
  rw [List.nodup_append] at hnd2
  have hq' : after tl D ∈ List.range' (after tl D) w.length := by
    rw [List.mem_range'_1]
    omega
  refine ⟨by rw [hassoc]; exact h.packed, by rw [hassoc]; exact h.short, ?_, ?_, ?_⟩
  · rw [frames_append]
    refine ⟨h.done.congr fun j hj => hne j ?_, ?_⟩
    · rintro rfl
      exact hdisj _ hj _ (List.mem_append_left _ hq') rfl
    · cases w with
      | nil => exact absurd hw.1 (by simp)
      | cons g gs =>
          refine ⟨⟨?_, h.todo.1.2.congr fun j h1 _ => hne j (by omega)⟩, trivial⟩
          have hd := h.todo.1.1
          constructor
          · simpa [setCtl] using hd.addr
          · simpa [setCtl] using hd.addrhi
          · simpa [setCtl, hlen] using hd.len
          · simpa [setCtl, has_congr hlast] using hd.last
          · simpa [setCtl, has_congr hwrap] using hd.wrap
          · simpa [setCtl] using hused
  · rw [after_append]
    refine h.todo.2.congr fun j hj => hne j ?_
    rintro rfl
    exact hnd2.2.2 _ hq' _ hj rfl
  · rw [hassoc]
    intro i hi hb
    rw [hne i fun e => hi (e ▸ hq)]
    exact h.outside i hi hb

/-- What the hardware reaches next is not the first frame again. -/
theorem after_ne (h : Window M r tl D U busy) (hD : D ≠ []) :
    after tl D ≠ tl ∧ tl ∉ slots (after tl D) U := by
  obtain ⟨v, D, rfl⟩ := List.exists_cons_of_ne_nil hD
  have hv := h.size (w := v) (by simp)
  have hmem : tl ∈ slots tl (v :: D) := by
    rw [slots, List.map_cons, LapRing.cells_cons, List.mem_append, List.mem_range'_1]
    left
    omega
  have hnd := h.packed.nodup
  rw [← slots, slots_append, List.nodup_append] at hnd
  have hnot : tl ∉ slots (after tl (v :: D)) U := fun hm => hnd.2.2 _ hmem _ hm rfl
  refine ⟨?_, hnot⟩
  intro e
  cases U with
  | nil =>
      have hfree : after tl (v :: D ++ []) ∉ slots tl (v :: D ++ []) := h.packed.pos_not_mem
      rw [List.append_nil, e] at hfree
      exact hfree hmem
  | cons w U =>
      have hw := h.size (w := w) (by simp)
      refine hnot ?_
      rw [e, slots, List.map_cons, LapRing.cells_cons, List.mem_append, List.mem_range'_1]
      left
      omega

/-- A frame written behind the window joins it. -/
theorem push (h : Window M r tl D U busy)
    (hroom : descs (D ++ U) ≤ 495) (hw : SegsOk M w) (h0 : 0 < w.length)
    (hf : FrameAt M r (after tl (D ++ U)) w false)
    (hb : ∀ i ∈ busy, after tl (D ++ U) ≤ i ∧ i < after tl (D ++ U) + w.length) :
    Window M r tl D (U ++ [w]) ∅ := by
  have hw8 : w.length ≤ txMaxDmaSegs := hw.length_le
  have hassoc : D ++ (U ++ [w]) = D ++ U ++ [w] := by simp
  refine ⟨?_, ?_, h.done, ?_, ?_⟩
  · rw [hassoc, List.map_append]
    refine h.packed.push h0 hw8 ?_
    rw [descs] at hroom
    simp only [xmacNumTxDescs, txMaxDmaSegs] at hw8 ⊢
    omega
  · rw [hassoc]
    intro v hv
    rcases List.mem_append.mp hv with hv | hv
    · exact h.short v hv
    · rw [List.mem_singleton] at hv
      rw [hv]
      exact hw
  · rw [frames_append, ← after_append]
    exact ⟨h.todo, hf, trivial⟩
  · rw [hassoc, slots_append]
    intro i hi _
    rw [List.mem_append, not_or] at hi
    refine h.outside i hi.1 fun hib => hi.2 ?_
    simpa [slots, List.mem_range'_1] using hb i hib

/-- The descriptors the next frame will take are free. -/
theorem next_free (h : Window M r tl D U busy) (hroom : descs (D ++ U) ≤ 495)
    (hw : SegsOk M w) {j : ℕ} (hj : j < w.length) :
    after tl (D ++ U) + j ∉ slots tl (D ++ U) := by
  have hw8 : w.length ≤ txMaxDmaSegs := hw.length_le
  refine h.packed.push_disjoint (n := w.length) (by omega) hw8 ?_ hj
  rw [descs] at hroom
  simp only [xmacNumTxDescs, txMaxDmaSegs] at hw8 ⊢
  omega

/-- **Freeing**, past the last descriptor of a frame. -/
theorem pop {g : Seg} (h : Window M r tl ([g] :: D) U ∅) :
    Window M r (behindFrame tl 1) D U ∅ where
  packed := h.packed.tail
  short := fun v hv => h.short v (List.mem_cons_of_mem _ hv)
  done := h.done.2
  todo := h.todo
  outside := by
    intro i hi hb
    by_cases hit : i = tl
    · rw [hit]
      exact h.done.1.1.used
    · refine h.outside i ?_ hb
      intro hm
      rcases List.mem_cons.mp hm with e | hm
      · exact hit e
      · exact hi hm

/-- **Freeing**, on to the next descriptor of a frame, which is given back. -/
theorem advance {g g' : Seg} {gs : List Seg} (h : Window M r tl ((g :: g' :: gs) :: D) U ∅) :
    Window M (setCtl r (tl + 1) ((r (tl + 1)).ctl ||| M.used)) (tl + 1)
      ((g' :: gs) :: D) U ∅ := by
  have hslots : slots tl ((g :: g' :: gs) :: D ++ U) =
      tl :: slots (tl + 1) ((g' :: gs) :: D ++ U) := LapRing.cells_succ
  have hpos : after tl ((g :: g' :: gs) :: D) = after (tl + 1) ((g' :: gs) :: D) :=
    LapRing.pos_succ
  have hpacked : LapRing.Packed xmacNumTxDescs txMaxDmaSegs (tl + 1)
      (((g' :: gs) :: D ++ U).map List.length) :=
    LapRing.Packed.advance h.packed (Nat.succ_pos _)
  have hmem : tl + 1 ∈ List.range' (tl + 1) (g' :: gs).length := by
    rw [List.mem_range'_1, List.length_cons]
    omega
  have hne : ∀ j, j ≠ tl + 1 →
      setCtl r (tl + 1) ((r (tl + 1)).ctl ||| M.used) j = r j :=
    fun j hj => Function.update_of_ne hj _ _
  -- the descriptor written is in the first frame, so in no other
  have hrest : ∀ j ∈ slots (behindFrame (tl + 1) (g' :: gs).length) (D ++ U), j ≠ tl + 1 := by
    rintro j hj rfl
    have hnd := hpacked.nodup
    rw [List.cons_append, List.map_cons, LapRing.cells_cons, List.nodup_append] at hnd
    exact hnd.2.2 _ hmem _ hj rfl
  rw [slots_append] at hrest
  refine ⟨hpacked, ?_, ⟨⟨?_, ?_⟩, ?_⟩, ?_, ?_⟩
  · intro v hv
    rcases List.mem_cons.mp hv with rfl | hv
    · have hs := h.short (g :: g' :: gs) List.mem_cons_self
      have hl := hs.length_le
      rw [List.length_cons] at hl
      exact ⟨by omega, fun a ha => hs.len_ok a (List.mem_cons_of_mem _ ha)⟩
    · exact h.short v (List.mem_cons_of_mem _ hv)
  · have hd := h.done.1.2.1
    constructor
    · simpa [setCtl] using hd.addr
    · simpa [setCtl] using hd.addrhi
    · simpa [setCtl, or_and_of_disjoint M.used_len] using hd.len
    · simpa [setCtl, has_of_disjoint M.used_last] using hd.last
    · simpa [setCtl, has_of_disjoint M.used_wrap] using hd.wrap
    · simp [setCtl, has_self M.used_ne]
  · exact h.done.1.2.2.congr fun j h1 _ => hne j (by omega)
  · have hd := h.done.2
    rw [show (g :: g' :: gs).length = (g' :: gs).length + 1 from rfl, behindFrame,
      ← LapRing.next_succ] at hd
    exact hd.congr fun j hj => hne j (hrest j (List.mem_append_left _ hj))
  · have ht := h.todo
    rw [hpos] at ht
    exact ht.congr fun j hj => hne j (hrest j (List.mem_append_right _ hj))
  · intro i hi hb
    rw [hne i (fun e => hi ?_)]
    · by_cases hit : i = tl
      · rw [hit]
        exact h.done.1.1.used
      · refine h.outside i ?_ hb
        intro hm
        rw [hslots, List.mem_cons] at hm
        exact hm.elim hit hi
    · rw [e, List.cons_append, slots, List.map_cons, LapRing.cells_cons]
      exact List.mem_append_left _ hmem

end Window

end Phytium.Xmac
