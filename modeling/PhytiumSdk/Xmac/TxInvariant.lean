import PhytiumSdk.Xmac.TxWindow
import Mathlib.Data.List.GetD
import Mathlib.Order.Interval.Set.Basic

/-!
# The transmit ring between any two accesses

For each point of the code a structure says what the ring holds while the
driver stands there: `Settled` outside the loops, `Ready` before a packet is
taken, `Filling` in the loop that writes descriptors, `Committing` before the
head pointer moves, `Skipping` and `Marking` in the loop that frees a frame.
Each has one lemma for the step taken from it. `TxInv` collects them by program
counter, and `Kept` says what a driver step leaves alone: where the hardware
stands and what it has yet to see.
-/

namespace Phytium.Xmac

open Lib Lib.Mask

variable {M : TxbufMasks} {r : ℕ → TxDesc} {s s' : TxState} {D U : List (List Seg)}
  {segs : List Seg} {i hd : ℕ}

/-! ## What the ring holds at each point -/

structure Settled (M : TxbufMasks) (s : TxState) (D U : List (List Seg)) : Prop where
  window : Window M s.txring s.txringTlPtr D U ∅
  head : s.txringHdPtr = after s.txringTlPtr (D ++ U)
  count : s.txringQueued = (descs (D ++ U) : ℕ)

structure Ready (M : TxbufMasks) (s : TxState) (D U : List (List Seg)) : Prop
    extends Settled M s D U where
  room : descs (D ++ U) ≤ 495

/-- What the loop has written when it stands before the given store of
descriptor `hd + i`. -/
def Filled (M : TxbufMasks) (r : ℕ → TxDesc) (hd : ℕ) (segs : List Seg) (i : ℕ) :
    FillStore → Prop
  | .addr => FrameAt M r (hd + i + 1) (segs.drop (i + 1)) false
  | .addrhi =>
      (r (hd + i)).addr = (segAt segs i).dsAddr.setWidth 32 ∧
      FrameAt M r (hd + i + 1) (segs.drop (i + 1)) false
  | .ctl =>
      (r (hd + i)).addr = (segAt segs i).dsAddr.setWidth 32 ∧
      (r (hd + i)).addrhi = ((segAt segs i).dsAddr >>> 32).setWidth 32 ∧
      FrameAt M r (hd + i + 1) (segs.drop (i + 1)) false
  | .slot => 0 < i ∧ FrameAt M r (hd + i) (segs.drop i) false

/-- While a frame is written, its first descriptor still has `USED` set. -/
structure Filling (M : TxbufMasks) (s : TxState) (D U : List (List Seg)) (segs : List Seg)
    (i : ℕ) (store : FillStore) : Prop where
  window : Window M s.txring s.txringTlPtr D U
    (Set.Ioo s.txringHdPtr (s.txringHdPtr + segs.length))
  head : s.txringHdPtr = after s.txringTlPtr (D ++ U)
  count : s.txringQueued = (descs (D ++ U) : ℕ)
  room : descs (D ++ U) ≤ 495
  segs_ok : SegsOk M segs
  lt : i < segs.length
  filled : Filled M s.txring s.txringHdPtr segs i store

/-- The frame is the hardware's, and the driver has not counted it yet. -/
structure Committing (M : TxbufMasks) (s : TxState) (D U : List (List Seg))
    (segs : List Seg) : Prop where
  window : Window M s.txring s.txringTlPtr D U ∅
  head : behindFrame s.txringHdPtr segs.length = after s.txringTlPtr (D ++ U)
  count : s.txringQueued + segs.length = (descs (D ++ U) : ℕ)
  nonneg : 0 ≤ s.txringQueued

/-- The rest of the frame being freed is the first frame of the window. -/
structure Skipping (M : TxbufMasks) (s : TxState) (D U : List (List Seg))
    (ctl : BitVec 32) : Prop extends Settled M s D U where
  freeing : D ≠ []
  last : has ctl M.last = has (s.txring s.txringTlPtr).ctl M.last
  wrap : has ctl M.wrap = has (s.txring s.txringTlPtr).ctl M.wrap

/-- As `Skipping`, once `ctl | USED` has been stored. -/
structure Marking (M : TxbufMasks) (s : TxState) (D U : List (List Seg))
    (ctl : BitVec 32) : Prop where
  window : Window M (setCtl s.txring s.txringTlPtr (ctl ||| M.used)) s.txringTlPtr D U ∅
  head : s.txringHdPtr = after s.txringTlPtr (D ++ U)
  count : s.txringQueued = (descs (D ++ U) : ℕ)
  freeing : D ≠ []
  loaded : ctl = (s.txring s.txringTlPtr).ctl

/-- What the ring holds when the driver stands at the given point. -/
def AtPc (M : TxbufMasks) (s : TxState) (D U : List (List Seg)) : TxPc → Prop
  | .idle | .space | .spaceAgain | .cleanTest _ => Settled M s D U
  | .dequeue => Ready M s D U
  | .fill segs i store => Filling M s D U segs i store
  | .commit segs => Committing M s D U segs
  | .cleanSkip _ ctl => Skipping M s D U ctl
  | .cleanMark _ ctl => Marking M s D U ctl

/-- The invariant of the transmit ring, with the completed frames `D` and the
frames `U` still to be transmitted. -/
structure TxInv (M : TxbufMasks) (s : TxState) (D U : List (List Seg)) : Prop where
  atPc : AtPc M s D U s.pc
  short : ∀ m ∈ s.sendq, m.chain.Short

/-- The frames the hardware has yet to transmit, the one being written
included. -/
def unsent (U : List (List Seg)) : TxPc → List (List Seg)
  | .fill segs _ _ => U ++ [segs]
  | _ => U

/-- `1` while a frame is being freed. -/
def inFlight : TxPc → ℕ
  | .cleanSkip _ _ | .cleanMark _ _ => 1
  | _ => 0

/-- What a step of the driver leaves alone. -/
structure Kept (s : TxState) (D U : List (List Seg)) (s' : TxState) (D' U' : List (List Seg)) :
    Prop where
  pointer : after s'.txringTlPtr D' = after s.txringTlPtr D
  unsent : ∃ new, s'.queuedPkts = s.queuedPkts ++ new ∧
    unsent U' s'.pc = unsent U s.pc ++ new
  freed : s'.freedFrames + D'.length + inFlight s.pc =
    s.freedFrames + D.length + inFlight s'.pc

/-- A step that neither frees nor takes a packet. -/
theorem Kept.same {U' : List (List Seg)} (ht : s'.txringTlPtr = s.txringTlPtr)
    (hq : s'.queuedPkts = s.queuedPkts) (hf : s'.freedFrames = s.freedFrames)
    (hu : Xmac.unsent U' s'.pc = Xmac.unsent U s.pc) (hi : inFlight s'.pc = inFlight s.pc) :
    Kept s D U s' D U' := by
  refine ⟨by rw [ht], ⟨[], ?_, ?_⟩, by rw [hf, hi]⟩
  · rw [hq, List.append_nil]
  · rw [hu, List.append_nil]

/-- What every step lemma below establishes. -/
def Steps (M : TxbufMasks) (s : TxState) (D U : List (List Seg)) (s' : TxState) : Prop :=
  ∃ D' U', AtPc M s' D' U' s'.pc ∧ Kept s D U s' D' U'

/-! ## The loop that writes descriptors -/

theorem setCtl_self (r : ℕ → TxDesc) (i : ℕ) (v : BitVec 32) :
    setCtl r i v i = { r i with ctl := v } := Function.update_self _ _ _

theorem setCtl_of_ne {i j : ℕ} (h : j ≠ i) (v : BitVec 32) : setCtl r i v j = r j :=
  Function.update_of_ne h _ _

theorem setAddr_of_ne {i j : ℕ} (h : j ≠ i) (v : BitVec 32) : setAddr r i v j = r j :=
  Function.update_of_ne h _ _

theorem setAddrhi_of_ne {i j : ℕ} (h : j ≠ i) (v : BitVec 32) : setAddrhi r i v j = r j :=
  Function.update_of_ne h _ _

@[simp] theorem setAddr_ctl (i j : ℕ) (v : BitVec 32) : (setAddr r i v j).ctl = (r j).ctl := by
  by_cases h : j = i
  · subst h
    simp [setAddr]
  · rw [setAddr_of_ne h]

@[simp] theorem setAddrhi_ctl (i j : ℕ) (v : BitVec 32) :
    (setAddrhi r i v j).ctl = (r j).ctl := by
  by_cases h : j = i
  · subst h
    simp [setAddrhi]
  · rw [setAddrhi_of_ne h]

/-- A store that leaves the written descriptors alone. -/
theorem filled_frame {r' : ℕ → TxDesc} (hr : ∀ j, hd + i < j → r' j = r j)
    (h : FrameAt M r (hd + i + 1) (segs.drop (i + 1)) false) :
    FrameAt M r' (hd + i + 1) (segs.drop (i + 1)) false :=
  h.congr fun j h1 _ => hr j h1

/-- The control word of descriptor `i` says what `Describes` asks for. -/
theorem describes_txCtl {d : TxDesc} (hi : i < segs.length) (hok : SegsOk M segs)
    (haddr : d.addr = (segAt segs i).dsAddr.setWidth 32)
    (haddrhi : d.addrhi = ((segAt segs i).dsAddr >>> 32).setWidth 32)
    (hctl : d.ctl = txCtl M hd segs i) :
    Describes M d (hd + i) (segAt segs i) (segs.drop (i + 1)).isEmpty false := by
  obtain ⟨hlast, hwrap, hused⟩ : M.Plain (segAt segs i).dsLen := by
    rw [segAt, List.getD_eq_getElem _ _ hi]
    exact (hok.len_ok _ (List.getElem_mem hi)).2
  have hlw : M.last &&& M.wrap = 0#32 := by rw [BitVec.and_comm, M.wrap_last]
  have hlu : M.last &&& M.used = 0#32 := by rw [BitVec.and_comm, M.used_last]
  have hwu : M.wrap &&& M.used = 0#32 := by rw [BitVec.and_comm, M.used_wrap]
  by_cases hl : i + 1 = segs.length
  · have hempty : (segs.drop (i + 1)).isEmpty = true := by
      rw [hl, List.drop_length]
      rfl
    have hwraps : wraps (hd + i) 1 = wraps hd segs.length := by
      rw [← hl, wraps, wraps, Nat.add_assoc hd i 1]
    rw [txCtl, if_pos hl] at hctl
    rw [hempty]
    split at hctl
    · rename_i hw
      constructor
      · exact haddr
      · exact haddrhi
      · rw [hctl, or_and_of_disjoint M.wrap_len, or_and_of_disjoint M.last_len]
      · simp [hctl, hlast, has_self M.last_ne]
      · simp [hctl, hwrap, has_of_disjoint hlw, has_self M.wrap_ne, hwraps, hw]
      · simp [hctl, hused, has_of_disjoint hlu, has_of_disjoint hwu]
    · rename_i hw
      constructor
      · exact haddr
      · exact haddrhi
      · rw [hctl, or_and_of_disjoint M.last_len]
      · simp [hctl, hlast, has_self M.last_ne]
      · simp [hctl, hwrap, has_of_disjoint hlw, hwraps, hw]
      · simp [hctl, hused, has_of_disjoint hlu]
  · have hempty : (segs.drop (i + 1)).isEmpty = false := by
      rw [List.isEmpty_eq_false_iff, ne_eq, List.drop_eq_nil_iff]
      omega
    rw [txCtl, if_neg hl] at hctl
    rw [hempty]
    constructor
    · exact haddr
    · exact haddrhi
    · rw [hctl]
    · rw [hctl, hlast]
    · rw [hctl, hwrap, Bool.false_and]
    · rw [hctl, hused]

theorem drop_segAt (hi : i < segs.length) :
    segs.drop i = segAt segs i :: segs.drop (i + 1) := by
  rw [List.drop_eq_getElem_cons hi, segAt, List.getD_eq_getElem _ _ hi]

/-- The descriptor being written is behind the window. -/
theorem Filling.ne_of_mem {store : FillStore} {j : ℕ} (h : Filling M s D U segs i store)
    (hj : j ∈ slots s.txringTlPtr (D ++ U)) : j ≠ s.txringHdPtr + i := by
  have hfree := h.window.next_free h.room h.segs_ok h.lt
  rw [← h.head] at hfree
  rintro rfl
  exact hfree hj

/-- With the control word of descriptor `i` the frame is complete from there
on. -/
theorem Filling.frame_ctl (h : Filling M s D U segs i .ctl) :
    FrameAt M (setCtl s.txring (s.txringHdPtr + i) (txCtl M s.txringHdPtr segs i))
      (s.txringHdPtr + i) (segs.drop i) false := by
  obtain ⟨haddr, haddrhi, hrest⟩ := h.filled
  have hself := setCtl_self s.txring (s.txringHdPtr + i) (txCtl M s.txringHdPtr segs i)
  rw [drop_segAt h.lt]
  constructor
  · apply describes_txCtl h.lt h.segs_ok
    · rw [hself]
      exact haddr
    · rw [hself]
      exact haddrhi
    · rw [hself]
  · exact filled_frame (fun j hj => setCtl_of_ne (Nat.ne_of_gt hj) _) hrest

/-- The store to the control word of the first descriptor touches no frame of the
window. -/
theorem Filling.window_ctl (h : Filling M s D U segs 0 .ctl) :
    Window M (setCtl s.txring s.txringHdPtr (txCtl M s.txringHdPtr segs 0)) s.txringTlPtr D U
      (Set.Ico s.txringHdPtr (s.txringHdPtr + segs.length)) := by
  refine h.window.congr (fun j hj => setCtl_of_ne (h.ne_of_mem hj) _) ?_
  intro j hj hb
  rw [setCtl_of_ne]
  · refine h.window.outside j hj fun hb' => hb ?_
    exact ⟨hb'.1.le, hb'.2⟩
  · rintro rfl
    exact hb ⟨le_rfl, Nat.lt_add_of_pos_right h.lt⟩

/-- **The last store**, to the control word of the first descriptor, hands the
frame to the hardware: it joins the window. -/
theorem Filling.handOver (h : Filling M s D U segs 0 .ctl) (hpc : s.pc = .fill segs 0 .ctl) :
    Steps M s D U (fillStep M s segs 0 .ctl) := by
  have hframe := h.frame_ctl
  rw [Nat.add_zero, List.drop_zero] at hframe
  have hpush := h.window_ctl.push h.room h.segs_ok h.lt (by rw [← h.head]; exact hframe)
    (by rw [← h.head]; exact fun j hj => hj)
  refine ⟨D, U ++ [segs], ⟨hpush, ?_, ?_, ?_⟩, ?_⟩
  · rw [← List.append_assoc, after_append, fillStep, ← h.head]
    rfl
  · rw [← List.append_assoc, descs_append, Nat.cast_add, ← h.count]
    rfl
  · exact h.count ▸ Int.natCast_nonneg _
  · exact .same rfl rfl rfl (by rw [hpc]; rfl) (by rw [hpc]; rfl)

/-- The other control words are not yet the hardware's to look at. -/
theorem Filling.storeCtl (h : Filling M s D U segs i .ctl) (hpc : s.pc = .fill segs i .ctl)
    (hi : i ≠ 0) : Steps M s D U (fillStep M s segs i .ctl) := by
  have hpos : 0 < i := Nat.pos_of_ne_zero hi
  have hpc' : (fillStep M s segs i .ctl).pc = .fill segs i .slot := if_neg hi
  refine ⟨D, U, ?_, .same rfl rfl rfl (by rw [hpc, hpc']; rfl) (by rw [hpc, hpc']; rfl)⟩
  rw [hpc']
  refine ⟨?_, h.head, h.count, h.room, h.segs_ok, h.lt, hpos, h.frame_ctl⟩
  refine h.window.congr (fun j hj => setCtl_of_ne (h.ne_of_mem hj) _) ?_
  intro j hj hb
  show has (setCtl s.txring _ _ j).ctl M.used = true
  rw [setCtl_of_ne]
  · exact h.window.outside j hj hb
  · rintro rfl
    exact hb ⟨Nat.lt_add_of_pos_right hpos, Nat.add_lt_add_left h.lt _⟩

/-- One store of the loop. -/
theorem Filling.step {store : FillStore} (h : Filling M s D U segs i store)
    (hpc : s.pc = .fill segs i store) : Steps M s D U (fillStep M s segs i store) := by
  cases store with
  | addr =>
      refine ⟨D, U, ⟨?_, h.head, h.count, h.room, h.segs_ok, h.lt, ?_, ?_⟩, ?_⟩
      · refine h.window.congr (fun j hj => setAddr_of_ne (h.ne_of_mem hj) _) ?_
        intro j hj hb
        rw [fillStep, setAddr_ctl]
        exact h.window.outside j hj hb
      · simp [fillStep, setAddr]
      · exact filled_frame (fun j hj => setAddr_of_ne (Nat.ne_of_gt hj) _) h.filled
      · exact .same rfl rfl rfl (by rw [hpc]; rfl) (by rw [hpc]; rfl)
  | addrhi =>
      refine ⟨D, U, ⟨?_, h.head, h.count, h.room, h.segs_ok, h.lt, ?_, ?_, ?_⟩, ?_⟩
      · refine h.window.congr (fun j hj => setAddrhi_of_ne (h.ne_of_mem hj) _) ?_
        intro j hj hb
        rw [fillStep, setAddrhi_ctl]
        exact h.window.outside j hj hb
      · simpa [fillStep, setAddrhi] using h.filled.1
      · simp [fillStep, setAddrhi]
      · exact filled_frame (fun j hj => setAddrhi_of_ne (Nat.ne_of_gt hj) _) h.filled.2
      · exact .same rfl rfl rfl (by rw [hpc]; rfl) (by rw [hpc]; rfl)
  | ctl =>
      by_cases hi : i = 0
      · subst hi
        exact h.handOver hpc
      · exact h.storeCtl hpc hi
  | slot =>
      obtain ⟨hi, hframe⟩ := h.filled
      have hi' : i - 1 + 1 = i := Nat.sub_add_cancel hi
      refine ⟨D, U, ⟨h.window, h.head, h.count, h.room, h.segs_ok, ?_, ?_⟩, ?_⟩
      · exact lt_of_le_of_lt (Nat.sub_le _ _) h.lt
      · show FrameAt M s.txring (s.txringHdPtr + (i - 1) + 1) (segs.drop (i - 1 + 1)) false
        rw [Nat.add_assoc, hi']
        exact hframe
      · exact .same rfl rfl rfl (by rw [hpc]; rfl) (by rw [hpc]; rfl)

/-! ## The other steps of `phytium_xmac_start_locked` -/

theorem noSpace_iff : noSpace s = true ↔ (496 : ℤ) ≤ s.txringQueued := by
  rw [noSpace, decide_eq_true_iff]
  rfl

/-- Behind the test for space there is room for one more frame. -/
theorem Settled.ready (h : Settled M s D U) (hs : noSpace s = false) : Ready M s D U := by
  refine ⟨h, ?_⟩
  have hc := h.count
  have hn : ¬ (496 : ℤ) ≤ s.txringQueued := by
    rw [← noSpace_iff, hs]
    decide
  omega

/-- A packet without segments takes no descriptor. -/
theorem Ready.acceptPacket {m : Mbuf} (h : Ready M s D U) (hok : SegsOk M segs)
    (hpc : s.pc = .dequeue) : Steps M s D U (acceptPacket s m segs) := by
  by_cases hseg : segs = []
  · subst hseg
    refine ⟨D, U, ⟨h.window, ?_, ?_, ?_⟩,
      .same rfl rfl rfl (by rw [hpc]; rfl) (by rw [hpc]; rfl)⟩
    · have hle := h.window.head_le
      rw [← h.head] at hle
      refine (if_neg ?_).trans h.head
      show ¬ 512 ≤ s.txringHdPtr + 0 + 8
      omega
    · simp [Xmac.acceptPacket, h.count]
    · exact h.count ▸ Int.natCast_nonneg _
  · have hpc' : (Xmac.acceptPacket s m segs).pc = .fill segs (segs.length - 1) .addr :=
      if_neg hseg
    have hq : (Xmac.acceptPacket s m segs).queuedPkts = s.queuedPkts ++ [segs] := if_neg hseg
    have hlen : 0 < segs.length := List.length_pos_iff.mpr hseg
    refine ⟨D, U, ?_, rfl, ⟨[segs], hq, by rw [hpc, hpc']; rfl⟩, by rw [hpc, hpc']; rfl⟩
    rw [hpc']
    refine ⟨?_, h.head, h.count, h.room, hok, Nat.sub_lt hlen Nat.one_pos, ?_⟩
    · exact h.window.congr (fun _ _ => rfl) fun j hj _ => h.window.outside j hj fun hb => hb
    · show FrameAt M _ _ (segs.drop (segs.length - 1 + 1)) false
      rw [Nat.sub_add_cancel hlen, List.drop_length]
      trivial

theorem takenSegs_chain {defrag : Option MbufChain} (h : takenSegs defrag s = some segs) :
    (∃ m ∈ s.sendq, getSegsForTx m.chain = .ok segs) ∨
    ∃ c ∈ defrag, getSegsForTx c = .ok segs := by
  unfold takenSegs at h
  split at h
  · cases h
  · rename_i m q hq
    split at h
    · rename_i segs' hsegs
      cases h
      exact Or.inl ⟨m, hq ▸ List.mem_cons_self, hsegs⟩
    · obtain ⟨c, hc, hsegs⟩ := Option.bind_eq_some_iff.mp h
      cases hg : getSegsForTx c with
      | error e =>
          rw [hg] at hsegs
          cases hsegs
      | ok segs' =>
          rw [hg] at hsegs
          cases hsegs
          exact Or.inr ⟨c, hc, hg⟩

theorem takenSegs_plain {defrag : Option MbufChain} (h : takenSegs defrag s = some segs)
    (hplain : ∀ g ∈ segs, M.Plain g.dsLen) : SegsOk M segs := by
  rcases takenSegs_chain h with ⟨m, -, hsegs⟩ | ⟨c, -, hsegs⟩
  · exact getSegsForTx_ok hsegs hplain
  · exact getSegsForTx_ok hsegs hplain

theorem takenSegs_short {defrag : Option MbufChain} (hshort : ∀ m ∈ s.sendq, m.chain.Short)
    (hd : ∀ c ∈ defrag, c.Short) (h : takenSegs defrag s = some segs) :
    ∀ g ∈ segs, g.dsLen ≤ 0x3FFF := by
  rcases takenSegs_chain h with ⟨m, hm, hsegs⟩ | ⟨c, hc, hsegs⟩
  · exact getSegsForTx_short (hshort m hm) hsegs
  · exact getSegsForTx_short (hd c hc) hsegs

theorem takenSegs_ok {defrag : Option MbufChain} (hshort : ∀ m ∈ s.sendq, m.chain.Short)
    (hd : ∀ c ∈ defrag, c.Short) (h : takenSegs defrag s = some segs) : SegsOk M segs :=
  takenSegs_plain h fun g hg => M.plain_of_le (takenSegs_short hshort hd h g hg)

theorem Ready.dequeued {defrag : Option MbufChain} (h : Ready M s D U)
    (hpc : s.pc = .dequeue) (hok : ∀ segs, takenSegs defrag s = some segs → SegsOk M segs)
    (hd : Dequeued defrag s s') : Steps M s D U s' := by
  cases hd with
  | nothing =>
      exact ⟨D, U, ⟨h.window, h.head, h.count⟩,
        .same rfl rfl rfl (by rw [hpc]; rfl) (by rw [hpc]; rfl)⟩
  | accepted m m' q k segs _ _ hsegs =>
      -- the state the packet is accepted in differs from `s` in counters only
      have hready : Ready M { s with sendq := q, txdefrags := k } D U :=
        ⟨⟨h.window, h.head, h.count⟩, h.room⟩
      obtain ⟨D', U', hat, hk⟩ := hready.acceptPacket (m := m') (hok segs hsegs) hpc
      exact ⟨D', U', hat, hk.pointer, hk.unsent, hk.freed⟩
  | freed =>
      exact ⟨D, U, ⟨h.window, h.head, h.count⟩,
        .same rfl rfl rfl (by rw [hpc]; rfl) (by rw [hpc]; rfl)⟩

theorem Committing.step {hw : XmacHw} (h : Committing M s D U segs)
    (hpc : s.pc = .commit segs) : Steps M s D U (commitStep hw s segs) := by
  refine ⟨D, U, ⟨h.window, ?_, h.count⟩,
    .same rfl rfl rfl (by rw [hpc]; rfl) (by rw [hpc]; rfl)⟩
  have hhd := h.head
  rw [behindFrame_eq] at hhd
  exact hhd

/-! ## `phytium_xmac_clean_tx` -/

/-- A frame may be freed once the hardware has given its first descriptor
back. -/
theorem Settled.cleanTest {caller : CleanCaller} (h : Settled M s D U)
    (hpc : s.pc = .cleanTest caller) : Steps M s D U (cleanTestStep M s caller) := by
  unfold cleanTestStep
  dsimp only
  split
  · rename_i hc
    refine ⟨D, U, ⟨⟨h.window, h.head, h.count⟩, ?_, rfl, rfl⟩, rfl,
      ⟨[], (List.append_nil _).symm, by rw [hpc]; simp [Xmac.unsent]⟩, ?_⟩
    · rintro rfl
      -- nothing completed: the descriptor at the tail, if any, is the hardware's
      cases U with
      | nil =>
          have hz : s.txringQueued = 0 := h.count
          omega
      | cons w U =>
          have hlen := (h.window.size (w := w) (by simp)).1
          cases w with
          | nil => exact absurd hlen (Nat.lt_irrefl 0)
          | cons g gs =>
              have hu := h.window.todo.1.1.used
              rw [show after s.txringTlPtr [] = s.txringTlPtr from rfl, hc.2] at hu
              cases hu
    · rw [hpc]
      simp only [inFlight]
      omega
  · cases caller with
    | intr =>
        exact ⟨D, U, ⟨h.window, h.head, h.count⟩,
          .same rfl rfl rfl (by rw [hpc]; rfl) (by rw [hpc]; rfl)⟩
    | start =>
        exact ⟨D, U, ⟨h.window, h.head, h.count⟩,
          .same rfl rfl rfl (by rw [hpc]; rfl) (by rw [hpc]; rfl)⟩

/-- **The inner loop**: it steps over one descriptor of a completed frame, and
at the frame's last one it is done. -/
theorem Skipping.step {caller : CleanCaller} {ctl : BitVec 32} (h : Skipping M s D U ctl)
    (hpc : s.pc = .cleanSkip caller ctl) : Steps M s D U (cleanSkipStep M s caller ctl) := by
  obtain ⟨w, D, rfl⟩ := List.exists_cons_of_ne_nil h.freeing
  have hlen := (h.window.size (w := w) (by simp)).1
  obtain ⟨g, gs, rfl⟩ := List.exists_cons_of_length_pos hlen
  have hd := h.window.done.1.1
  have hlast := h.last.trans hd.last
  have hbehind : behind M ctl s.txringTlPtr = behind M (s.txring s.txringTlPtr).ctl
      s.txringTlPtr := by rw [behind, behind, h.wrap]
  have hcount := h.count
  unfold cleanSkipStep
  dsimp only
  rw [hlast]
  cases gs with
  | nil =>
      rw [hbehind, hd.behind_last, if_pos (by rfl)]
      refine ⟨D, U, ⟨h.window.pop, h.head, ?_⟩, rfl,
        ⟨[], (List.append_nil _).symm, by rw [hpc]; simp [Xmac.unsent]⟩, ?_⟩
      · rw [List.cons_append, descs_cons, List.length_singleton] at hcount
        show s.txringQueued - 1 = _
        omega
      · rw [hpc]
        simp only [inFlight, List.length_cons]
        omega
  | cons g' gs =>
      rw [hbehind, hd.behind_mid, if_neg (by simp)]
      refine ⟨(g' :: gs) :: D, U, ⟨h.window.advance, ?_, ?_, List.cons_ne_nil _ _, rfl⟩, ?_,
        ⟨[], (List.append_nil _).symm, by rw [hpc]; simp [Xmac.unsent]⟩, ?_⟩
      · rw [h.head]
        exact LapRing.pos_succ
      · rw [List.cons_append, descs_cons, List.length_cons] at hcount
        rw [List.cons_append, descs_cons]
        show s.txringQueued - 1 = _
        omega
      · exact LapRing.pos_succ.symm
      · rw [hpc]
        rfl

theorem Marking.step {caller : CleanCaller} {ctl : BitVec 32} (h : Marking M s D U ctl)
    (hpc : s.pc = .cleanMark caller ctl) : Steps M s D U (cleanMarkStep M s caller ctl) := by
  refine ⟨D, U, ⟨⟨h.window, h.head, h.count⟩, h.freeing, ?_, ?_⟩,
    .same rfl rfl rfl (by rw [hpc]; rfl) (by rw [hpc]; rfl)⟩
  · simp [cleanMarkStep, setCtl_self, has_of_disjoint M.used_last]
  · simp [cleanMarkStep, setCtl_self, has_of_disjoint M.used_wrap]

/-! ## All steps -/

theorem driverStep_sendq {hw : XmacHw} {defrag : Option MbufChain}
    (hs : driverStep M hw defrag s = some s') : ∀ m ∈ s'.sendq, m ∈ s.sendq := by
  cases driverStep_stepped hs with
  | dequeue _ hd =>
      cases hd with
      | nothing => exact fun x hx => hx
      | accepted m _ q _ _ hq => exact fun x hx => hq ▸ List.mem_cons_of_mem m hx
      | freed m _ q _ _ _ hq => exact fun x hx => hq ▸ List.mem_cons_of_mem m hx
  | fill segs i store => cases store <;> exact fun x hx => hx
  | cleanTest =>
      unfold cleanTestStep
      dsimp only
      split <;> exact fun x hx => hx
  | cleanSkip =>
      unfold cleanSkipStep
      dsimp only
      split <;> exact fun x hx => hx
  | _ => exact fun x hx => hx

/-- **A step of the driver** keeps what the ring holds, if the packet it takes is
one the descriptors can carry; what it does to the list of frames the hardware
cannot tell. -/
theorem AtPc.driverStep {hw : XmacHw} {defrag : Option MbufChain} (hat : AtPc M s D U s.pc)
    (hok : s.pc = .dequeue → ∀ segs, takenSegs defrag s = some segs → SegsOk M segs)
    (hs : driverStep M hw defrag s = some s') : Steps M s D U s' := by
  cases driverStep_stepped hs with
  | room hpc hsp =>
      rcases hpc with hpc | hpc
      all_goals
        rw [hpc] at hat
        have hr := Settled.ready hat hsp
        exact ⟨D, U, ⟨⟨hr.window, hr.head, hr.count⟩, hr.room⟩,
          .same rfl rfl rfl (by rw [hpc]; rfl) (by rw [hpc]; rfl)⟩
  | reclaim hpc =>
      rw [hpc] at hat
      exact ⟨D, U, ⟨hat.window, hat.head, hat.count⟩,
        .same rfl rfl rfl (by rw [hpc]; rfl) (by rw [hpc]; rfl)⟩
  | full hpc =>
      rw [hpc] at hat
      exact ⟨D, U, ⟨hat.window, hat.head, hat.count⟩,
        .same rfl rfl rfl (by rw [hpc]; rfl) (by rw [hpc]; rfl)⟩
  | dequeue hpc hd =>
      rw [hpc] at hat
      exact Ready.dequeued hat hpc (hok hpc) hd
  | fill _ _ _ hpc =>
      rw [hpc] at hat
      exact hat.step hpc
  | commit _ hpc =>
      rw [hpc] at hat
      exact hat.step hpc
  | cleanTest _ hpc =>
      rw [hpc] at hat
      exact hat.cleanTest hpc
  | cleanSkip _ _ hpc =>
      rw [hpc] at hat
      exact hat.step hpc
  | cleanMark _ _ hpc =>
      rw [hpc] at hat
      exact hat.step hpc

/-- In a ring of short packets every step of the driver keeps the invariant. -/
theorem TxInv.driverStep {hw : XmacHw} {defrag : Option MbufChain} (h : TxInv M s D U)
    (hd : ∀ c ∈ defrag, c.Short) (hs : driverStep M hw defrag s = some s') :
    ∃ D' U', TxInv M s' D' U' ∧ Kept s D U s' D' U' := by
  obtain ⟨D', U', hat, hk⟩ := h.atPc.driverStep
    (fun _ segs hsegs => takenSegs_ok h.short hd hsegs) hs
  exact ⟨D', U', ⟨hat, fun m hm => h.short m (driverStep_sendq hs m hm)⟩, hk⟩

theorem has_clearedTxring (i : ℕ) : has (clearedTxring M i).ctl M.used = true := by
  unfold clearedTxring
  dsimp only
  split
  · simp [has_self M.used_ne]
  · exact has_self M.used_ne

theorem setupDescs_inv {hw : XmacHw} : TxInv M (setupDescs M hw) [] [] :=
  ⟨⟨Window.empty has_clearedTxring, rfl, rfl⟩, by simp [setupDescs]⟩

/-- **A step around the ring** keeps what it holds; only stopping the interface
does anything the hardware can tell. -/
theorem AtPc.anyTxStep {hw : XmacHw} {e : TxEvent} (h : AtPc M s D U s.pc)
    (hok : ∀ defrag segs, e = .driver defrag → s.pc = .dequeue →
      takenSegs defrag s = some segs → SegsOk M segs)
    (hs : anyTxStep M hw s e = some s') :
    ∃ D' U', AtPc M s' D' U' s'.pc ∧ (e ≠ .down → e ≠ .stop → Kept s D U s' D' U') := by
  cases e with
  | enqueue m =>
      cases hs
      refine ⟨D, U, ?_, fun _ _ => .same rfl rfl rfl rfl rfl⟩
      show AtPc M _ D U s.pc
      generalize s.pc = pc at h ⊢
      cases pc with
      | fill segs i store =>
          exact ⟨h.window, h.head, h.count, h.room, h.segs_ok, h.lt, h.filled⟩
      | commit segs => exact ⟨h.window, h.head, h.count, h.nonneg⟩
      | cleanSkip c ctl => exact ⟨⟨h.window, h.head, h.count⟩, h.freeing, h.last, h.wrap⟩
      | cleanMark c ctl => exact ⟨h.window, h.head, h.count, h.freeing, h.loaded⟩
      | dequeue => exact ⟨⟨h.window, h.head, h.count⟩, h.room⟩
      | _ => exact ⟨h.window, h.head, h.count⟩
  | start =>
      obtain ⟨hpc, ht⟩ := Option.ite_none_right_eq_some.mp hs
      rw [hpc] at h
      cases ht
      by_cases ho : s.oactive = true
      · simp only [ho, if_true]
        exact ⟨D, U, ⟨h.window, h.head, h.count⟩,
          fun _ _ => .same rfl rfl rfl (by rw [hpc]) (by rw [hpc])⟩
      · simp only [ho]
        exact ⟨D, U, ⟨h.window, h.head, h.count⟩,
          fun _ _ => .same rfl rfl rfl (by rw [hpc]; rfl) (by rw [hpc]; rfl)⟩
  | clean =>
      obtain ⟨hpc, ht⟩ := Option.ite_none_right_eq_some.mp hs
      rw [hpc] at h
      cases ht
      exact ⟨D, U, ⟨h.window, h.head, h.count⟩,
        fun _ _ => .same rfl rfl rfl (by rw [hpc]; rfl) (by rw [hpc]; rfl)⟩
  | driver defrag =>
      obtain ⟨D', U', hat, hk⟩ :=
        h.driverStep (fun hpc segs hsegs => hok defrag segs rfl hpc hsegs) hs
      exact ⟨D', U', hat, fun _ _ => hk⟩
  | init =>
      obtain ⟨hpc, ht⟩ := Option.ite_none_right_eq_some.mp hs
      cases ht
      unfold initTx
      split
      · exact ⟨D, U, h, fun _ _ => .same rfl rfl rfl rfl rfl⟩
      · refine ⟨D, U, ?_, fun _ _ => .same rfl rfl rfl rfl rfl⟩
        rw [hpc] at h
        show AtPc M _ D U s.pc
        rw [hpc]
        exact ⟨h.window, h.head, h.count⟩
  | down =>
      obtain ⟨hpc, ht⟩ := Option.ite_none_right_eq_some.mp hs
      cases ht
      split
      · refine ⟨[], [], ?_, fun hne _ => absurd rfl hne⟩
        show AtPc M _ [] [] s.pc
        rw [hpc]
        exact ⟨Window.empty has_clearedTxring, rfl, rfl⟩
      · exact ⟨D, U, h, fun hne _ => absurd rfl hne⟩
  | stop =>
      obtain ⟨hpc, ht⟩ := Option.ite_none_right_eq_some.mp hs
      cases ht
      refine ⟨[], [], ?_, fun _ hne => absurd rfl hne⟩
      show AtPc M _ [] [] s.pc
      rw [hpc]
      exact ⟨Window.empty has_clearedTxring, rfl, rfl⟩

theorem txStep_any {hw : XmacHw} {e : TxEvent} (hs : txStep M hw s e = some s') :
    anyTxStep M hw s e = some s' := by
  cases e with
  | enqueue m => exact (Option.ite_none_right_eq_some.mp hs).2
  | driver defrag => exact (Option.ite_none_right_eq_some.mp hs).2
  | _ => exact hs

theorem txStep_short {hw : XmacHw} {e : TxEvent} (h : ∀ m ∈ s.sendq, m.chain.Short)
    (hs : txStep M hw s e = some s') : ∀ m ∈ s'.sendq, m.chain.Short := by
  cases e with
  | enqueue m =>
      obtain ⟨hm, ht⟩ := Option.ite_none_right_eq_some.mp hs
      cases ht
      intro x hx
      rcases List.mem_append.mp hx with hx | hx
      · exact h x hx
      · rw [List.mem_singleton] at hx
        rw [hx]
        exact hm
  | driver defrag =>
      obtain ⟨-, ht⟩ := Option.ite_none_right_eq_some.mp hs
      exact fun m hm => h m (driverStep_sendq ht m hm)
  | init =>
      obtain ⟨-, ht⟩ := Option.ite_none_right_eq_some.mp hs
      cases ht
      unfold initTx
      split <;> exact h
  | down =>
      obtain ⟨-, ht⟩ := Option.ite_none_right_eq_some.mp hs
      cases ht
      split <;> exact h
  | _ =>
      obtain ⟨-, ht⟩ := Option.ite_none_right_eq_some.mp hs
      cases ht
      exact h

/-- A frame that is given descriptors is that of the packet taken. -/
theorem driverStep_queued {hw : XmacHw} {defrag : Option MbufChain}
    (hs : driverStep M hw defrag s = some s') :
    ∀ w ∈ s'.queuedPkts, w ∈ s.queuedPkts ∨ takenSegs defrag s = some w := by
  cases driverStep_stepped hs with
  | dequeue _ hd =>
      cases hd with
      | nothing => exact fun _ hw' => Or.inl hw'
      | accepted _ _ _ _ segs _ _ hsegs =>
          intro w hw'
          unfold Xmac.acceptPacket at hw'
          dsimp only at hw'
          split at hw'
          · exact Or.inl hw'
          · rcases List.mem_append.mp hw' with hw' | hw'
            · exact Or.inl hw'
            · rw [List.mem_singleton.mp hw']
              exact Or.inr hsegs
      | freed => exact fun _ hw' => Or.inl hw'
  | fill _ _ store => cases store <;> exact fun _ hw' => Or.inl hw'
  | cleanTest =>
      unfold cleanTestStep
      dsimp only
      split <;> exact fun _ hw' => Or.inl hw'
  | cleanSkip =>
      unfold cleanSkipStep
      dsimp only
      split <;> exact fun _ hw' => Or.inl hw'
  | _ => exact fun _ hw' => Or.inl hw'

theorem txStep_queued {hw : XmacHw} {e : TxEvent} (h : ∀ m ∈ s.sendq, m.chain.Short)
    (hs : txStep M hw s e = some s') :
    ∀ w ∈ s'.queuedPkts, w ∈ s.queuedPkts ∨ ∀ g ∈ w, g.dsLen ≤ 0x3FFF := by
  cases e with
  | driver defrag =>
      obtain ⟨hd, ht⟩ := Option.ite_none_right_eq_some.mp hs
      intro w hw'
      exact (driverStep_queued ht w hw').imp_right (takenSegs_short h hd)
  | init =>
      obtain ⟨-, ht⟩ := Option.ite_none_right_eq_some.mp hs
      cases ht
      unfold initTx
      split <;> exact fun _ hw' => Or.inl hw'
  | down =>
      obtain ⟨-, ht⟩ := Option.ite_none_right_eq_some.mp hs
      cases ht
      split <;> exact fun _ hw' => Or.inl hw'
  | _ =>
      obtain ⟨-, ht⟩ := Option.ite_none_right_eq_some.mp hs
      cases ht
      exact fun _ hw' => Or.inl hw'

/-- A step around a ring of short packets keeps the invariant. -/
theorem TxInv.txStep {hw : XmacHw} {e : TxEvent} (h : TxInv M s D U)
    (hs : txStep M hw s e = some s') :
    ∃ D' U', TxInv M s' D' U' ∧ (e ≠ .down → e ≠ .stop → Kept s D U s' D' U') := by
  have hok : ∀ defrag segs, e = .driver defrag → s.pc = .dequeue →
      takenSegs defrag s = some segs → SegsOk M segs := by
    rintro defrag segs rfl _ hsegs
    exact takenSegs_ok h.short (Option.ite_none_right_eq_some.mp hs).1 hsegs
  obtain ⟨D', U', hat, hk⟩ := h.atPc.anyTxStep hok (txStep_any hs)
  exact ⟨D', U', ⟨hat, txStep_short h.short hs⟩, hk⟩

/-! ## What the hardware sees -/

/-- Nothing is left to transmit: the hardware stands at a `USED` descriptor. -/
theorem TxInv.used_of_nil (h : TxInv M s D []) :
    has (s.txring (after s.txringTlPtr D)).ctl M.used = true := by
  obtain ⟨hat, -⟩ := h
  have hfree : ∀ {ring : ℕ → TxDesc} {busy : Set ℕ},
      Window M ring s.txringTlPtr D [] busy → after s.txringTlPtr D ∉ busy →
      has (ring (after s.txringTlPtr D)).ctl M.used = true := by
    intro ring busy hw hb
    refine hw.outside _ ?_ hb
    have hn := hw.packed.pos_not_mem
    rw [List.append_nil] at hn ⊢
    exact hn
  generalize hpc : s.pc = pc at hat
  cases pc with
  | fill segs i store =>
      refine hfree hat.window ?_
      intro hb
      have hh := hat.head
      rw [List.append_nil] at hh
      rw [← hh] at hb
      exact absurd hb.1 (lt_irrefl _)
  | cleanMark caller ctl =>
      have hu := hfree hat.window (Set.notMem_empty _)
      rwa [setCtl_of_ne (hat.window.after_ne hat.freeing).1] at hu
  | _ => exact hfree hat.window (Set.notMem_empty _)

/-- The oldest frame still to be transmitted stands complete in the ring. -/
theorem TxInv.frameAt {w : List Seg} (h : TxInv M s D (w :: U)) :
    FrameAt M s.txring (after s.txringTlPtr D) w false ∧ SegsOk M w ∧ 0 < w.length := by
  obtain ⟨hat, -⟩ := h
  have hw : ∀ {ring : ℕ → TxDesc} {busy : Set ℕ},
      Window M ring s.txringTlPtr D (w :: U) busy → SegsOk M w ∧ 0 < w.length :=
    fun hw => ⟨hw.short w (by simp), (hw.size (by simp)).1⟩
  generalize hpc : s.pc = pc at hat
  cases pc with
  | cleanMark caller ctl =>
      refine ⟨?_, hw hat.window⟩
      obtain ⟨-, hn⟩ := hat.window.after_ne hat.freeing
      refine hat.window.todo.1.congr fun j h1 h2 => (setCtl_of_ne ?_ _).symm
      rintro rfl
      refine hn ?_
      rw [slots, List.map_cons, LapRing.cells_cons, List.mem_append, List.mem_range'_1]
      exact Or.inl ⟨h1, h2⟩
  | _ => exact ⟨hat.window.todo.1, hw hat.window⟩

/-! ## Completion

The hardware stores to the first descriptor of the oldest frame it has. -/

section Complete

variable {w : List Seg} {c ctl : BitVec 32}

/-- The state after the hardware's store. -/
def completed (s : TxState) (D : List (List Seg)) (ctl : BitVec 32) : TxState :=
  { s with txring := setCtl s.txring (after s.txringTlPtr D) ctl }

theorem completed_append (D U : List (List Seg)) (w : List Seg) :
    D ++ [w] ++ U = D ++ w :: U := by
  rw [List.append_assoc, List.singleton_append]

theorem Settled.complete (h : Settled M s D (w :: U))
    (hc : Completes M (s.txring (after s.txringTlPtr D)).ctl ctl) :
    Settled M (completed s D ctl) (D ++ [w]) U := by
  constructor
  · exact h.window.complete hc
  · rw [completed_append]
    exact h.head
  · rw [completed_append]
    exact h.count

theorem Ready.complete (h : Ready M s D (w :: U))
    (hc : Completes M (s.txring (after s.txringTlPtr D)).ctl ctl) :
    Ready M (completed s D ctl) (D ++ [w]) U := by
  refine ⟨h.toSettled.complete hc, ?_⟩
  rw [completed_append]
  exact h.room

/-- The descriptors being written are not in the window. -/
theorem Filling.completed_of_lt {store : FillStore} {j : ℕ}
    (h : Filling M s D (w :: U) segs i store) (ctl : BitVec 32) (hj : j < segs.length) :
    (completed s D ctl).txring (s.txringHdPtr + j) = s.txring (s.txringHdPtr + j) := by
  refine setCtl_of_ne ?_ _
  intro e
  have hn := h.window.next_free h.room h.segs_ok hj
  rw [← h.head, e] at hn
  exact hn h.window.oldest_mem

theorem Filling.complete {store : FillStore} (h : Filling M s D (w :: U) segs i store)
    (hc : Completes M (s.txring (after s.txringTlPtr D)).ctl ctl) :
    Filling M (completed s D ctl) (D ++ [w]) U segs i store := by
  have hframe : ∀ k, FrameAt M s.txring (s.txringHdPtr + k) (segs.drop k) false →
      FrameAt M (completed s D ctl).txring (s.txringHdPtr + k) (segs.drop k) false := by
    intro k hf
    refine hf.congr ?_
    intro j h1 h2
    obtain ⟨n, rfl⟩ := Nat.exists_eq_add_of_le h1
    rw [List.length_drop] at h2
    rw [Nat.add_assoc]
    exact h.completed_of_lt ctl (by omega)
  refine ⟨h.window.complete hc, ?_, ?_, ?_, h.segs_ok, h.lt, ?_⟩
  · rw [completed_append]
    exact h.head
  · rw [completed_append]
    exact h.count
  · rw [completed_append]
    exact h.room
  · have hi := h.completed_of_lt ctl h.lt
    have hf := h.filled
    cases store with
    | addr => exact hframe (i + 1) hf
    | addrhi => exact ⟨(congrArg TxDesc.addr hi).trans hf.1, hframe (i + 1) hf.2⟩
    | ctl =>
        exact ⟨(congrArg TxDesc.addr hi).trans hf.1, (congrArg TxDesc.addrhi hi).trans hf.2.1,
          hframe (i + 1) hf.2.2⟩
    | slot => exact ⟨hf.1, hframe i hf.2⟩

theorem Committing.complete (h : Committing M s D (w :: U) segs)
    (hc : Completes M (s.txring (after s.txringTlPtr D)).ctl ctl) :
    Committing M (completed s D ctl) (D ++ [w]) U segs := by
  refine ⟨h.window.complete hc, ?_, ?_, h.nonneg⟩
  · rw [completed_append]
    exact h.head
  · rw [completed_append]
    exact h.count

theorem Skipping.complete (h : Skipping M s D (w :: U) c)
    (hc : Completes M (s.txring (after s.txringTlPtr D)).ctl ctl) :
    Skipping M (completed s D ctl) (D ++ [w]) U c := by
  have htail : (completed s D ctl).txring s.txringTlPtr = s.txring s.txringTlPtr :=
    setCtl_of_ne (h.window.after_ne h.freeing).1.symm ctl
  refine ⟨h.toSettled.complete hc, by simp, ?_, ?_⟩
  · show _ = has ((completed s D ctl).txring s.txringTlPtr).ctl M.last
    rw [htail]
    exact h.last
  · show _ = has ((completed s D ctl).txring s.txringTlPtr).ctl M.wrap
    rw [htail]
    exact h.wrap

/-- The two stores go to different descriptors. -/
theorem Marking.complete (h : Marking M s D (w :: U) c)
    (hc : Completes M (s.txring (after s.txringTlPtr D)).ctl ctl) :
    Marking M (completed s D ctl) (D ++ [w]) U c := by
  have hne := (h.window.after_ne h.freeing).1
  have hcomm : setCtl (setCtl s.txring (after s.txringTlPtr D) ctl) s.txringTlPtr
      (c ||| M.used) =
      setCtl (setCtl s.txring s.txringTlPtr (c ||| M.used)) (after s.txringTlPtr D) ctl := by
    simp only [setCtl, Function.update_of_ne hne, Function.update_of_ne hne.symm]
    exact Function.update_comm hne _ _ _
  refine ⟨?_, ?_, ?_, by simp, ?_⟩
  · show Window M (setCtl (setCtl s.txring _ ctl) s.txringTlPtr (c ||| M.used)) _ _ _ _
    rw [hcomm]
    exact h.window.complete (by rwa [setCtl_of_ne hne])
  · rw [completed_append]
    exact h.head
  · rw [completed_append]
    exact h.count
  · show c = (setCtl s.txring _ ctl s.txringTlPtr).ctl
    rw [setCtl_of_ne hne.symm]
    exact h.loaded

/-- **Completion**, wherever the driver stands. -/
theorem AtPc.complete {pc : TxPc} (h : AtPc M s D (w :: U) pc)
    (hc : Completes M (s.txring (after s.txringTlPtr D)).ctl ctl) :
    AtPc M (completed s D ctl) (D ++ [w]) U pc := by
  cases pc with
  | dequeue => exact Ready.complete h hc
  | fill segs i store => exact Filling.complete h hc
  | commit segs => exact Committing.complete h hc
  | cleanSkip caller c => exact Skipping.complete h hc
  | cleanMark caller c => exact Marking.complete h hc
  | _ => exact Settled.complete h hc

theorem TxInv.complete (h : TxInv M s D (w :: U))
    (hc : Completes M (s.txring (after s.txringTlPtr D)).ctl ctl) :
    TxInv M { s with txring := setCtl s.txring (after s.txringTlPtr D) ctl } (D ++ [w]) U :=
  ⟨h.atPc.complete hc, h.short⟩

end Complete

end Phytium.Xmac
