import PhytiumSdk.Lib.CircularWindow
import PhytiumSdk.Xmac.TxRing

/-!
# Where a dequeued packet is

`start_locked` stores the packet it has taken into the slot of the head
pointer, and the slot is the packet's for as long as its frame is in the
window: `clean_tx` and `stop` free what they find in a slot, and a packet that
cannot be cut into segments is freed at once. `dequeued` is the history of the
packets taken.

All of this rests on the frame having a descriptor. A packet whose mbufs are
all empty has none: it is stored, the head pointer stays, and the next packet
is stored over it. And a length beyond the fourteen bits of the length field
runs into the control bits. In runs with neither no packet is lost.
-/

namespace Phytium.Xmac

open Lib Lib.Mask

variable {M : TxbufMasks} {hw : XmacHw} {r r' : ℕ → TxDesc} {s s' : TxState}
  {D U W : List (List Seg)} {w segs : List Seg} {p n i : ℕ} {first isUsed : Bool}

/-! ## The first descriptors of the frames -/

/-- The first descriptors of the frames among the `n` descriptors from `p` on:
`first` tells whether a frame starts at `p`. -/
def frameStarts (M : TxbufMasks) (r : ℕ → TxDesc) : ℕ → ℕ → Bool → List ℕ
  | 0, _, _ => []
  | n + 1, p, first =>
      (if first then [p] else []) ++
        frameStarts M r n (behind M (r p).ctl p) (has (r p).ctl M.last)

theorem frameStarts_sublist : (frameStarts M r n p first).Sublist (walk M r n p) := by
  induction n generalizing p first with
  | zero => exact List.Sublist.refl []
  | succ n ih =>
      cases first with
      | true => exact ih.cons_cons p
      | false => exact ih.cons p

/-- Where frames start depends on `LAST` and `WRAP` only. -/
theorem frameStarts_congr (hr : ∀ j ∈ walk M r n p,
      has (r' j).ctl M.last = has (r j).ctl M.last ∧
      has (r' j).ctl M.wrap = has (r j).ctl M.wrap) :
    frameStarts M r' n p first = frameStarts M r n p first := by
  induction n generalizing p first with
  | zero => rfl
  | succ n ih =>
      obtain ⟨hlast, hwrap⟩ := hr p List.mem_cons_self
      have hbehind : behind M (r' p).ctl p = behind M (r p).ctl p := by
        rw [behind, behind, hwrap]
      rw [frameStarts, frameStarts, hlast, hbehind]
      congr 1
      apply ih
      intro j hj
      exact hr j (List.mem_cons_of_mem _ hj)

theorem frameStarts_tail :
    (frameStarts M r n p true).tail = frameStarts M r n p false := by
  cases n with
  | zero => rfl
  | succ n => rfl

/-- Over a whole frame: it starts where it starts, and the next one behind
it. -/
theorem frameStarts_frame (h : FrameAt M r p w isUsed) (hne : w ≠ []) :
    frameStarts M r (w.length + n) p first =
      (if first then [p] else []) ++ frameStarts M r n (behindFrame p w.length) true := by
  induction w generalizing p first isUsed with
  | nil => exact absurd rfl hne
  | cons g gs ih =>
      rw [List.length_cons, Nat.succ_add, frameStarts, h.1.last]
      cases gs with
      | nil =>
          rw [h.1.behind_last, List.length_nil, Nat.zero_add]
          rfl
      | cons g' gs =>
          rw [h.1.behind_mid]
          congr 1
          have hrest : frameStarts M r ((g' :: gs).length + n) (p + 1) false = _ :=
            ih h.2 (List.cons_ne_nil _ _)
          rw [behindFrame, LapRing.next_succ] at hrest
          exact hrest

theorem frameStarts_frames (h : Frames M r isUsed p W) (hne : ∀ w ∈ W, w ≠ []) :
    frameStarts M r (descs W + n) p true =
      frameStarts M r (descs W) p true ++ frameStarts M r n (after p W) true := by
  induction W generalizing p with
  | nil =>
      rw [show descs [] = 0 from rfl, Nat.zero_add]
      rfl
  | cons w W ih =>
      have hw := hne w List.mem_cons_self
      rw [descs_cons, Nat.add_assoc, frameStarts_frame h.1 hw, frameStarts_frame h.1 hw,
        ih h.2 fun v hv => hne v (List.mem_cons_of_mem _ hv), List.append_assoc]
      rfl

namespace Window

variable {busy : Set ℕ} {tl : ℕ}

theorem starts_sublist (h : Window M r tl D U busy) :
    (frameStarts M r (descs (D ++ U)) tl true).Sublist (slots tl (D ++ U)) := by
  have hsub : (frameStarts M r (descs (D ++ U)) tl true).Sublist (walk M r (descs (D ++ U)) tl) :=
    frameStarts_sublist
  rw [h.walk_eq.1] at hsub
  exact hsub

theorem starts_mem (h : Window M r tl D U busy)
    (hi : i ∈ frameStarts M r (descs (D ++ U)) tl true) : i ∈ slots tl (D ++ U) :=
  h.starts_sublist.subset hi

/-- A frame placed behind the window adds its first descriptor. -/
theorem starts_push (h : Window M r tl D U busy) (hf : FrameAt M r (after tl (D ++ U)) w isUsed)
    (hne : w ≠ []) :
    frameStarts M r (descs (D ++ U) + w.length) tl true =
      frameStarts M r (descs (D ++ U)) tl true ++ [after tl (D ++ U)] := by
  have hD : ∀ v ∈ D, v ≠ [] := fun v hv => h.ne_nil v (List.mem_append_left _ hv)
  have hU : ∀ v ∈ U, v ≠ [] := fun v hv => h.ne_nil v (List.mem_append_right _ hv)
  have hlast : frameStarts M r w.length (after (after tl D) U) true = [after (after tl D) U] := by
    rw [after_append] at hf
    have hone : frameStarts M r (w.length + 0) (after (after tl D) U) true = _ :=
      frameStarts_frame hf hne
    exact hone
  rw [descs_append, Nat.add_assoc, frameStarts_frames h.done hD, frameStarts_frames h.todo hU,
    frameStarts_frames h.done hD, hlast, after_append, List.append_assoc]

end Window

/-! ## The packets and the slots -/

/-- The transmit ring, and the packets taken from the send queue. -/
structure ConsState where
  tx : TxState
  dequeued : List Mbuf

/-- What `if_dequeue` returns in this step. -/
def dequeuedBy (s : TxState) : TxEvent → List Mbuf
  | .driver _ => if s.pc = .dequeue then s.sendq.head?.toList else []
  | _ => []

def consStep (M : TxbufMasks) (hw : XmacHw) (s : ConsState) : RingEvent → Option ConsState
  | .tx e => (anyTxStep M hw s.tx e).map fun t => ⟨t, s.dequeued ++ dequeuedBy s.tx e⟩
  | .complete i ctl =>
      if oldestUncompleted M (storedRing M s.tx) (handedOver s.tx) s.tx.txringTlPtr true = some i ∧
          Completes M (s.tx.txring i).ctl ctl then
        some { s with tx := { s.tx with txring := setCtl s.tx.txring i ctl } }
      else none

/-- The transmit ring from `phytium_xmac_setup_descs` on, with packets of any
shape. -/
def consSystem (M : TxbufMasks) (hw : XmacHw) : System ConsState RingEvent where
  init := fun s => s = ⟨setupDescs M hw, []⟩
  step := consStep M hw

/-- The packets in the ring. -/
def slotPkts (s : TxState) : List Mbuf :=
  CircularWindow.contents s.txringM (List.range xmacNumTxDescs)

/-- Every dequeued packet is in one slot or freed once, and a slot has a packet
just when a frame in flight starts there. -/
structure Conserved (M : TxbufMasks) (s : ConsState) : Prop where
  once : (s.dequeued.map Mbuf.name).Perm ((slotPkts s.tx ++ s.tx.mfreed).map Mbuf.name)
  slots : ∀ i, (s.tx.txringM i).isSome = true ↔
    i ∈ frameStarts M s.tx.txring s.tx.txringQueued.toNat s.tx.txringTlPtr true

/-- No store of `start_locked` goes to a slot that holds a packet. -/
def NoOverwrite (s : TxState) : Prop :=
  match s.pc with
  | .dequeue => s.txringM s.txringHdPtr = none
  | .fill _ i .slot => s.txringM (s.txringHdPtr + i) = none
  | _ => True

/-- A packet that is given descriptors has a segment, and its segments have
lengths that the length field holds. -/
def consOk (s : ConsState) : RingEvent → Prop
  | .tx (.driver defrag) =>
      s.tx.pc = .dequeue → ∀ segs ∈ takenSegs defrag s.tx,
        segs ≠ [] ∧ ∀ g ∈ segs, g.dsLen ≤ 0x3FFF
  | _ => True

instance (s : ConsState) (e : RingEvent) : Decidable (consOk s e) := by
  unfold consOk
  split <;> infer_instance

/-- The slots that hold a packet: that of a frame being written comes before
its frame is in the window, and that of the frame being freed is already
empty. -/
def owned (M : TxbufMasks) (s : TxState) : List ℕ :=
  let starts := frameStarts M s.txring (handedOver s) s.txringTlPtr true
  match s.pc with
  | .fill _ _ _ => s.txringHdPtr :: starts
  | .cleanSkip _ _ | .cleanMark _ _ => starts.tail
  | _ => starts

def SlotsOwned (M : TxbufMasks) (s : TxState) : Prop :=
  ∀ i, (s.txringM i).isSome = true ↔ i ∈ owned M s

theorem SlotsOwned.none_of_not_mem (h : SlotsOwned M s) (hi : i ∉ owned M s) :
    s.txringM i = none := by
  rw [← h i, Bool.not_eq_true, Option.isSome_eq_false_iff, Option.isNone_iff_eq_none] at hi
  exact hi

/-- What a step does with the packets, when it takes those of `new` from the send
queue. -/
structure Moves (M : TxbufMasks) (s s' : TxState) (new : List Mbuf) : Prop where
  slots : SlotsOwned M s'
  places : ((slotPkts s' ++ s'.mfreed).map Mbuf.name).Perm
    ((new ++ (slotPkts s ++ s.mfreed)).map Mbuf.name)

theorem slotPkts_congr (hm : s'.txringM = s.txringM) : slotPkts s' = slotPkts s := by
  rw [slotPkts, slotPkts, hm]

/-- A step that leaves the slots alone. -/
theorem Moves.same (h : SlotsOwned M s) (hm : s'.txringM = s.txringM)
    (hf : s'.mfreed = s.mfreed) (ho : owned M s' = owned M s) : Moves M s s' [] := by
  constructor
  · intro i
    rw [hm, ho]
    exact h i
  · rw [slotPkts_congr hm, hf, List.nil_append]

/-! ## The steps of `phytium_xmac_start_locked` -/

theorem Ready.owned_eq (h : Ready M s D U) (hpc : s.pc = .dequeue) :
    owned M s = frameStarts M s.txring (descs (D ++ U)) s.txringTlPtr true := by
  have hn : s.txringQueued.toNat = descs (D ++ U) := by
    rw [h.count, Int.toNat_natCast]
  unfold owned handedOver
  rw [hpc]
  dsimp only
  rw [hn]

/-- The slot of the head pointer is empty. -/
theorem Ready.slot_free (h : Ready M s D U) (ho : SlotsOwned M s) (hpc : s.pc = .dequeue) :
    s.txringM s.txringHdPtr = none := by
  have hout : s.txringHdPtr ∉ owned M s := by
    rw [h.owned_eq hpc, h.head]
    intro hmem
    exact h.window.packed.pos_not_mem (h.window.starts_mem hmem)
  exact ho.none_of_not_mem hout

/-- The packet's slot is its own from now on. -/
theorem Ready.acceptPacket_moves {m : Mbuf} (h : Ready M s D U) (ho : SlotsOwned M s)
    (hpc : s.pc = .dequeue) (hne : segs ≠ []) :
    SlotsOwned M (Xmac.acceptPacket s m segs) ∧
    (slotPkts (Xmac.acceptPacket s m segs)).Perm (m :: slotPkts s) := by
  have hfree := h.slot_free ho hpc
  have hpc' : (Xmac.acceptPacket s m segs).pc = .fill segs (segs.length - 1) .addr := if_neg hne
  have howned : owned M (Xmac.acceptPacket s m segs) = s.txringHdPtr :: owned M s := by
    unfold owned handedOver
    rw [hpc', hpc]
    rfl
  have hlt : s.txringHdPtr < xmacNumTxDescs := by
    have hle := h.window.head_le
    rw [← h.head] at hle
    exact lt_of_le_of_lt hle (by decide)
  constructor
  · intro i
    rw [howned, List.mem_cons]
    show (Function.update s.txringM s.txringHdPtr (some m) i).isSome = true ↔ _
    by_cases hi : i = s.txringHdPtr
    · rw [hi, Function.update_self]
      simp
    · rw [Function.update_of_ne hi, ho i]
      simp [hi]
  · exact CircularWindow.contents_fill List.nodup_range (List.mem_range.mpr hlt) hfree

theorem Ready.dequeue_moves {defrag : Option MbufChain} (h : Ready M s D U)
    (ho : SlotsOwned M s) (hpc : s.pc = .dequeue)
    (hok : ∀ segs ∈ takenSegs defrag s, segs ≠ []) (hd : Dequeued defrag s s') :
    Moves M s s' (dequeuedBy s (.driver defrag)) := by
  unfold dequeuedBy
  rw [if_pos hpc]
  cases hd with
  | nothing hq =>
      rw [hq]
      refine .same ho rfl rfl ?_
      unfold owned handedOver
      rw [hpc]
  | accepted m m' q k segs hq hname hsegs =>
      rw [hq]
      have hready : Ready M { s with sendq := q, txdefrags := k } D U :=
        ⟨⟨h.window, h.head, h.count⟩, h.room⟩
      have hsame : slotPkts { s with sendq := q, txdefrags := k } = slotPkts s := slotPkts_congr rfl
      obtain ⟨hslots, hperm⟩ :
          SlotsOwned M (Xmac.acceptPacket { s with sendq := q, txdefrags := k } m' segs) ∧ _ :=
        hready.acceptPacket_moves ho hpc (hok segs hsegs)
      refine ⟨hslots, ?_⟩
      have hnames := (hperm.append_right s.mfreed).map Mbuf.name
      rw [hsame, List.cons_append, List.map_cons, hname] at hnames
      show (List.map Mbuf.name _).Perm (List.map Mbuf.name ([m] ++ _))
      rw [List.singleton_append, List.map_cons]
      exact hnames
  | freed m m' q k fails mapfails hq hname =>
      rw [hq]
      constructor
      · intro i
        have hi := ho i
        unfold owned handedOver at hi ⊢
        rw [hpc] at hi
        exact hi
      · show (List.map Mbuf.name (slotPkts s ++ (s.mfreed ++ [m']))).Perm
          (List.map Mbuf.name ([m] ++ _))
        rw [← List.append_assoc, List.map_append, List.map_singleton, hname,
          List.singleton_append, List.map_cons]
        exact List.perm_append_singleton _ _

/-- A store to descriptors of no frame in the window moves no frame. -/
theorem Window.starts_congr {busy : Set ℕ} {tl : ℕ} (h : Window M r tl D U busy)
    (hr : ∀ j ∈ slots tl (D ++ U), r' j = r j) :
    frameStarts M r' (descs (D ++ U)) tl true = frameStarts M r (descs (D ++ U)) tl true := by
  apply frameStarts_congr
  intro j hj
  rw [h.walk_eq.1] at hj
  rw [hr j hj]
  exact ⟨rfl, rfl⟩

theorem Filling.owned_eq {store : FillStore} (h : Filling M s D U segs i store)
    (hpc : s.pc = .fill segs i store) :
    owned M s = s.txringHdPtr :: frameStarts M s.txring (descs (D ++ U)) s.txringTlPtr true := by
  have hn : s.txringQueued.toNat = descs (D ++ U) := by
    rw [h.count, Int.toNat_natCast]
  unfold owned handedOver
  rw [hpc]
  dsimp only
  rw [hn]

/-- Within the loop the window's frames stay where they are. -/
theorem Filling.moves_same {store store' : FillStore} {i' : ℕ} {t : TxState}
    (h : Filling M s D U segs i store) (hpc : s.pc = .fill segs i store) (ho : SlotsOwned M s)
    (hpc' : t.pc = .fill segs i' store') (hring : ∀ j ∈ slots s.txringTlPtr (D ++ U),
      t.txring j = s.txring j) (htl : t.txringTlPtr = s.txringTlPtr)
    (hhd : t.txringHdPtr = s.txringHdPtr) (hq : t.txringQueued = s.txringQueued)
    (hm : t.txringM = s.txringM) (hf : t.mfreed = s.mfreed) : Moves M s t [] := by
  refine .same ho hm hf ?_
  rw [h.owned_eq hpc, ← h.window.starts_congr hring, ← hhd, ← htl]
  have hn : t.txringQueued.toNat = descs (D ++ U) := by
    rw [hq, h.count, Int.toNat_natCast]
  unfold owned handedOver
  rw [hpc']
  dsimp only
  rw [hn]

/-- The slots of the frame's other descriptors are empty already. -/
theorem Filling.slot_free (h : Filling M s D U segs i .slot) (hpc : s.pc = .fill segs i .slot)
    (ho : SlotsOwned M s) : s.txringM (s.txringHdPtr + i) = none := by
  have hpos : 0 < i := h.filled.1
  have hout : s.txringHdPtr + i ∉ owned M s := by
    rw [h.owned_eq hpc, List.mem_cons]
    rintro (heq | hmem)
    · omega
    · exact h.ne_of_mem (h.window.starts_mem hmem) rfl
  exact ho.none_of_not_mem hout

/-- With the last store the frame is in the window, and its first descriptor is
that of the slot its packet was put in. -/
theorem Filling.moves_last (h : Filling M s D U segs 0 .ctl) (hpc : s.pc = .fill segs 0 .ctl)
    (ho : SlotsOwned M s) : Moves M s (fillStep M s segs 0 .ctl) [] := by
  have hne : segs ≠ [] := List.length_pos_iff.mp h.lt
  have hframe := h.frame_ctl
  rw [Nat.add_zero, List.drop_zero, h.head] at hframe
  have hwin := h.window_ctl
  rw [h.head] at hwin
  have hn : handedOver (fillStep M s segs 0 .ctl) = descs (D ++ U) + segs.length := by
    show (s.txringQueued + segs.length).toNat = _
    rw [h.count]
    exact Int.toNat_natCast _
  have hsame : frameStarts M (setCtl s.txring (after s.txringTlPtr (D ++ U))
        (txCtl M (after s.txringTlPtr (D ++ U)) segs 0)) (descs (D ++ U)) s.txringTlPtr true =
      frameStarts M s.txring (descs (D ++ U)) s.txringTlPtr true := by
    apply h.window.starts_congr
    intro j hj
    refine setCtl_of_ne ?_ _
    rw [← h.head]
    exact h.ne_of_mem hj
  have howned : owned M (fillStep M s segs 0 .ctl) =
      frameStarts M s.txring (descs (D ++ U)) s.txringTlPtr true ++
        [after s.txringTlPtr (D ++ U)] := by
    rw [← hsame, ← hwin.starts_push hframe hne]
    show frameStarts M (setCtl s.txring (s.txringHdPtr + 0) (txCtl M s.txringHdPtr segs 0))
      (handedOver (fillStep M s segs 0 .ctl)) s.txringTlPtr true = _
    rw [hn, Nat.add_zero, h.head]
  constructor
  · intro j
    rw [howned, List.mem_append, List.mem_singleton, ← h.head]
    show (s.txringM j).isSome = true ↔ _
    rw [ho j, h.owned_eq hpc, List.mem_cons, or_comm]
  · rw [slotPkts_congr rfl, List.nil_append]
    exact List.Perm.refl _

/-- **One store of the loop.** The last one brings the frame into the window,
with the slot that is the packet's since it was accepted. -/
theorem Filling.moves {store : FillStore} (h : Filling M s D U segs i store)
    (hpc : s.pc = .fill segs i store) (ho : SlotsOwned M s) :
    Moves M s (fillStep M s segs i store) [] := by
  cases store with
  | addr =>
      exact h.moves_same hpc ho rfl (fun j hj => setAddr_of_ne (h.ne_of_mem hj) _) rfl rfl rfl rfl
        rfl
  | addrhi =>
      exact h.moves_same hpc ho rfl (fun j hj => setAddrhi_of_ne (h.ne_of_mem hj) _) rfl rfl rfl
        rfl rfl
  | slot =>
      have hfree := h.slot_free hpc ho
      refine h.moves_same hpc ho rfl (fun j _ => rfl) rfl rfl rfl ?_ rfl
      show Function.update s.txringM (s.txringHdPtr + i) none = s.txringM
      rw [← hfree, Function.update_eq_self]
  | ctl =>
      by_cases hi : i = 0
      · subst hi
        exact h.moves_last hpc ho
      · exact h.moves_same hpc ho (if_neg hi) (fun j hj => setCtl_of_ne (h.ne_of_mem hj) _) rfl rfl
          rfl rfl rfl

theorem commit_moves (ho : SlotsOwned M s) (hpc : s.pc = .commit segs) :
    Moves M s (commitStep hw s segs) [] := by
  refine .same ho rfl rfl ?_
  unfold owned handedOver
  rw [hpc]
  rfl

/-! ## The steps of `phytium_xmac_clean_tx` -/

/-- The frames from the tail pointer on, where `clean_tx` stands before one. -/
theorem owned_cleanTest {caller : CleanCaller} (hpc : s.pc = .cleanTest caller) :
    owned M s = frameStarts M s.txring s.txringQueued.toNat s.txringTlPtr true := by
  unfold owned handedOver
  rw [hpc]

theorem owned_cleanSkip {caller : CleanCaller} {ctl : BitVec 32}
    (hpc : s.pc = .cleanSkip caller ctl) :
    owned M s = frameStarts M s.txring s.txringQueued.toNat s.txringTlPtr false := by
  unfold owned handedOver
  rw [hpc]
  exact frameStarts_tail

theorem owned_cleanMark {caller : CleanCaller} {ctl : BitVec 32}
    (hpc : s.pc = .cleanMark caller ctl) :
    owned M s = frameStarts M s.txring s.txringQueued.toNat s.txringTlPtr false := by
  unfold owned handedOver
  rw [hpc]
  exact frameStarts_tail

theorem CleanCaller.owned_pc (caller : CleanCaller) {t : TxState} (hpc : t.pc = caller.pc) :
    owned M t = frameStarts M t.txring t.txringQueued.toNat t.txringTlPtr true := by
  unfold owned handedOver
  rw [hpc]
  cases caller <;> rfl

/-- The packet whose frame is freed leaves its slot. -/
theorem Settled.cleanTest_moves {caller : CleanCaller} (h : Settled M s D U)
    (ho : SlotsOwned M s) (hpc : s.pc = .cleanTest caller) :
    Moves M s (cleanTestStep M s caller) [] := by
  unfold cleanTestStep
  dsimp only
  split
  · rename_i hc
    have hn : s.txringQueued.toNat = descs (D ++ U) := by
      rw [h.count, Int.toNat_natCast]
    obtain ⟨k, hk⟩ : ∃ k, s.txringQueued.toNat = k + 1 :=
      Nat.exists_eq_succ_of_ne_zero (by omega)
    have hcons : frameStarts M s.txring s.txringQueued.toNat s.txringTlPtr true =
        s.txringTlPtr :: frameStarts M s.txring s.txringQueued.toNat s.txringTlPtr false := by
      rw [hk]
      rfl
    have hnd : (frameStarts M s.txring s.txringQueued.toNat s.txringTlPtr true).Nodup := by
      rw [hn]
      exact h.window.starts_sublist.nodup h.window.packed.nodup
    rw [hcons, List.nodup_cons] at hnd
    obtain ⟨m, hm⟩ : ∃ m, s.txringM s.txringTlPtr = some m := by
      rw [← Option.isSome_iff_exists, ho, owned_cleanTest hpc, hcons]
      exact List.mem_cons_self
    constructor
    · intro i
      have howned (u : TxState) (hu : u.pc = .cleanSkip caller (s.txring s.txringTlPtr).ctl) :
          owned M u = _ := owned_cleanSkip hu
      rw [howned _ rfl]
      show (Function.update s.txringM s.txringTlPtr none i).isSome = true ↔
        i ∈ frameStarts M s.txring s.txringQueued.toNat s.txringTlPtr false
      by_cases hi : i = s.txringTlPtr
      · rw [hi, Function.update_self]
        simpa using hnd.1
      · rw [Function.update_of_ne hi, ho, owned_cleanTest hpc, hcons, List.mem_cons]
        simp [hi]
    · have htake : (slotPkts s).Perm (m :: CircularWindow.contents
          (Function.update s.txringM s.txringTlPtr none) (List.range xmacNumTxDescs)) :=
        CircularWindow.contents_take List.nodup_range (List.mem_range.mpr h.window.tail_lt) hm
      rw [List.nil_append, slotPkts, hm, Option.toList_some, ← List.append_assoc]
      apply List.Perm.map
      exact (List.perm_append_singleton _ _).trans (htake.append_right s.mfreed).symm
  · refine .same ho rfl rfl ?_
    rw [caller.owned_pc rfl, owned_cleanTest hpc]

theorem Skipping.moves {caller : CleanCaller} {ctl : BitVec 32} (h : Skipping M s D U ctl)
    (ho : SlotsOwned M s) (hpc : s.pc = .cleanSkip caller ctl) :
    Moves M s (cleanSkipStep M s caller ctl) [] := by
  obtain ⟨w, D, rfl⟩ := List.exists_cons_of_ne_nil h.freeing
  have hlen := (h.window.size (w := w) (by simp)).1
  have hn : s.txringQueued.toNat = (s.txringQueued - 1).toNat + 1 := by
    have hcount := h.count
    rw [List.cons_append, descs_cons] at hcount
    omega
  have hbehind : behind M ctl s.txringTlPtr = behind M (s.txring s.txringTlPtr).ctl
      s.txringTlPtr := by rw [behind, behind, h.wrap]
  have hold : owned M s = frameStarts M s.txring (s.txringQueued - 1).toNat
      (behind M ctl s.txringTlPtr) (has ctl M.last) := by
    rw [owned_cleanSkip hpc, hn, frameStarts, hbehind, h.last]
    rfl
  unfold cleanSkipStep
  dsimp only
  split
  · rename_i hl
    refine .same ho rfl rfl ?_
    rw [hold, hl]
    rfl
  · rename_i hl
    rw [Bool.not_eq_true] at hl
    refine .same ho rfl rfl ?_
    rw [hold, hl]
    exact frameStarts_tail

/-- A store that sets `USED` or a status bit leaves the frames where they are. -/
theorem owned_setCtl (pc : TxPc) {j : ℕ} {v : BitVec 32}
    (hlast : has v M.last = has (s.txring j).ctl M.last)
    (hwrap : has v M.wrap = has (s.txring j).ctl M.wrap) :
    owned M { s with txring := setCtl s.txring j v, pc := pc } = owned M { s with pc := pc } := by
  have hstarts (n : ℕ) : frameStarts M (setCtl s.txring j v) n s.txringTlPtr true =
      frameStarts M s.txring n s.txringTlPtr true := by
    apply frameStarts_congr
    intro k _
    by_cases hk : k = j
    · rw [hk, setCtl_self]
      exact ⟨hlast, hwrap⟩
    · rw [setCtl_of_ne hk]
      exact ⟨rfl, rfl⟩
  unfold owned handedOver
  dsimp only
  rw [hstarts]

theorem Marking.moves {caller : CleanCaller} {ctl : BitVec 32} (h : Marking M s D U ctl)
    (ho : SlotsOwned M s) (hpc : s.pc = .cleanMark caller ctl) :
    Moves M s (cleanMarkStep M s caller ctl) [] := by
  refine .same ho rfl rfl ?_
  unfold cleanMarkStep
  rw [owned_setCtl]
  · rw [owned_cleanMark hpc]
    exact owned_cleanSkip rfl
  · rw [← h.loaded, has_or, has_of_disjoint M.used_last, Bool.or_false]
  · rw [← h.loaded, has_or, has_of_disjoint M.used_wrap, Bool.or_false]

/-! ## Every run -/

theorem driver_moves {defrag : Option MbufChain} (hat : AtPc M s D U s.pc) (ho : SlotsOwned M s)
    (hok : s.pc = .dequeue → ∀ segs ∈ takenSegs defrag s, segs ≠ [])
    (hs : driverStep M hw defrag s = some s') :
    Moves M s s' (dequeuedBy s (.driver defrag)) := by
  by_cases hdeq : s.pc = .dequeue
  · rw [driverStep, hdeq] at hs
    cases hs
    rw [hdeq] at hat
    exact hat.dequeue_moves ho hdeq (hok hdeq) (dequeueStep_dequeued defrag s)
  · rw [dequeuedBy, if_neg hdeq]
    cases driverStep_stepped hs with
    | room hpc =>
        refine .same ho rfl rfl ?_
        unfold owned handedOver
        rcases hpc with hpc | hpc <;> rw [hpc]
    | reclaim hpc =>
        refine .same ho rfl rfl ?_
        unfold owned handedOver
        rw [hpc]
    | full hpc =>
        refine .same ho rfl rfl ?_
        unfold owned handedOver
        rw [hpc]
    | dequeue hpc => exact absurd hpc hdeq
    | fill _ _ _ hpc =>
        rw [hpc] at hat
        exact hat.moves hpc ho
    | commit _ hpc => exact commit_moves ho hpc
    | cleanTest _ hpc =>
        rw [hpc] at hat
        exact hat.cleanTest_moves ho hpc
    | cleanSkip _ _ hpc =>
        rw [hpc] at hat
        exact hat.moves ho hpc
    | cleanMark _ _ hpc =>
        rw [hpc] at hat
        exact hat.moves ho hpc

/-- Stopping frees what is in the slots. -/
theorem stopTx_moves {u : TxState} (hpc : u.pc = .idle) (hm : u.txringM = s.txringM)
    (hf : u.mfreed = s.mfreed) : Moves M s (stopTx M u) [] := by
  constructor
  · intro i
    have hnone : owned M (stopTx M u) = [] := by
      unfold owned handedOver stopTx
      dsimp only
      rw [hpc]
      rfl
    rw [hnone]
    simp [stopTx]
  · have hempty : slotPkts (stopTx M u) = [] := CircularWindow.contents_none fun _ _ => rfl
    have hfreed : (stopTx M u).mfreed = s.mfreed ++ slotPkts s := by
      rw [← hf, ← slotPkts_congr hm]
      rfl
    rw [hempty, hfreed, List.nil_append, List.nil_append]
    exact List.perm_append_comm.map _

theorem anyTxStep_moves {e : TxEvent} (hat : AtPc M s D U s.pc) (ho : SlotsOwned M s)
    (hok : ∀ defrag, e = .driver defrag → s.pc = .dequeue →
      ∀ segs ∈ takenSegs defrag s, segs ≠ [])
    (hs : anyTxStep M hw s e = some s') : Moves M s s' (dequeuedBy s e) := by
  cases e with
  | enqueue m =>
      cases hs
      exact .same ho rfl rfl rfl
  | start =>
      obtain ⟨hpc, ht⟩ := Option.ite_none_right_eq_some.mp hs
      cases ht
      refine .same ho rfl rfl ?_
      unfold owned handedOver
      rw [hpc]
      split <;> rfl
  | clean =>
      obtain ⟨hpc, ht⟩ := Option.ite_none_right_eq_some.mp hs
      cases ht
      refine .same ho rfl rfl ?_
      unfold owned handedOver
      rw [hpc]
  | driver defrag => exact driver_moves hat ho (hok defrag rfl) hs
  | init =>
      obtain ⟨-, ht⟩ := Option.ite_none_right_eq_some.mp hs
      cases ht
      unfold initTx
      split
      · exact .same ho rfl rfl rfl
      · exact .same ho rfl rfl rfl
  | down =>
      obtain ⟨hpc, ht⟩ := Option.ite_none_right_eq_some.mp hs
      cases ht
      split
      · exact stopTx_moves hpc rfl rfl
      · exact .same ho rfl rfl rfl
  | stop =>
      obtain ⟨hpc, ht⟩ := Option.ite_none_right_eq_some.mp hs
      cases ht
      exact stopTx_moves hpc rfl rfl

/-- The ring between any two accesses, and where the packets are. -/
structure ConsInv (M : TxbufMasks) (t : ConsState) (D U : List (List Seg)) : Prop where
  atPc : AtPc M t.tx D U t.tx.pc
  slots : SlotsOwned M t.tx
  once : (t.dequeued.map Mbuf.name).Perm ((slotPkts t.tx ++ t.tx.mfreed).map Mbuf.name)

variable {t t' : ConsState}

theorem ConsInv.moves {u : TxState} {new : List Mbuf} (h : ConsInv M t D U)
    {D' U' : List (List Seg)} (hat : AtPc M u D' U' u.pc) (hm : Moves M t.tx u new) :
    ConsInv M ⟨u, t.dequeued ++ new⟩ D' U' := by
  refine ⟨hat, hm.slots, ?_⟩
  refine List.Perm.trans ?_ hm.places.symm
  rw [List.map_append, List.map_append]
  exact List.perm_append_comm.trans (h.once.append_left _)

theorem consStep_inv {e : RingEvent} (h : ∃ D U, ConsInv M t D U) (hok : consOk t e)
    (hs : consStep M hw t e = some t') : ∃ D U, ConsInv M t' D U := by
  obtain ⟨D, U, h⟩ := h
  cases e with
  | tx e =>
      obtain ⟨u, hu, rfl⟩ := Option.map_eq_some_iff.mp hs
      have hsegs : ∀ defrag segs, e = .driver defrag → t.tx.pc = .dequeue →
          takenSegs defrag t.tx = some segs → segs ≠ [] ∧ SegsOk M segs := by
        rintro defrag segs rfl hpc htaken
        obtain ⟨hne, hlen⟩ := hok hpc segs htaken
        exact ⟨hne, takenSegs_plain htaken fun g hg => M.plain_of_le (hlen g hg)⟩
      obtain ⟨D', U', hat, -⟩ := h.atPc.anyTxStep
        (fun defrag segs he hpc htaken => (hsegs defrag segs he hpc htaken).2) hu
      have hmoves := anyTxStep_moves h.atPc h.slots
        (fun defrag he hpc segs htaken => (hsegs defrag segs he hpc htaken).1) hu
      exact ⟨D', U', h.moves hat hmoves⟩
  | complete i ctl =>
      obtain ⟨⟨hi, hc⟩, ht⟩ := Option.ite_none_right_eq_some.mp hs
      cases ht
      obtain ⟨w, U, rfl, rfl⟩ := h.atPc.oldest hi
      obtain ⟨-, hlast, hwrap, -⟩ := id hc
      refine ⟨D ++ [w], U, h.atPc.complete hc, ?_, h.once⟩
      have howned := owned_setCtl t.tx.pc (has_congr hlast) (has_congr hwrap)
      intro j
      rw [howned]
      exact h.slots j

theorem ConsInv.noOverwrite (h : ConsInv M t D U) : NoOverwrite t.tx := by
  have hat := h.atPc
  unfold NoOverwrite
  split
  · rename_i hpc
    rw [hpc] at hat
    exact hat.slot_free h.slots hpc
  · rename_i hpc
    rw [hpc] at hat
    exact hat.slot_free hpc h.slots
  · trivial

/-- **Conservation.** In every run in which each packet that is given descriptors
has a segment and no segment is too long for the length field, no slot that
holds a packet is ever written, and with the driver outside both functions each
dequeued packet is in one slot or freed once, the slots in use being the first
ones of the frames in flight. -/
theorem tx_conserved_of_ok (h : ((consSystem M hw).restrict consOk).Reachable t) :
    NoOverwrite t.tx ∧ (t.tx.pc = .idle → Conserved M t) := by
  have hinv : ∃ D U, ConsInv M t D U := by
    apply h.restrict_invariant
    · rintro t rfl
      have hempty : slotPkts (setupDescs M hw) = [] := CircularWindow.contents_none fun _ _ => rfl
      refine ⟨[], [], setupDescs_inv.atPc, fun i => ?_, ?_⟩
      · show (none : Option Mbuf).isSome = true ↔ i ∈ []
        simp
      · rw [hempty]
        exact List.Perm.refl _
    · intro t e t' _ hi hok hs
      exact consStep_inv hi hok hs
  obtain ⟨D, U, hinv⟩ := hinv
  refine ⟨hinv.noOverwrite, ?_⟩
  intro hpc
  refine ⟨hinv.once, fun i => ?_⟩
  rw [hinv.slots i, owned, handedOver, hpc]

/-- Two packets are sent, and a third that is cut into nine and cannot be
defragmented; the first is completed and freed. -/
def conservedRun : List RingEvent :=
  [.tx .init, .tx (.enqueue ⟨1, ⟨⟨0x1000#64, 60⟩, [⟨0x2000#64, 40⟩]⟩⟩),
    .tx (.enqueue ⟨2, ⟨⟨0x3000#64, 60⟩, []⟩⟩),
    .tx (.enqueue ⟨3, ⟨⟨0x4000#64, 1⟩, List.replicate 8 ⟨0x4000#64, 1⟩⟩⟩), .tx .start] ++
  List.replicate 20 (.tx (.driver none)) ++
  [.complete 0 (1#32 <<< 31 ||| 60#32), .tx .clean] ++
  List.replicate 5 (.tx (.driver none))

theorem tx_conserved_three_packets :
    ∃ t, ((consSystem sampleTxMasks .version1).restrict consOk).run
        ⟨setupDescs sampleTxMasks .version1, []⟩ conservedRun = some t ∧ t.tx.pc = .idle ∧
      t.dequeued.map Mbuf.name = [1, 2, 3] ∧ t.tx.mfreed.map Mbuf.name = [3, 1] ∧
      NoOverwrite t.tx ∧ (t.tx.pc = .idle → Conserved sampleTxMasks t) := by
  have hrun : (((consSystem sampleTxMasks .version1).restrict consOk).run
      ⟨setupDescs sampleTxMasks .version1, []⟩ conservedRun).map
        (fun t => (t.tx.pc, t.dequeued.map Mbuf.name, t.tx.mfreed.map Mbuf.name)) =
        some (.idle, [1, 2, 3], [3, 1]) := by
    decide
  obtain ⟨t, ht, hq⟩ := Option.map_eq_some_iff.mp hrun
  rw [Prod.mk.injEq, Prod.mk.injEq] at hq
  obtain ⟨hpc, hdeq, hfreed⟩ := hq
  exact ⟨t, ht, hpc, hdeq, hfreed, tx_conserved_of_ok (System.reachable_of_run _ rfl ht)⟩

/-- A packet whose one mbuf is empty, and another behind it. -/
def emptyPacketRun : List RingEvent :=
  [.tx .init, .tx (.enqueue ⟨1, ⟨⟨0x1000#64, 0⟩, []⟩⟩), .tx (.enqueue ⟨2, ⟨⟨0x3000#64, 60⟩, []⟩⟩),
    .tx .start] ++
  List.replicate 11 (.tx (.driver none))

/-- The second packet takes the slot of the first, which is then in no slot and
never freed. -/
theorem empty_packet_lost :
    ¬ ∀ t, (consSystem sampleTxMasks .version1).Reachable t → t.tx.pc = .idle →
      Conserved sampleTxMasks t := by
  intro h
  have hrun : ((consSystem sampleTxMasks .version1).run
      ⟨setupDescs sampleTxMasks .version1, []⟩ emptyPacketRun).map
        (fun t => (t.tx.pc, t.dequeued.map Mbuf.name, (t.tx.txringM 0).map Mbuf.name, t.tx.mfreed,
          frameStarts sampleTxMasks t.tx.txring t.tx.txringQueued.toNat t.tx.txringTlPtr true)) =
        some (.idle, [1, 2], some 2, [], [0]) := by
    decide
  obtain ⟨t, ht, hq⟩ := Option.map_eq_some_iff.mp hrun
  simp only [Prod.mk.injEq] at hq
  obtain ⟨hpc, hdeq, hslot, hfreed, hstarts⟩ := hq
  obtain ⟨honce, hslots⟩ := h t (System.reachable_of_run _ rfl ht) hpc
  have hfirst : 1 ∈ (slotPkts t.tx ++ t.tx.mfreed).map Mbuf.name := by
    apply honce.subset
    rw [hdeq]
    exact List.mem_cons_self
  rw [hfreed, List.append_nil, List.mem_map] at hfirst
  obtain ⟨m, hm, hname⟩ := hfirst
  obtain ⟨i, -, hi⟩ := List.mem_filterMap.mp hm
  -- the only slot in use is the one the second packet was stored in
  have hzero := (hslots i).mp (hi ▸ rfl)
  rw [hstarts, List.mem_singleton] at hzero
  rw [hzero] at hi
  rw [hi, Option.map_some, hname] at hslot
  cases hslot

end Phytium.Xmac
