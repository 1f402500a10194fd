import PhytiumSdk.Lib.Inbox
import PhytiumSdk.Lib.Simulation
import PhytiumSdk.Xmac.RecvList
import PhytiumSdk.Xmac.RxInterrupt

/-!
# XMAC receive: from the wire to the stack

The interrupt handler and its hardware with the memory the frames are written to.
A frame goes to the buffer its descriptor points to, and the stack reads it from
there when it is given the mbuf; between the two the ring has turned, buffers
were replaced, and others write what they like to any buffer that is neither in
the ring nor on its way up. What the stack is given is what arrived: in order,
each good frame once, with its own length, checksum status and contents.

The allocator is taken to give out no buffer that is still in use here.
-/

namespace Phytium.Xmac

open Lib Lib.Mask

/-- A frame on the wire: the control word the hardware makes of it, and its
contents. -/
structure Frame (α : Type) where
  ctl : BitVec 32
  data : α
deriving DecidableEq, Repr

/-- What the stack finds in an mbuf it is given. -/
structure Packet (α : Type) where
  mLen : ℕ
  pkthdrLen : ℕ
  csumFlags : CsumFlags
  csumData : ℕ
  data : α
deriving DecidableEq, Repr

structure StreamState (α : Type) where
  intr : IntrState
  /-- what is in the buffers -/
  mem : BitVec 64 → α
  -- history
  /-- what the stack was given, in order -/
  input : List (Packet α)

inductive StreamEvent (α : Type) where
  /-- a frame arrives; `addr` and `ctl` are the words written to its descriptor -/
  | frame (addr ctl : BitVec 32) (data : α)
  /-- anything else in the driver -/
  | driver (e : IntrEvent)
  /-- a buffer is written to from elsewhere -/
  | write (a : BitVec 64) (data : α)

variable {α : Type}

/-- The buffer of an mbuf, which `recv` has made ready for the stack, with its
contents. -/
def packetOf (mem : BitVec 64 → α) (m : RxMbuf) : Packet α where
  mLen := m.mLen
  pkthdrLen := m.pkthdrLen
  csumFlags := m.csumFlags
  csumData := m.csumData
  data := mem (m.mData - etherAlign)

/-- What the stack is given in this step. -/
def handedUp (s : StreamState α) : IntrEvent → List (Packet α)
  | .handler _ =>
      match s.intr.pc with
      | .handUp _ (m :: _) => [packetOf s.mem m]
      | _ => []
  | _ => []

def streamStep (I : IntMasks) (M : RxbufMasks) (hw : XmacHw) (s : StreamState α) :
    StreamEvent α → Option (StreamState α)
  | .frame addr ctl data =>
      (intrStep I M hw s.intr (.arrive addr ctl)).map fun intr =>
        { s with
          intr := intr
          mem := Function.update s.mem (decodeRx (s.intr.rx.rxring s.intr.rx.hwPtr)) data }
  | .driver (.arrive _ _) => none
  | .driver e =>
      (intrStep I M hw s.intr e).map fun intr =>
        { s with intr := intr, input := s.input ++ handedUp s e }
  | .write a data => some { s with mem := Function.update s.mem a data }

/-- The buffer `j` places behind the tail. -/
def bufferAt (rx : RxState) (j : ℕ) : BitVec 64 :=
  ((rx.rxringM (frameSlot rx j)).map RxMbuf.mData).getD 0

/-- The buffers of the ring, and of the packets `recv` holds. -/
def liveAddrs (rx : RxState) (chain : List RxMbuf) : List (BitVec 64) :=
  (List.range rx.rxringQueued).map (bufferAt rx) ++ chain.map fun m => m.mData - etherAlign

/-- `m_getcl` returns no buffer in use here, nor the same twice, and nobody else
writes to one. -/
def streamOk (s : StreamState α) : StreamEvent α → Prop
  | .driver (.handler (some a)) => a ∉ liveAddrs s.intr.rx s.intr.pc.held
  | .driver (.init as) => (as ++ liveAddrs s.intr.rx s.intr.pc.held).Nodup
  | .write a _ => a ∉ liveAddrs s.intr.rx s.intr.pc.held
  | _ => True

instance (s : StreamState α) (e : StreamEvent α) : Decidable (streamOk s e) := by
  unfold streamOk
  split <;> infer_instance

def streamSystem (I : IntMasks) (M : RxbufMasks) (hw : XmacHw) :
    System (StreamState α) (StreamEvent α) where
  init := fun s => (intrSystem I M hw).init s.intr ∧ s.input = []
  step := streamStep I M hw

/-- What the stack should be given for a frame. -/
def packetFor (M : RxbufMasks) (rxcsum : Bool) (f : Frame α) : Packet α :=
  let m := preparePacket M rxcsum f.ctl (getcl 0 0)
  ⟨m.mLen, m.pkthdrLen, m.csumFlags, m.csumData, f.data⟩

/-- The frame is given to the stack. -/
def goodFrame (M : RxbufMasks) (f : Frame α) : Bool := decide (GoodFrame M f.ctl)

variable {M : RxbufMasks} {rx : RxState} {chain : List RxMbuf} {mem mem' : BitVec 64 → α}
  {a : BitVec 64}

/-! ## Buffers -/

theorem frameSlot_inj {j k : ℕ} (hj : j < xmacNumRxDescs) (hk : k < xmacNumRxDescs)
    (h : frameSlot rx j = frameSlot rx k) : j = k := by
  change (rx.rxringTlPtr + j) % 512 = (rx.rxringTlPtr + k) % 512 at h
  change j < 512 at hj
  change k < 512 at hk
  omega

/-- The places are counted from one slot further. -/
theorem frameSlot_pop {t : RxState} (htl : rx.rxringTlPtr < xmacNumRxDescs)
    (ht : t.rxringTlPtr = CircularWindow.next xmacNumRxDescs rx.rxringTlPtr) (j : ℕ) :
    frameSlot t j = frameSlot rx (j + 1) := by
  have hfirst : t.rxringTlPtr = frameSlot rx 1 := by
    have htail : frameSlot rx 0 = rx.rxringTlPtr := Nat.mod_eq_of_lt htl
    rw [ht, ← frameSlot_succ rx 0, htail]
    rfl
  change (t.rxringTlPtr + j) % 512 = (rx.rxringTlPtr + (j + 1)) % 512
  rw [hfirst]
  change ((rx.rxringTlPtr + 1) % 512 + j) % 512 = _
  omega

/-- Whatever buffer the frame was in, the stack finds it. -/
theorem packetOf_preparePacket (mem : BitVec 64 → α) (rxcsum : Bool) (ctl : BitVec 32) (name : ℕ)
    (a : BitVec 64) :
    packetOf mem (preparePacket M rxcsum ctl (getcl name a)) =
      packetFor M rxcsum ⟨ctl, mem a⟩ := by
  have hback : a + etherAlign - etherAlign = a := BitVec.add_sub_cancel a etherAlign
  unfold packetFor packetOf preparePacket markCsum getcl
  dsimp only
  split
  · split
    · simp only [hback]
    · split <;> simp only [hback]
  · simp only [hback]

theorem preparePacket_mData (rxcsum : Bool) (ctl : BitVec 32) (m : RxMbuf) :
    (preparePacket M rxcsum ctl m).mData - etherAlign = m.mData := by
  have hback : m.mData + etherAlign - etherAlign = m.mData :=
    BitVec.add_sub_cancel m.mData etherAlign
  unfold preparePacket markCsum
  dsimp only
  split
  · split
    · exact hback
    · split <;> exact hback
  · exact hback

theorem bufferAt_of_slot {j : ℕ} {m : RxMbuf} (hm : rx.rxringM (frameSlot rx j) = some m) :
    bufferAt rx j = m.mData := by
  rw [bufferAt, hm]
  rfl

theorem mem_liveAddrs_ring {j : ℕ} {m : RxMbuf} (hj : j < rx.rxringQueued)
    (hm : rx.rxringM (frameSlot rx j) = some m) : m.mData ∈ liveAddrs rx chain :=
  List.mem_append_left _
    (List.mem_map.mpr ⟨j, List.mem_range.mpr hj, bufferAt_of_slot hm⟩)

theorem mem_liveAddrs_held {m : RxMbuf} (hm : m ∈ chain) :
    m.mData - etherAlign ∈ liveAddrs rx chain :=
  List.mem_append_right _ (List.mem_map.mpr ⟨m, hm, rfl⟩)

/-- Two places have two buffers. -/
theorem ring_addr_ne {j k : ℕ} {m n : RxMbuf} (h : (liveAddrs rx chain).Nodup)
    (hj : j < rx.rxringQueued) (hk : k < rx.rxringQueued) (hne : j ≠ k)
    (hm : rx.rxringM (frameSlot rx j) = some m) (hn : rx.rxringM (frameSlot rx k) = some n) :
    m.mData ≠ n.mData := by
  rw [← bufferAt_of_slot hm, ← bufferAt_of_slot hn]
  intro he
  exact hne (List.inj_on_of_nodup_map (List.nodup_append.mp h).1 (List.mem_range.mpr hj)
    (List.mem_range.mpr hk) he)

/-- A place and a packet have two buffers. -/
theorem held_addr_ne {j : ℕ} {m n : RxMbuf} (h : (liveAddrs rx chain).Nodup)
    (hj : j < rx.rxringQueued) (hm : rx.rxringM (frameSlot rx j) = some m) (hn : n ∈ chain) :
    n.mData - etherAlign ≠ m.mData := by
  intro he
  refine (List.nodup_append.mp h).2.2 m.mData ?_ (n.mData - etherAlign) ?_ he.symm
  · exact List.mem_map.mpr ⟨j, List.mem_range.mpr hj, bufferAt_of_slot hm⟩
  · exact List.mem_map.mpr ⟨n, hn, rfl⟩

/-! ## The ring as an inbox -/

/-- The frames that wait are those in the ring from the tail to where the
hardware stands, and those held are the packets of `chain`; every buffer in use
is in use once. -/
structure Boxed (M : RxbufMasks) (rx : RxState) (chain : List RxMbuf) (mem : BitVec 64 → α)
    (box : Inbox (Frame α)) : Prop where
  ring : RxInv M defaultNumRxBufs rx chain
  le : box.waiting.length ≤ rx.rxringQueued
  filled : ∀ j f, box.waiting[j]? = some f →
    has (rx.rxring (frameSlot rx j)).addr M.new = true ∧
    ∃ m, rx.rxringM (frameSlot rx j) = some m ∧
      f = ⟨(rx.rxring (frameSlot rx j)).ctl, mem m.mData⟩
  unfilled : ∀ j, box.waiting.length ≤ j → j < rx.rxringQueued →
    has (rx.rxring (frameSlot rx j)).addr M.new = false
  hwPtr : rx.hwPtr = frameSlot rx box.waiting.length
  blank : ∀ i < xmacNumRxDescs, ∀ m, rx.rxringM i = some m → m = getcl m.name m.mData
  addrs : (liveAddrs rx chain).Nodup
  held : chain.map (packetOf mem) = box.held.map (packetFor M rx.rxcsum)

variable {box : Inbox (Frame α)}

theorem Boxed.queued_lt (h : Boxed M rx chain mem box) : rx.rxringQueued < xmacNumRxDescs :=
  Nat.lt_of_le_of_lt h.ring.queued_le (by decide)

/-- The tail is where the first frame waits. -/
theorem Boxed.received_iff (h : Boxed M rx chain mem box) :
    received M rx = true ↔ box.waiting ≠ [] := by
  have htail : frameSlot rx 0 = rx.rxringTlPtr := Nat.mod_eq_of_lt h.ring.tail_lt
  unfold received
  rw [Bool.and_eq_true, decide_eq_true_iff]
  constructor
  · rintro ⟨hq, hnew⟩ hw
    have hclear := h.unfilled 0 (by rw [hw]; exact Nat.le_refl 0) hq
    rw [htail, hnew] at hclear
    cases hclear
  · intro hw
    obtain ⟨f, w, hf⟩ := List.exists_cons_of_ne_nil hw
    have hle := h.le
    rw [hf, List.length_cons] at hle
    obtain ⟨hnew, -⟩ := h.filled 0 f (by rw [hf]; rfl)
    rw [htail] at hnew
    exact ⟨by omega, hnew⟩

/-- Writes to buffers nobody reads here. -/
theorem Boxed.of_mem (h : Boxed M rx chain mem box)
    (hring : ∀ j < box.waiting.length, ∀ m, rx.rxringM (frameSlot rx j) = some m →
      mem' m.mData = mem m.mData)
    (hheld : ∀ m ∈ chain, mem' (m.mData - etherAlign) = mem (m.mData - etherAlign)) :
    Boxed M rx chain mem' box := by
  refine ⟨h.ring, h.le, ?_, h.unfilled, h.hwPtr, h.blank, h.addrs, ?_⟩
  · intro j f hf
    obtain ⟨hnew, m, hm, rfl⟩ := h.filled j f hf
    have hlt : j < box.waiting.length := (List.getElem?_eq_some_iff.mp hf).1
    exact ⟨hnew, m, hm, by rw [hring j hlt m hm]⟩
  · rw [← h.held]
    apply List.map_congr_left
    intro m hm
    rw [packetOf, packetOf, hheld m hm]

theorem Boxed.write (h : Boxed M rx chain mem box) (ha : a ∉ liveAddrs rx chain) (data : α) :
    Boxed M rx chain (Function.update mem a data) box := by
  apply h.of_mem
  · intro j hj m hm
    apply Function.update_of_ne
    rintro rfl
    exact ha (mem_liveAddrs_ring (hj.trans_le h.le) hm)
  · intro m hm
    apply Function.update_of_ne
    intro he
    apply ha
    rw [← he]
    exact mem_liveAddrs_held hm

/-! ## `recv` takes a frame -/

/-- What is left when the mbuf at the tail leaves the ring. -/
theorem Boxed.pop (h : Boxed M rx chain mem box) {t : RxState} {chain' : List RxMbuf}
    {f : Frame α} {w h' : List (Frame α)} (hw : box.waiting = f :: w)
    (hinv : RxInv M defaultNumRxBufs t chain')
    (hring : t.rxring = rx.rxring)
    (hslots : t.rxringM = Function.update rx.rxringM rx.rxringTlPtr none)
    (htl : t.rxringTlPtr = CircularWindow.next xmacNumRxDescs rx.rxringTlPtr)
    (hq : t.rxringQueued = rx.rxringQueued - 1) (hhw : t.hwPtr = rx.hwPtr)
    (hcsum : t.rxcsum = rx.rxcsum) (haddrs : (liveAddrs t chain').Nodup)
    (hheld : chain'.map (packetOf mem) = h'.map (packetFor M rx.rxcsum)) :
    Boxed M t chain' mem { box with waiting := w, held := h' } := by
  have htail : frameSlot rx 0 = rx.rxringTlPtr := Nat.mod_eq_of_lt h.ring.tail_lt
  have hlen : box.waiting.length = w.length + 1 := by rw [hw, List.length_cons]
  have hle := h.le
  have hlt := h.queued_lt
  have hnext := frameSlot_pop h.ring.tail_lt htl
  refine ⟨hinv, ?_, ?_, ?_, ?_, ?_, haddrs, ?_⟩
  · show w.length ≤ t.rxringQueued
    omega
  · intro j g hg
    have hjlt : j < w.length := (List.getElem?_eq_some_iff.mp hg).1
    obtain ⟨hnew, m, hm, hgm⟩ := h.filled (j + 1) g (by rw [hw]; exact hg)
    rw [hnext, hring, hslots]
    refine ⟨hnew, m, ?_, hgm⟩
    rw [Function.update_of_ne]
    · exact hm
    · intro he
      rw [← htail] at he
      have := frameSlot_inj (by omega) (by decide) he
      omega
  · intro j hj hjq
    change w.length ≤ j at hj
    rw [hnext, hring]
    exact h.unfilled (j + 1) (by omega) (by omega)
  · show t.hwPtr = frameSlot t w.length
    rw [hhw, h.hwPtr, hnext, hlen]
  · intro i hi m hm
    rw [hslots] at hm
    by_cases hit : i = rx.rxringTlPtr
    · rw [hit, Function.update_self] at hm
      cases hm
    · rw [Function.update_of_ne hit] at hm
      exact h.blank i hi m hm
  · show chain'.map (packetOf mem) = h'.map (packetFor M t.rxcsum)
    rw [hcsum]
    exact hheld

/-- The buffers in use when an mbuf leaves the ring. -/
theorem liveAddrs_take {t : RxState} {m : RxMbuf} (htl : rx.rxringTlPtr < xmacNumRxDescs)
    (h0 : 0 < rx.rxringQueued) (hlt : rx.rxringQueued < xmacNumRxDescs)
    (hm : rx.rxringM rx.rxringTlPtr = some m)
    (hslots : t.rxringM = Function.update rx.rxringM rx.rxringTlPtr none)
    (ht : t.rxringTlPtr = CircularWindow.next xmacNumRxDescs rx.rxringTlPtr)
    (hq : t.rxringQueued = rx.rxringQueued - 1) :
    liveAddrs rx chain = m.mData :: liveAddrs t chain := by
  have htail : frameSlot rx 0 = rx.rxringTlPtr := Nat.mod_eq_of_lt htl
  obtain ⟨n, hn⟩ : ∃ n, rx.rxringQueued = n + 1 := ⟨rx.rxringQueued - 1, by omega⟩
  unfold liveAddrs
  rw [hq, hn, Nat.add_sub_cancel, List.range_succ_eq_map, List.map_cons, List.map_map,
    bufferAt_of_slot (htail.symm ▸ hm), List.cons_append]
  congr 2
  apply List.map_congr_left
  intro j hj
  rw [List.mem_range] at hj
  have hne : frameSlot rx (j + 1) ≠ rx.rxringTlPtr := by
    intro he
    rw [← htail] at he
    have := frameSlot_inj (by omega) (by decide) he
    omega
  rw [Function.comp_apply, bufferAt, bufferAt, frameSlot_pop htl ht, hslots,
    Function.update_of_ne hne]

theorem liveAddrs_append (rx : RxState) (chain : List RxMbuf) (m : RxMbuf) :
    (liveAddrs rx (chain ++ [m])).Perm ((m.mData - etherAlign) :: liveAddrs rx chain) := by
  unfold liveAddrs
  rw [List.map_append, ← List.append_assoc]
  exact List.perm_append_singleton _ _

/-- **One pass of the loop** takes the first frame that waits. -/
theorem Boxed.recvOne (h : Boxed M rx chain mem box) (hr : received M rx = true) :
    ∃ box', Inbox.step (goodFrame M) box .take = some box' ∧ box'.up = box.up ∧
      Boxed M (recvOne M rx chain).1 (recvOne M rx chain).2 mem box' := by
  obtain ⟨f, w, hw⟩ := List.exists_cons_of_ne_nil (h.received_iff.mp hr)
  have htail : frameSlot rx 0 = rx.rxringTlPtr := Nat.mod_eq_of_lt h.ring.tail_lt
  obtain ⟨-, m, hm, rfl⟩ := h.filled 0 f (by rw [hw]; rfl)
  rw [htail] at hm hw
  refine ⟨_, Inbox.step_take hw, rfl, ?_⟩
  have hinv := h.ring.recvOne defaultNumRxBufs_le hr
  have hlive : liveAddrs rx chain = _ := liveAddrs_take h.ring.tail_lt
    (h.ring.slot_of_received hr).1 h.queued_lt hm (t := { rx with
      rxringM := Function.update rx.rxringM rx.rxringTlPtr none
      rxringTlPtr := CircularWindow.next xmacNumRxDescs rx.rxringTlPtr
      rxringQueued := rx.rxringQueued - 1 }) rfl rfl rfl
  have haddrs := h.addrs
  rw [hlive] at haddrs
  have hblank := h.blank _ h.ring.tail_lt m hm
  unfold Xmac.recvOne at hinv ⊢
  simp only [hm] at hinv ⊢
  by_cases hbad : badFrame M (rx.rxring rx.rxringTlPtr).ctl = true
  · rw [if_pos hbad] at hinv ⊢
    have hnot : ¬ GoodFrame M (rx.rxring rx.rxringTlPtr).ctl := (badFrame_iff M _).mp hbad
    refine h.pop hw hinv rfl rfl rfl rfl rfl rfl ?_ ?_
    · exact (List.nodup_cons.mp haddrs).2
    · rw [List.filter_cons_of_neg (by simpa [goodFrame] using hnot), List.filter_nil,
        List.append_nil]
      exact h.held
  · rw [if_neg hbad] at hinv ⊢
    have hgood : GoodFrame M (rx.rxring rx.rxringTlPtr).ctl := by
      by_contra hnot
      exact hbad ((badFrame_iff M _).mpr hnot)
    refine h.pop hw hinv rfl rfl rfl rfl rfl rfl ?_ ?_
    · refine ((liveAddrs_append _ chain _).nodup_iff).mpr ?_
      rw [preparePacket_mData]
      exact haddrs
    · rw [List.filter_cons_of_pos (by simpa [goodFrame] using hgood), List.filter_nil,
        List.map_append, List.map_append, h.held, List.map_singleton, List.map_singleton]
      rw [hblank, packetOf_preparePacket]
      rfl

/-! ## The others -/

theorem Boxed.head_eq (h : Boxed M rx chain mem box) :
    rx.rxringHdPtr = frameSlot rx rx.rxringQueued := by
  rw [h.ring.head]
  exact CircularWindow.behind_eq_mod h.ring.tail_lt h.queued_lt.le

/-- The slots of the window are not those of the head pointer. -/
theorem Boxed.slot_ne_head (h : Boxed M rx chain mem box) {j : ℕ} (hj : j < rx.rxringQueued) :
    frameSlot rx j ≠ rx.rxringHdPtr := by
  intro he
  rw [h.head_eq] at he
  have := frameSlot_inj (hj.trans h.queued_lt) h.queued_lt he
  omega

/-- The buffers in use when there is a new one. -/
theorem Boxed.liveAddrs_fillOne (h : Boxed M rx chain mem box) (a : BitVec 64) :
    (liveAddrs (fillOne rx a) chain).Perm (a :: liveAddrs rx chain) := by
  have hlast : bufferAt (fillOne rx a) rx.rxringQueued = a := by
    have hslot : (fillOne rx a).rxringM (frameSlot (fillOne rx a) rx.rxringQueued) =
        some (getcl rx.allocated a) := by
      show Function.update rx.rxringM rx.rxringHdPtr _ (frameSlot rx rx.rxringQueued) = _
      rw [← h.head_eq, Function.update_self]
    exact bufferAt_of_slot hslot
  have hold : ∀ j ∈ List.range rx.rxringQueued, bufferAt (fillOne rx a) j = bufferAt rx j := by
    intro j hj
    have hne := h.slot_ne_head (List.mem_range.mp hj)
    have hslot : (fillOne rx a).rxringM (frameSlot (fillOne rx a) j) =
        rx.rxringM (frameSlot rx j) := Function.update_of_ne hne _ _
    rw [bufferAt, bufferAt, hslot]
  have hq : (fillOne rx a).rxringQueued = rx.rxringQueued + 1 := rfl
  unfold liveAddrs
  rw [hq, List.range_succ, List.map_append, List.map_congr_left hold, List.map_singleton, hlast]
  exact (List.perm_append_singleton a _).append_right _

/-- **A new buffer** goes behind the window. -/
theorem Boxed.fillOne (h : Boxed M rx chain mem box) (hq : rx.rxringQueued < defaultNumRxBufs)
    (ha : a &&& 3#64 = 0#64) (hfresh : a ∉ liveAddrs rx chain) :
    Boxed M (fillOne rx a) chain mem box := by
  have hlt := h.queued_lt
  have hle := h.le
  have hne : ∀ j < rx.rxringQueued, frameSlot rx j ≠ rx.rxringHdPtr := fun j hj =>
    h.slot_ne_head hj
  have hslot : ∀ j, frameSlot (Xmac.fillOne rx a) j = frameSlot rx j := fun _ => rfl
  have hring : ∀ i, i ≠ rx.rxringHdPtr → (Xmac.fillOne rx a).rxring i = rx.rxring i :=
    fun i hi => Function.update_of_ne hi _ _
  have hslots : ∀ i, i ≠ rx.rxringHdPtr → (Xmac.fillOne rx a).rxringM i = rx.rxringM i :=
    fun i hi => Function.update_of_ne hi _ _
  refine ⟨h.ring.fillOne defaultNumRxBufs_le hq ha, ?_, ?_, ?_, h.hwPtr, ?_, ?_, h.held⟩
  · show box.waiting.length ≤ rx.rxringQueued + 1
    omega
  · intro j f hf
    have hj : j < box.waiting.length := (List.getElem?_eq_some_iff.mp hf).1
    have hnej := hne j (by omega)
    rw [hslot, hring _ hnej, hslots _ hnej]
    exact h.filled j f hf
  · intro j hj hjq
    change j < rx.rxringQueued + 1 at hjq
    rw [hslot]
    rcases Nat.lt_succ_iff_lt_or_eq.mp hjq with hin | rfl
    · rw [hring _ (hne j hin)]
      exact h.unfilled j hj hin
    · rw [← h.head_eq]
      exact fillOne_new ha
  · intro i hi m hm
    by_cases hih : i = rx.rxringHdPtr
    · rw [hih] at hm
      have hnew : (Xmac.fillOne rx a).rxringM rx.rxringHdPtr = some (getcl rx.allocated a) :=
        Function.update_self _ _ _
      rw [hnew] at hm
      cases hm
      rfl
    · rw [hslots i hih] at hm
      exact h.blank i hi m hm
  · exact (h.liveAddrs_fillOne a).nodup_iff.mpr (List.nodup_cons.mpr ⟨hfresh, h.addrs⟩)

theorem Boxed.fillRqueue (h : Boxed M rx chain mem box) {as : List (BitVec 64)}
    (has : aligned as = true) (hfresh : (as ++ liveAddrs rx chain).Nodup) :
    Boxed M (fillRqueue defaultNumRxBufs as rx) chain mem box := by
  induction as generalizing rx with
  | nil => exact h
  | cons a as ih =>
      rw [aligned, List.all_cons, Bool.and_eq_true, beq_iff_eq] at has
      rw [List.cons_append] at hfresh
      have hnot : a ∉ liveAddrs rx chain := fun hin =>
        (List.nodup_cons.mp hfresh).1 (List.mem_append_right as hin)
      rw [Xmac.fillRqueue]
      split
      · rename_i hq
        have hperm := ((h.liveAddrs_fillOne a).append_left as).trans List.perm_middle
        exact ih (h.fillOne hq has.1 hnot) has.2 (hperm.nodup_iff.mpr hfresh)
      · exact h

/-- **Stopping the interface** throws away what waits. -/
theorem Boxed.stopRx (h : Boxed M rx chain mem box) :
    Boxed M (stopRx M rx) chain mem { box with waiting := [] } := by
  refine ⟨h.ring.stopRx, Nat.zero_le _, ?_, ?_, rfl, ?_, ?_, h.held⟩
  · intro j f hf
    cases hf
  · intro j _ hj
    exact absurd hj (Nat.not_lt_zero j)
  · intro i _ m hm
    cases hm
  · exact (List.nodup_append.mp h.addrs).2.1

/-- **A packet goes up**, as the frame it was. -/
theorem Boxed.deliver {m : RxMbuf} {ms : List RxMbuf} (h : Boxed M rx (m :: ms) mem box) :
    ∃ f r, box.held = f :: r ∧ packetOf mem m = packetFor M rx.rxcsum f ∧
      Boxed M (deliver rx [m]) ms mem { box with held := r, up := box.up ++ [f] } := by
  have hheld := h.held
  rcases hbox : box.held with _ | ⟨f, r⟩
  · rw [hbox] at hheld
    cases hheld
  · rw [hbox, List.map_cons, List.map_cons] at hheld
    obtain ⟨hf, hr⟩ := List.cons.inj hheld
    have hinv : RxInv M defaultNumRxBufs rx ([m] ++ ms) := h.ring
    refine ⟨f, r, rfl, hf, hinv.deliver, h.le, h.filled, h.unfilled, h.hwPtr, h.blank, ?_, hr⟩
    have hsub : (liveAddrs rx ms).Sublist (liveAddrs rx (m :: ms)) :=
      (List.Sublist.refl _).append (List.sublist_cons_self _ _)
    exact h.addrs.sublist hsub

/-- **A frame arrives** behind those that wait, in a buffer of its own. -/
theorem Boxed.hardwareReceive {addr ctl : BitVec 32} {rx' : RxState} (data : α)
    (h : Boxed M rx chain mem box) (hs : hardwareReceive M rx addr ctl = some rx') :
    Boxed M rx' chain (Function.update mem (decodeRx (rx.rxring rx.hwPtr)) data)
      { box with waiting := box.waiting ++ [⟨ctl, data⟩] } := by
  have hinv := h.ring.hardwareReceive hs
  obtain ⟨⟨hclear, hnew, -⟩, ht⟩ := Option.ite_none_right_eq_some.mp hs
  cases ht
  have hlt := h.queued_lt
  have hwrap := h.ring.wrap _ h.ring.hw_lt
  generalize hn : box.waiting.length = n at *
  have hle : n ≤ rx.rxringQueued := hn ▸ h.le
  have hhw : rx.hwPtr = frameSlot rx n := by rw [h.hwPtr, hn]
  -- the hardware is in the window, for behind it `NEW` is set
  have hroom : n < rx.rxringQueued := by
    apply Nat.lt_of_le_of_ne hle
    intro he
    have hout : ¬ InRxWindow rx rx.hwPtr := by
      rw [hhw, he, ← h.head_eq, h.ring.head]
      exact CircularWindow.behind_not_mem hlt
    have hset := h.ring.outside _ h.ring.hw_lt hout
    rw [hclear] at hset
    cases hset
  have hmem : InRxWindow rx rx.hwPtr := by
    refine (CircularWindow.mem_iff h.ring.tail_lt hlt.le h.ring.hw_lt).mpr ⟨n, hroom, hhw⟩
  obtain ⟨m, hm⟩ := Option.isSome_iff_exists.mp ((h.ring.slots _ h.ring.hw_lt).mpr hmem)
  have hbuf : decodeRx (rx.rxring rx.hwPtr) = m.mData := h.ring.own _ h.ring.hw_lt m hm hclear
  have hne : ∀ j < rx.rxringQueued, j ≠ n → frameSlot rx j ≠ rx.hwPtr := by
    intro j hj hjn he
    rw [hhw] at he
    exact hjn (frameSlot_inj (hj.trans hlt) (hroom.trans hlt) he)
  -- nobody else reads that buffer
  have hold : Boxed M rx chain (Function.update mem m.mData data) box := by
    apply h.of_mem
    · intro j hj m' hm'
      apply Function.update_of_ne
      exact ring_addr_ne h.addrs (by omega) hroom (by omega) hm' (hhw ▸ hm)
    · intro m' hm'
      apply Function.update_of_ne
      exact held_addr_ne h.addrs hroom (hhw ▸ hm) hm'
  rw [hbuf]
  refine ⟨hinv, ?_, ?_, ?_, ?_, h.blank, h.addrs, hold.held⟩
  · show (box.waiting ++ [_]).length ≤ rx.rxringQueued
    rw [List.length_append, List.length_singleton]
    omega
  · intro j f hf
    show has (Function.update rx.rxring rx.hwPtr _ (frameSlot rx j)).addr M.new = true ∧
      ∃ m', rx.rxringM (frameSlot rx j) = some m' ∧
        f = ⟨(Function.update rx.rxring rx.hwPtr _ (frameSlot rx j)).ctl, _⟩
    rcases Nat.lt_trichotomy j n with hj | rfl | hj
    · rw [List.getElem?_append_left (by omega)] at hf
      rw [Function.update_of_ne (hne j (by omega) (by omega))]
      exact hold.filled j f hf
    · rw [List.getElem?_append_right (by omega), hn, Nat.sub_self] at hf
      cases hf
      rw [← hhw, Function.update_self]
      exact ⟨hnew, m, hm, by rw [Function.update_self]⟩
    · rw [List.getElem?_eq_none (by simp; omega)] at hf
      cases hf
  · intro j hj hjq
    rw [List.length_append, List.length_singleton, hn] at hj
    show has (Function.update rx.rxring rx.hwPtr _ (frameSlot rx j)).addr M.new = false
    rw [Function.update_of_ne (hne j hjq (by omega))]
    exact h.unfilled j (by omega) hjq
  · show (if has (rx.rxring rx.hwPtr).addr M.wrap then 0 else rx.hwPtr + 1) =
      frameSlot rx (box.waiting ++ [_]).length
    rw [List.length_append, List.length_singleton, hn, hwrap, hhw, ← frameSlot_succ]
    simp only [decide_eq_true_eq]
    have hlast : frameSlot rx n = xmacNumRxDescs - 1 ↔ frameSlot rx n + 1 = xmacNumRxDescs := by
      show frameSlot rx n = 511 ↔ frameSlot rx n + 1 = 512
      omega
    simp only [hlast]

theorem boxed_setupRx (M : RxbufMasks) (rxcsum : Bool) (mem : BitVec 64 → α) :
    Boxed M (setupRx M rxcsum) [] mem ⟨[], [], []⟩ := by
  refine ⟨setupRx_inv, Nat.zero_le _, ?_, ?_, rfl, ?_, ?_, rfl⟩
  · intro j f hf
    cases hf
  · intro j _ hj
    exact absurd hj (Nat.not_lt_zero j)
  · intro i _ m hm
    cases hm
  · exact List.nodup_nil

end Phytium.Xmac
