import PhytiumSdk.Lib.PointerList
import PhytiumSdk.Xmac.RxInvariant

/-!
# XMAC receive: what one call hands to the stack

`phytium_xmac_recv` with the pointers it works with. It links the packets through
`m_next`, appends with `m_tl` where the last link stands, and takes the list apart
again once the lock is dropped. `recvLinked_refines` says that this is `recv`,
which the other results on the ring are about; `recv_delivers` is the account of
one call.
-/

namespace Phytium.Xmac

open Lib Lib.Mask Lib.PointerList

/-- `phytium_xmac_recv` with its pointers. A place is `none` for the local `m_hd`,
and the name of an mbuf for its `m_next`. While an mbuf is linked nothing else in
it changes, so that a pointer is the mbuf itself. -/
structure RecvState where
  rx : RxState
  /-- what is stored at the places -/
  ptr : Option ℕ → Option RxMbuf
  mTl : Option ℕ
  -- history
  /-- the mbufs given to `if_input`, with the `m_next` they had there -/
  input : List (RxMbuf × Option RxMbuf)

/-- `&m->m_next` -/
def nextPlace (m : RxMbuf) : Option ℕ := some m.name

variable (M : RxbufMasks) (rxbufs : ℕ)

/-- One pass of the loop over the descriptors. -/
def recvPass (s : RecvState) : RecvState :=
  let tl := s.rx.rxringTlPtr
  let ctl := (s.rx.rxring tl).ctl
  let rx :=
    { s.rx with
      rxringM := Function.update s.rx.rxringM tl none
      rxringTlPtr := if tl + 1 = xmacNumRxDescs then 0 else tl + 1
      rxringQueued := s.rx.rxringQueued - 1 }
  match s.rx.rxringM tl with
  | none => { s with rx := { rx with nullDeref := true } }
  | some m =>
      if badFrame M ctl then
        { s with rx := { rx with freed := s.rx.freed ++ [m.name], ierrors := s.rx.ierrors + 1 } }
      else
        let m := preparePacket M s.rx.rxcsum ctl m
        { s with rx := rx, ptr := Function.update s.ptr s.mTl (some m), mTl := nextPlace m }

/-- The loop over the descriptors; `rxring_queued` bounds the passes. -/
def recvPasses : ℕ → RecvState → RecvState
  | 0, s => s
  | n + 1, s => if received M s.rx then recvPasses n (recvPass M s) else s

/-- One pass of `phytium_xmac_fill_rqueue`; `m_getcl` clears `m_next`. -/
def fillOneLinked (s : RecvState) (a : BitVec 64) : RecvState :=
  { s with rx := fillOne s.rx a, ptr := Function.update s.ptr (some s.rx.allocated) none }

def fillRqueueLinked : List (BitVec 64) → RecvState → RecvState
  | [], s => s
  | a :: as, s => if s.rx.rxringQueued < rxbufs then fillRqueueLinked as (fillOneLinked s a) else s

/-- The loop over the list, for `fuel` passes at most. -/
def inputPasses : ℕ → RecvState → Option RecvState
  | 0, _ => none
  | fuel + 1, s =>
      match s.ptr none with
      | none => some s
      | some m =>
          let hd := Function.update s.ptr none (s.ptr (nextPlace m))
          let ptr := Function.update hd (nextPlace m) none
          inputPasses fuel
            { s with
              rx := deliver s.rx [m]
              ptr := ptr
              input := s.input ++ [(m, ptr (nextPlace m))] }

/-- `phytium_xmac_recv` -/
def recvLinked (fuel : ℕ) (as : List (BitVec 64)) (s : RecvState) : Option RecvState :=
  let s₀ := { s with ptr := Function.update s.ptr none none, mTl := none }
  inputPasses fuel (fillRqueueLinked rxbufs as (recvPasses M s.rx.rxringQueued s₀))

/-! ## The list -/

variable {M rxbufs} {s s' : RecvState} {chain : List RxMbuf} {a : BitVec 64}
  {as : List (BitVec 64)}

/-- No mbuf in the ring is linked to another one. -/
def Unlinked (s : RecvState) : Prop :=
  ∀ i < xmacNumRxDescs, ∀ m, s.rx.rxringM i = some m → s.ptr (nextPlace m) = none

/-- The packets of `chain` hang from `m_hd`. -/
structure Linked (s : RecvState) (chain : List RxMbuf) : Prop where
  list : Threaded nextPlace s.ptr none chain
  nodup : (chain.map RxMbuf.name).Nodup
  older : ∀ m ∈ chain, m.name < s.rx.allocated
  unlinked : Unlinked s

/-- The same while packets are appended. -/
structure Collecting (s : RecvState) (chain : List RxMbuf) : Prop extends Linked s chain where
  tail : s.mTl = endPlace nextPlace none chain
  names : (ringNames s.rx ++ chain.map RxMbuf.name).Nodup
  ringOlder : ∀ k ∈ ringNames s.rx, k < s.rx.allocated

theorem mem_ringNames {rx : RxState} {i : ℕ} {m : RxMbuf} (hi : i < xmacNumRxDescs)
    (hm : rx.rxringM i = some m) : m.name ∈ ringNames rx :=
  List.mem_map.mpr ⟨m, List.mem_filterMap.mpr ⟨i, List.mem_range.mpr hi, hm⟩, rfl⟩

theorem mem_places {k : ℕ} :
    some k ∈ none :: chain.map nextPlace ↔ k ∈ chain.map RxMbuf.name := by
  simp [nextPlace]

theorem places_nodup (h : (chain.map RxMbuf.name).Nodup) :
    (none :: chain.map nextPlace).Nodup := by
  refine List.nodup_cons.mpr ⟨by simp [nextPlace], ?_⟩
  have hmap := h.map (Option.some_injective ℕ)
  rwa [List.map_map] at hmap

/-! ## The loop over the descriptors -/

/-- What is left in the ring without the mbuf of one slot. -/
theorem ringNames_take {rx rx' : RxState} {i : ℕ} {m : RxMbuf} (hi : i < xmacNumRxDescs)
    (hm : rx.rxringM i = some m) (hslots : rx'.rxringM = Function.update rx.rxringM i none) :
    (ringNames rx).Perm (m.name :: ringNames rx') := by
  unfold ringNames
  rw [hslots]
  exact (CircularWindow.contents_take List.nodup_range (List.mem_range.mpr hi) hm).map RxMbuf.name

/-- An mbuf leaves the ring; nothing is linked to it. -/
theorem Collecting.take (h : Collecting s chain) {i : ℕ} {m : RxMbuf} {t : RxState}
    (hi : i < xmacNumRxDescs) (hm : s.rx.rxringM i = some m)
    (hslots : t.rxringM = Function.update s.rx.rxringM i none)
    (halloc : t.allocated = s.rx.allocated) :
    Collecting { s with rx := t } chain ∧ m.name ∉ ringNames t ++ chain.map RxMbuf.name ∧
      m.name < t.allocated ∧ s.ptr (some m.name) = none := by
  have hperm := ringNames_take hi hm hslots
  have hnames := ((hperm.append_right _).nodup_iff).mp h.names
  rw [List.cons_append, List.nodup_cons] at hnames
  refine ⟨⟨⟨h.list, h.nodup, ?_, ?_⟩, h.tail, hnames.2, ?_⟩, hnames.1, ?_, h.unlinked i hi m hm⟩
  · intro m' hm'
    exact (h.older m' hm').trans_eq halloc.symm
  · intro l hl m' hm'
    change t.rxringM l = some m' at hm'
    rw [hslots] at hm'
    by_cases hli : l = i
    · rw [hli, Function.update_self] at hm'
      cases hm'
    · rw [Function.update_of_ne hli] at hm'
      exact h.unlinked l hl m' hm'
  · intro k hk
    exact (h.ringOlder k (hperm.mem_iff.mpr (List.mem_cons_of_mem _ hk))).trans_eq halloc.symm
  · exact (h.ringOlder _ (mem_ringNames hi hm)).trans_eq halloc.symm

/-- A packet that is in neither place is stored through `m_tl`. -/
theorem Collecting.append (h : Collecting s chain) {p : RxMbuf}
    (hnew : p.name ∉ ringNames s.rx ++ chain.map RxMbuf.name) (hold : p.name < s.rx.allocated)
    (hnull : s.ptr (nextPlace p) = none) :
    Collecting { s with ptr := Function.update s.ptr s.mTl (some p), mTl := nextPlace p }
      (chain ++ [p]) := by
  have hmem : p.name ∉ chain.map RxMbuf.name := fun hin => hnew (List.mem_append_right _ hin)
  have hnames : (chain ++ [p]).map RxMbuf.name = (chain.map RxMbuf.name).concat p.name := by
    rw [List.map_append, List.map_singleton, List.concat_eq_append]
  refine ⟨⟨?_, ?_, ?_, ?_⟩, ?_, ?_, h.ringOlder⟩
  · rw [h.tail]
    exact h.list.append (mem_places.not.mpr hmem) (places_nodup h.nodup) hnull
  · rw [hnames]
    exact h.nodup.concat hmem
  · intro m hm
    rcases List.mem_append.mp hm with hm | hm
    · exact h.older m hm
    · rw [List.mem_singleton.mp hm]
      exact hold
  · -- the links of the mbufs in the ring are not written to
    intro i hi m hm
    have hplace : nextPlace m ≠ s.mTl := by
      rw [h.tail]
      intro he
      have hin : nextPlace m ∈ none :: chain.map nextPlace := by
        rw [he]
        exact endPlace_mem
      exact (List.nodup_append.mp h.names).2.2 _ (mem_ringNames hi hm) _ (mem_places.mp hin) rfl
    exact (Function.update_of_ne hplace _ _).trans (h.unlinked i hi m hm)
  · dsimp only
    rw [endPlace_concat]
  · rw [hnames, List.concat_eq_append, ← List.append_assoc, ← List.concat_eq_append]
    exact h.names.concat hnew

/-- What one pass does, with the pointers and without them. -/
theorem recvPass_cases {m : RxMbuf} (chain : List RxMbuf)
    (hm : s.rx.rxringM s.rx.rxringTlPtr = some m) :
    (recvOne M s.rx chain).1.rxringM = Function.update s.rx.rxringM s.rx.rxringTlPtr none ∧
    (recvOne M s.rx chain).1.allocated = s.rx.allocated ∧
    ((recvPass M s = { s with rx := (recvOne M s.rx chain).1 } ∧
        (recvOne M s.rx chain).2 = chain) ∨
      ∃ p, p.name = m.name ∧ (recvOne M s.rx chain).2 = chain ++ [p] ∧
        recvPass M s =
          { s with
            rx := (recvOne M s.rx chain).1
            ptr := Function.update s.ptr s.mTl (some p)
            mTl := nextPlace p }) := by
  unfold recvPass recvOne
  simp only [hm]
  split
  · exact ⟨rfl, rfl, Or.inl ⟨rfl, rfl⟩⟩
  · exact ⟨rfl, rfl, Or.inr ⟨_, preparePacket_name .., rfl, rfl⟩⟩

/-- **One pass** takes the mbuf out of the ring, and either frees it or appends it
to the list. -/
theorem Collecting.recvPass (h : Collecting s chain) (htl : s.rx.rxringTlPtr < xmacNumRxDescs)
    {m : RxMbuf} (hm : s.rx.rxringM s.rx.rxringTlPtr = some m) :
    (recvPass M s).rx = (recvOne M s.rx chain).1 ∧
    (recvPass M s).input = s.input ∧
    Collecting (recvPass M s) (recvOne M s.rx chain).2 := by
  obtain ⟨hslots, halloc, hcase⟩ := recvPass_cases (M := M) chain hm
  obtain ⟨htaken, hnew, hold, hnull⟩ := h.take htl hm hslots halloc
  rcases hcase with ⟨hpass, hchain⟩ | ⟨p, hp, hchain, hpass⟩
  · rw [hpass, hchain]
    exact ⟨rfl, rfl, htaken⟩
  · rw [hpass, hchain]
    rw [← hp] at hnew hold hnull
    exact ⟨rfl, rfl, htaken.append hnew hold hnull⟩

/-! ## What the loop consumes -/

/-- The slot `j` places behind the tail. -/
def frameSlot (rx : RxState) (j : ℕ) : ℕ := (rx.rxringTlPtr + j) % xmacNumRxDescs

/-- The first `n` mbufs from the tail on, with the control words of their
descriptors. -/
def frames (rx : RxState) (n : ℕ) : List (RxMbuf × BitVec 32) :=
  (List.range n).filterMap fun j =>
    (rx.rxringM (frameSlot rx j)).map fun m => (m, (rx.rxring (frameSlot rx j)).ctl)

/-- The frame is whole and its check sequence is right. -/
def GoodFrame (M : RxbufMasks) (ctl : BitVec 32) : Prop :=
  ctl &&& M.fcsStatus = 0#32 ∧ ctl &&& M.sof = M.sof ∧ ctl &&& M.eof = M.eof

instance (M : RxbufMasks) (ctl : BitVec 32) : Decidable (GoodFrame M ctl) := by
  unfold GoodFrame
  infer_instance

/-- The packets for the stack. -/
def packets (M : RxbufMasks) (rx : RxState) (n : ℕ) : List RxMbuf :=
  ((frames rx n).filter fun f => GoodFrame M f.2).map fun f => preparePacket M rx.rxcsum f.2 f.1

/-- The names of the other mbufs. -/
def dropped (M : RxbufMasks) (rx : RxState) (n : ℕ) : List ℕ :=
  ((frames rx n).filter fun f => ¬ GoodFrame M f.2).map fun f => f.1.name

/-- The ring without the first `n` descriptors. -/
def consumed (M : RxbufMasks) (rx : RxState) (n : ℕ) : RxState :=
  { rx with
    rxringM := fun i => if i ∈ (List.range n).map (frameSlot rx) then none else rx.rxringM i
    rxringTlPtr := frameSlot rx n
    rxringQueued := rx.rxringQueued - n
    ierrors := rx.ierrors + (dropped M rx n).length
    freed := rx.freed ++ dropped M rx n }

/-- `n` descriptors are received, and the window ends behind them or the next one
is not. -/
structure ReceivedRun (M : RxbufMasks) (rx : RxState) (n : ℕ) : Prop where
  le : n ≤ rx.rxringQueued
  new : ∀ j < n, has (rx.rxring (frameSlot rx j)).addr M.new = true
  maximal : n < rx.rxringQueued → has (rx.rxring (frameSlot rx n)).addr M.new = false

theorem exists_receivedRun (M : RxbufMasks) (rx : RxState) : ∃ n, ReceivedRun M rx n := by
  by_cases h : ∃ n < rx.rxringQueued, has (rx.rxring (frameSlot rx n)).addr M.new = false
  · obtain ⟨hlt, hclear⟩ := Nat.find_spec h
    refine ⟨Nat.find h, hlt.le, ?_, fun _ => hclear⟩
    intro j hj
    have hmin := Nat.find_min h hj
    rw [not_and, Bool.not_eq_false] at hmin
    exact hmin (hj.trans hlt)
  · refine ⟨rx.rxringQueued, Nat.le_refl _, ?_, fun hlt => absurd hlt (Nat.lt_irrefl _)⟩
    intro j hj
    by_contra hclear
    exact h ⟨j, hj, Bool.eq_false_iff.mpr hclear⟩

theorem ReceivedRun.unique {rx : RxState} {n k : ℕ} (h : ReceivedRun M rx n)
    (h' : ReceivedRun M rx k) : n = k := by
  have hle : ∀ {n k : ℕ}, ReceivedRun M rx n → ReceivedRun M rx k → n ≤ k := by
    intro n k h h'
    by_contra hlt
    rw [Nat.not_le] at hlt
    exact Bool.noConfusion ((h.new k hlt).symm.trans (h'.maximal (hlt.trans_le h.le)))
  exact Nat.le_antisymm (hle h h') (hle h' h)

theorem badFrame_iff (M : RxbufMasks) (ctl : BitVec 32) :
    badFrame M ctl = true ↔ ¬ GoodFrame M ctl := by
  have hparts : ctl &&& (M.sof ||| M.eof) = M.sof ||| M.eof ↔
      ctl &&& M.sof = M.sof ∧ ctl &&& M.eof = M.eof := by
    constructor
    · intro h
      constructor
      · rw [← and_or_absorb_left M.sof M.eof, BitVec.and_comm M.sof, ← BitVec.and_assoc, h]
      · rw [← and_or_absorb_right M.eof M.sof, BitVec.and_comm M.eof, ← BitVec.and_assoc, h]
    · rintro ⟨hsof, heof⟩
      rw [BitVec.and_or_distrib_left, hsof, heof]
  unfold badFrame GoodFrame
  rw [Bool.or_eq_true, decide_eq_true_iff, has_iff, ← hparts, not_and_or]

section Consumed

variable {rx : RxState} {j n : ℕ}

theorem frameSlot_lt (rx : RxState) (j : ℕ) : frameSlot rx j < xmacNumRxDescs :=
  Nat.mod_lt _ (Nat.succ_pos 511)

theorem frameSlot_succ (rx : RxState) (j : ℕ) :
    (if frameSlot rx j + 1 = xmacNumRxDescs then 0 else frameSlot rx j + 1) =
      frameSlot rx (j + 1) := by
  change (if (rx.rxringTlPtr + j) % 512 + 1 = 512 then 0 else (rx.rxringTlPtr + j) % 512 + 1) =
    (rx.rxringTlPtr + (j + 1)) % 512
  split <;> omega

theorem frameSlot_fresh (hj : j < xmacNumRxDescs) :
    frameSlot rx j ∉ (List.range j).map (frameSlot rx) := by
  intro h
  obtain ⟨l, hl, he⟩ := List.mem_map.mp h
  rw [List.mem_range] at hl
  change (rx.rxringTlPtr + l) % 512 = (rx.rxringTlPtr + j) % 512 at he
  change j < 512 at hj
  omega

theorem consumed_zero (htl : rx.rxringTlPtr < xmacNumRxDescs) : consumed M rx 0 = rx := by
  have hslot : frameSlot rx 0 = rx.rxringTlPtr := Nat.mod_eq_of_lt htl
  unfold consumed
  rw [hslot, show dropped M rx 0 = [] from rfl, List.append_nil]
  simp

theorem frames_succ {m : RxMbuf} (hm : rx.rxringM (frameSlot rx j) = some m) :
    frames rx (j + 1) = frames rx j ++ [(m, (rx.rxring (frameSlot rx j)).ctl)] := by
  unfold frames
  rw [List.range_succ, List.filterMap_append, List.filterMap_cons, hm]
  rfl

/-- The slot at the tail is as it was before the loop. -/
theorem consumed_slot (hj : j < xmacNumRxDescs) :
    (consumed M rx j).rxringM (consumed M rx j).rxringTlPtr = rx.rxringM (frameSlot rx j) :=
  if_neg (frameSlot_fresh hj)

theorem received_consumed : received M (consumed M rx j) = true ↔
    j < rx.rxringQueued ∧ has (rx.rxring (frameSlot rx j)).addr M.new = true := by
  unfold received
  rw [Bool.and_eq_true, decide_eq_true_iff]
  exact and_congr_left fun _ => Nat.sub_pos_iff_lt

theorem filter_map_concat {α β : Type*} {p : α → Prop} [DecidablePred p] (g : α → β)
    (l : List α) (a : α) : ((l ++ [a]).filter fun x => p x).map g =
      (l.filter fun x => p x).map g ++ if p a then [g a] else [] := by
  rw [List.filter_append, List.map_append, List.filter_singleton]
  by_cases hp : p a
  · simp [hp]
  · simp [hp]

theorem packets_succ {m : RxMbuf} (hm : rx.rxringM (frameSlot rx j) = some m) :
    packets M rx (j + 1) = packets M rx j ++
      if GoodFrame M (rx.rxring (frameSlot rx j)).ctl then
        [preparePacket M rx.rxcsum (rx.rxring (frameSlot rx j)).ctl m]
      else [] := by
  unfold packets
  rw [frames_succ hm, filter_map_concat]

theorem dropped_succ {m : RxMbuf} (hm : rx.rxringM (frameSlot rx j) = some m) :
    dropped M rx (j + 1) = dropped M rx j ++
      if GoodFrame M (rx.rxring (frameSlot rx j)).ctl then [] else [m.name] := by
  unfold dropped
  rw [frames_succ hm, filter_map_concat, ite_not]

theorem consumed_slots_succ (M : RxbufMasks) (rx : RxState) (j : ℕ) :
    (consumed M rx (j + 1)).rxringM =
      Function.update (consumed M rx j).rxringM (frameSlot rx j) none := by
  funext i
  have hmem : i ∈ (List.range (j + 1)).map (frameSlot rx) ↔
      i ∈ (List.range j).map (frameSlot rx) ∨ i = frameSlot rx j := by
    rw [List.range_succ, List.map_append, List.mem_append, List.map_singleton,
      List.mem_singleton]
  dsimp only [consumed]
  simp only [hmem]
  by_cases hi : i = frameSlot rx j
  · rw [hi, Function.update_self, if_pos (Or.inr rfl)]
  · rw [Function.update_of_ne hi]
    simp only [hi, or_false]

/-- **One pass** consumes one descriptor more. -/
theorem recvOne_consumed {m : RxMbuf} (hj : j < xmacNumRxDescs)
    (hm : rx.rxringM (frameSlot rx j) = some m) :
    recvOne M (consumed M rx j) (packets M rx j) =
      (consumed M rx (j + 1), packets M rx (j + 1)) := by
  have hpass : recvOne M (consumed M rx j) (packets M rx j) =
      if badFrame M (rx.rxring (frameSlot rx j)).ctl then
        ({ consumed M rx j with
            rxringM := (consumed M rx (j + 1)).rxringM
            rxringTlPtr := frameSlot rx (j + 1)
            rxringQueued := rx.rxringQueued - (j + 1)
            ierrors := (consumed M rx j).ierrors + 1
            freed := (consumed M rx j).freed ++ [m.name] }, packets M rx j)
      else
        ({ consumed M rx j with
            rxringM := (consumed M rx (j + 1)).rxringM
            rxringTlPtr := frameSlot rx (j + 1)
            rxringQueued := rx.rxringQueued - (j + 1) },
          packets M rx j ++ [preparePacket M rx.rxcsum (rx.rxring (frameSlot rx j)).ctl m]) := by
    unfold recvOne
    rw [consumed_slot hj, hm, consumed_slots_succ, ← frameSlot_succ rx j]
    rfl
  rw [hpass, packets_succ hm]
  simp only [badFrame_iff]
  by_cases hgood : GoodFrame M (rx.rxring (frameSlot rx j)).ctl
  · rw [if_neg (not_not.mpr hgood), if_pos hgood]
    unfold consumed
    rw [dropped_succ hm, if_pos hgood, List.append_nil]
  · rw [if_pos hgood, if_neg hgood, List.append_nil]
    unfold consumed
    rw [dropped_succ hm, if_neg hgood, List.length_append, List.append_assoc]
    rfl

theorem RxRingOk.slot_some (h : RxRingOk M rxbufs rx) (hj : j < rx.rxringQueued) :
    ∃ m, rx.rxringM (frameSlot rx j) = some m :=
  Option.isSome_iff_exists.mp ((h.slots _ (frameSlot_lt rx j)).mpr ⟨j, hj, rfl⟩)

theorem RxRingOk.queued_lt (h : RxRingOk M rxbufs rx) (hmax : rxbufs ≤ 511)
    (hj : j < rx.rxringQueued) : j < xmacNumRxDescs :=
  (hj.trans_le (h.queued_le.trans hmax)).trans (by decide)

/-- What the next pass finds. -/
theorem ReceivedRun.next (h : ReceivedRun M rx n) (hok : RxRingOk M rxbufs rx)
    (hmax : rxbufs ≤ 511) (hj : j < n) : received M (consumed M rx j) = true ∧
      j < xmacNumRxDescs ∧ (∃ m, rx.rxringM (frameSlot rx j) = some m) ∧
      rx.rxringQueued - j = rx.rxringQueued - (j + 1) + 1 := by
  have hq : j < rx.rxringQueued := hj.trans_le h.le
  refine ⟨received_consumed.mpr ⟨hq, h.new j hj⟩, hok.queued_lt hmax hq, hok.slot_some hq, ?_⟩
  omega

theorem ReceivedRun.not_received (h : ReceivedRun M rx n) :
    ¬ received M (consumed M rx n) = true := by
  intro hr
  obtain ⟨hlt, hnew⟩ := received_consumed.mp hr
  exact absurd (h.maximal hlt) (Bool.eq_false_iff.not.mpr (not_not.mpr hnew))

/-- **The loop** consumes the whole run. -/
theorem recvLoop_consumed (hok : RxRingOk M rxbufs rx) (hmax : rxbufs ≤ 511)
    (hrun : ReceivedRun M rx n) (k : ℕ) (hjn : j + k = n) :
    recvLoop M (rx.rxringQueued - j) (consumed M rx j) (packets M rx j) =
      (consumed M rx n, packets M rx n) := by
  induction k generalizing j with
  | zero =>
      obtain rfl : j = n := hjn
      cases rx.rxringQueued - j with
      | zero => rfl
      | succ fuel => rw [recvLoop, if_neg hrun.not_received]
  | succ k ih =>
      obtain ⟨hr, hj, ⟨m, hm⟩, hfuel⟩ := hrun.next hok hmax (j := j) (by omega)
      rw [hfuel, recvLoop, if_pos hr, recvOne_consumed hj hm]
      exact ih (by omega)

/-- The consumed mbufs and those still in the ring are the ones that were there. -/
theorem frames_perm (hok : RxRingOk M rxbufs rx) (hmax : rxbufs ≤ 511)
    (hj : j ≤ rx.rxringQueued) :
    (ringNames rx).Perm (((frames rx j).map fun f => f.1.name) ++ ringNames (consumed M rx j)) := by
  induction j with
  | zero =>
      rw [consumed_zero hok.tail_lt, show frames rx 0 = [] from rfl, List.map_nil, List.nil_append]
  | succ j ih =>
      obtain ⟨m, hm⟩ := hok.slot_some hj
      have hslot : (consumed M rx j).rxringM (frameSlot rx j) = some m :=
        (consumed_slot (hok.queued_lt hmax hj)).trans hm
      refine (ih (Nat.le_of_succ_le hj)).trans ?_
      rw [frames_succ hm, List.map_append, List.append_assoc, List.map_singleton,
        List.singleton_append]
      exact (ringNames_take (frameSlot_lt rx j) hslot (consumed_slots_succ M rx j)).append_left _

theorem frames_length (hok : RxRingOk M rxbufs rx) (hj : j ≤ rx.rxringQueued) :
    (frames rx j).length = j := by
  induction j with
  | zero => rfl
  | succ j ih =>
      obtain ⟨m, hm⟩ := hok.slot_some hj
      rw [frames_succ hm, List.length_append, ih (Nat.le_of_succ_le hj)]
      rfl

/-- Every consumed frame goes one way or the other. -/
theorem packets_add_dropped (M : RxbufMasks) (rx : RxState) (j : ℕ) :
    (packets M rx j).length + (dropped M rx j).length = (frames rx j).length := by
  unfold packets dropped
  rw [List.length_map, List.length_map, ← List.countP_eq_length_filter,
    ← List.countP_eq_length_filter, List.length_eq_countP_add_countP fun f => GoodFrame M f.2]
  simp

theorem packets_length_le (hok : RxRingOk M rxbufs rx) (hrun : ReceivedRun M rx n) :
    (packets M rx n).length ≤ rx.rxringQueued := by
  have hsum := packets_add_dropped M rx n
  rw [frames_length hok hrun.le] at hsum
  exact (Nat.le_of_add_right_le hsum.le).trans hrun.le

end Consumed

/-! ## The whole call -/

/-- What the pointers have to be like when `phytium_xmac_recv` is called. -/
structure RecvReady (M : RxbufMasks) (rxbufs : ℕ) (s : RecvState) : Prop where
  ring : RxRingOk M rxbufs s.rx
  unlinked : Unlinked s

/-- The state `t` after `j` passes over the ring `rx`. -/
structure Passed (M : RxbufMasks) (rx : RxState) (j : ℕ) (t : RecvState) : Prop where
  ring : t.rx = consumed M rx j
  list : Collecting t (packets M rx j)

section Call

variable {rx : RxState} {j n : ℕ} {t : RecvState}

theorem RecvReady.passed (h : RecvReady M rxbufs s) :
    Passed M s.rx 0 { s with ptr := Function.update s.ptr none none, mTl := none } where
  ring := (consumed_zero h.ring.tail_lt).symm
  list := by
    have hperm := h.ring.places
    rw [List.append_assoc] at hperm
    have hnodup : (ringNames s.rx).Nodup :=
      (List.nodup_append.mp (hperm.nodup_iff.mpr List.nodup_range)).1
    have holder : ∀ k ∈ ringNames s.rx, k < s.rx.allocated := fun k hk =>
      List.mem_range.mp (hperm.mem_iff.mp (List.mem_append_left _ hk))
    refine ⟨⟨.nil rfl, List.nodup_nil, nofun, ?_⟩, rfl, ?_, holder⟩
    · intro i hi m hm
      change Function.update s.ptr none none (some m.name) = none
      rw [Function.update_of_ne (Option.some_ne_none _)]
      exact h.unlinked i hi m hm
    · change (ringNames s.rx ++ []).Nodup
      rwa [List.append_nil]

/-- **One pass** with the pointers. -/
theorem Passed.step {m : RxMbuf} (h : Passed M rx j t) (hj : j < xmacNumRxDescs)
    (hm : rx.rxringM (frameSlot rx j) = some m) :
    Passed M rx (j + 1) (recvPass M t) ∧ (recvPass M t).input = t.input := by
  have hslot : t.rx.rxringM t.rx.rxringTlPtr = some m := by
    rw [h.ring, consumed_slot hj, hm]
  have htl : t.rx.rxringTlPtr < xmacNumRxDescs := by
    rw [h.ring]
    exact frameSlot_lt rx j
  obtain ⟨hrx, hinput, hlist⟩ := h.list.recvPass (M := M) htl hslot
  rw [h.ring, recvOne_consumed hj hm] at hrx hlist
  exact ⟨⟨hrx, hlist⟩, hinput⟩

/-- **The loop** with the pointers. -/
theorem Passed.run (hok : RxRingOk M rxbufs rx) (hmax : rxbufs ≤ 511)
    (hrun : ReceivedRun M rx n) (k : ℕ) (hjn : j + k = n) (h : Passed M rx j t) :
    Passed M rx n (recvPasses M (rx.rxringQueued - j) t) ∧
      (recvPasses M (rx.rxringQueued - j) t).input = t.input := by
  induction k generalizing j t with
  | zero =>
      obtain rfl : j = n := hjn
      cases rx.rxringQueued - j with
      | zero => exact ⟨h, rfl⟩
      | succ fuel =>
          rw [recvPasses, h.ring, if_neg hrun.not_received]
          exact ⟨h, rfl⟩
  | succ k ih =>
      obtain ⟨hr, hj, ⟨m, hm⟩, hfuel⟩ := hrun.next hok hmax (j := j) (by omega)
      obtain ⟨hstep, hinput⟩ := h.step hj hm
      rw [hfuel, recvPasses, h.ring, if_pos hr]
      obtain ⟨hrest, hsame⟩ := ih (by omega) hstep
      exact ⟨hrest, hsame.trans hinput⟩

/-- `m_getcl` brings an mbuf that is not linked to another one. -/
theorem Unlinked.fillOneLinked (h : Unlinked s) : Unlinked (fillOneLinked s a) := by
  intro i hi m hm
  change Function.update s.rx.rxringM s.rx.rxringHdPtr (some (getcl s.rx.allocated a)) i =
    some m at hm
  change Function.update s.ptr (some s.rx.allocated) none (nextPlace m) = none
  by_cases hih : i = s.rx.rxringHdPtr
  · rw [hih, Function.update_self] at hm
    cases hm
    exact Function.update_self ..
  · rw [Function.update_of_ne hih] at hm
    by_cases hname : nextPlace m = some s.rx.allocated
    · rw [hname, Function.update_self]
    · rw [Function.update_of_ne hname]
      exact h i hi m hm

theorem Linked.fillOneLinked (h : Linked s chain) : Linked (fillOneLinked s a) chain where
  list := by
    refine h.list.congr fun p hp => Function.update_of_ne ?_ _ _
    rintro rfl
    obtain ⟨m, hm, he⟩ := List.mem_map.mp (mem_places.mp hp)
    exact absurd he (h.older m hm).ne
  nodup := h.nodup
  older := fun m hm => (h.older m hm).trans (Nat.lt_succ_self _)
  unlinked := h.unlinked.fillOneLinked

/-- What every pass keeps, the loop keeps. -/
theorem fillRqueueLinked_keeps {P : RecvState → Prop}
    (hpass : ∀ s a, P s → P (fillOneLinked s a)) (h : P s) : P (fillRqueueLinked rxbufs as s) := by
  induction as generalizing s with
  | nil => exact h
  | cons a as ih =>
      rw [fillRqueueLinked]
      split
      · exact ih (hpass s a h)
      · exact h

theorem fillRqueueLinked_rx : (fillRqueueLinked rxbufs as s).rx = fillRqueue rxbufs as s.rx := by
  induction as generalizing s with
  | nil => rfl
  | cons a as ih =>
      rw [fillRqueueLinked, fillRqueue]
      split
      · exact ih
      · rfl

theorem deliver_nil (rx : RxState) : deliver rx [] = rx := by
  unfold deliver
  rw [List.append_nil, List.length_nil, Nat.add_zero]

theorem deliver_cons (rx : RxState) (m : RxMbuf) (l : List RxMbuf) :
    deliver (deliver rx [m]) l = deliver rx (m :: l) := by
  unfold deliver
  simp only [List.append_assoc, List.singleton_append, List.length_cons, List.length_nil,
    Nat.zero_add, Nat.add_assoc, Nat.add_comm 1]

/-- **The loop over the list** hands every packet up, alone and in order. -/
theorem Linked.inputPasses (h : Linked s chain) : ∃ s', Unlinked s' ∧
    s'.rx = deliver s.rx chain ∧ s'.input = s.input ++ chain.map (fun m => (m, none)) ∧
    ∀ fuel, chain.length < fuel → inputPasses fuel s = some s' := by
  induction chain generalizing s with
  | nil =>
      refine ⟨s, h.unlinked, (deliver_nil _).symm, (List.append_nil _).symm, ?_⟩
      rintro (_ | fuel) hfuel
      · exact absurd hfuel (Nat.not_lt_zero _)
      · rw [Xmac.inputPasses, h.list.pointer]
        rfl
  | cons m chain ih =>
      have hplaces := places_nodup h.nodup
      let hd := Function.update s.ptr none (s.ptr (nextPlace m))
      let t : RecvState :=
        { s with
          rx := deliver s.rx [m]
          ptr := Function.update hd (nextPlace m) none
          input := s.input ++ [(m, none)] }
      have ht : Linked t chain := by
        refine ⟨h.list.unlink hplaces, (List.nodup_cons.mp h.nodup).2,
          fun m' hm' => h.older m' (List.mem_cons_of_mem m hm'), ?_⟩
        intro i hi m' hm'
        change Function.update hd (nextPlace m) none (nextPlace m') = none
        by_cases hp : nextPlace m' = nextPlace m
        · rw [hp, Function.update_self]
        · rw [Function.update_of_ne hp]
          exact (Function.update_of_ne (Option.some_ne_none _) ..).trans (h.unlinked i hi m' hm')
      obtain ⟨s', hs', hrx, hinput, hrun⟩ := ih ht
      refine ⟨s', hs', ?_, ?_, ?_⟩
      · rw [hrx]
        exact deliver_cons s.rx m chain
      · rw [hinput, List.map_cons, List.append_cons]
      · rintro (_ | fuel) hfuel
        · exact absurd hfuel (Nat.not_lt_zero _)
        · rw [Xmac.inputPasses, h.list.pointer, List.head?_cons]
          dsimp only
          rw [Function.update_self]
          exact hrun fuel (Nat.lt_of_succ_lt_succ hfuel)

/-- What the call leaves, from the run of received descriptors. -/
theorem recvLinked_run (hmax : rxbufs ≤ 511) (h : RecvReady M rxbufs s)
    (hrun : ReceivedRun M s.rx n) (as : List (BitVec 64)) : ∃ s', Unlinked s' ∧
      s'.rx = deliver (fillRqueue rxbufs as (consumed M s.rx n)) (packets M s.rx n) ∧
      s'.input = s.input ++ (packets M s.rx n).map (fun m => (m, none)) ∧
      ∀ fuel, (packets M s.rx n).length < fuel → recvLinked M rxbufs fuel as s = some s' := by
  obtain ⟨hpassed, hsame⟩ := h.passed.run h.ring hmax hrun n (Nat.zero_add n)
  have hlinked : Linked (fillRqueueLinked rxbufs as _) (packets M s.rx n) :=
    fillRqueueLinked_keeps (P := fun t => Linked t (packets M s.rx n))
      (fun _ _ => Linked.fillOneLinked) hpassed.list.toLinked
  have hinput : (fillRqueueLinked rxbufs as _).input = s.input :=
    fillRqueueLinked_keeps (P := fun t => t.input = s.input) (fun _ _ => id) hsame
  obtain ⟨s', hs', hrx, hpackets, hpasses⟩ := hlinked.inputPasses
  refine ⟨s', hs', ?_, ?_, hpasses⟩
  · rw [hrx, fillRqueueLinked_rx, hpassed.ring]
  · rw [hpackets, hinput]

/-- **Refinement**: with its pointers the function computes `recv`, and the mbufs
in the ring are unlinked afterwards. -/
theorem recvLinked_refines (hmax : rxbufs ≤ 511) (h : RecvReady M rxbufs s)
    (as : List (BitVec 64)) : ∃ s', Unlinked s' ∧ s'.rx = recv M rxbufs as s.rx ∧
      ∀ fuel, s.rx.rxringQueued < fuel → recvLinked M rxbufs fuel as s = some s' := by
  obtain ⟨n, hrun⟩ := exists_receivedRun M s.rx
  obtain ⟨s', hs', hrx, -, hcall⟩ := recvLinked_run hmax h hrun as
  have hloop : recvLoop M s.rx.rxringQueued s.rx [] =
      (consumed M s.rx n, packets M s.rx n) := by
    have hall := recvLoop_consumed h.ring hmax hrun n (Nat.zero_add n)
    rwa [consumed_zero h.ring.tail_lt] at hall
  refine ⟨s', hs', ?_, fun fuel hfuel =>
    hcall fuel ((packets_length_le h.ring hrun).trans_lt hfuel)⟩
  rw [hrx, recv, recvLocked, hloop]

end Call

/-! ## Every run -/

/-- The receive ring with the pointers of its mbufs. -/
def recvSystem (M : RxbufMasks) (rxbufs : ℕ) : System RecvState RxEvent where
  init := fun s => ∃ rxcsum, s.rx = setupRx M rxcsum
  step := fun s e =>
    match e with
    | .fill as => if aligned as then some (fillRqueueLinked rxbufs as s) else none
    | .recv as =>
        if aligned as then recvLinked M rxbufs (s.rx.rxringQueued + 1) as s else none
    | .stop => some { s with rx := stopRx M s.rx }
    | .receive addr ctl =>
        (hardwareReceive M s.rx addr ctl).map fun rx => { s with rx := rx }

/-- Every step is one of the ring, and links no mbuf in it. -/
theorem recvSystem_step {e : RxEvent} (hmax : rxbufs ≤ 511) (h : RecvReady M rxbufs s)
    (hs : (recvSystem M rxbufs).step s e = some s') :
    rxStep M rxbufs s.rx e = some s'.rx ∧ Unlinked s' := by
  cases e with
  | fill as =>
      obtain ⟨has, ht⟩ := Option.ite_none_right_eq_some.mp hs
      cases ht
      refine ⟨?_, fillRqueueLinked_keeps (fun _ _ => Unlinked.fillOneLinked) h.unlinked⟩
      rw [rxStep, if_pos has, fillRqueueLinked_rx]
  | recv as =>
      obtain ⟨has, ht⟩ := Option.ite_none_right_eq_some.mp hs
      obtain ⟨t, hlinks, hrx, hcall⟩ := recvLinked_refines hmax h as
      rw [hcall _ (Nat.lt_succ_self _)] at ht
      cases ht
      refine ⟨?_, hlinks⟩
      rw [rxStep, if_pos has, hrx]
  | stop =>
      cases hs
      exact ⟨rfl, nofun⟩
  | receive addr ctl =>
      obtain ⟨rx, hrx, rfl⟩ := Option.map_eq_some_iff.mp hs
      refine ⟨hrx, ?_⟩
      obtain ⟨-, ht⟩ := Option.ite_none_right_eq_some.mp hrx
      cases ht
      exact h.unlinked

/-- Whenever `phytium_xmac_recv` is called, the ring is in order and its mbufs are
unlinked. -/
theorem recvSystem_ready (hmax : rxbufs ≤ 511) (h : (recvSystem M rxbufs).Reachable s) :
    RecvReady M rxbufs s := by
  have hinv : RxInv M rxbufs s.rx [] ∧ Unlinked s := by
    apply h.invariant (P := fun s => RxInv M rxbufs s.rx [] ∧ Unlinked s)
    · rintro s ⟨rxcsum, hs⟩
      unfold Unlinked
      rw [hs]
      exact ⟨setupRx_inv, nofun⟩
    · intro s e s' ⟨hring, hlinks⟩ hs
      obtain ⟨hstep, hlinks'⟩ := recvSystem_step hmax ⟨hring.rxRingOk hmax, hlinks⟩ hs
      exact ⟨rxStep_inv hmax hring hstep, hlinks'⟩
  exact ⟨hinv.1.rxRingOk hmax, hinv.2⟩

/-! ## One call -/

/-- The mbuf made ready for the stack. -/
structure Prepared (M : RxbufMasks) (rxcsum : Bool) (f : RxMbuf × BitVec 32) (p : RxMbuf) :
    Prop where
  name : p.name = f.1.name
  mData : p.mData = f.1.mData + etherAlign
  mLen : p.mLen = (f.2 &&& M.len).toNat
  pkthdrLen : p.pkthdrLen = (f.2 &&& M.len).toNat
  csum : rxcsum = false → p.csumFlags = f.1.csumFlags ∧ p.csumData = f.1.csumData

/-- What one call of `phytium_xmac_recv` does with the `n` descriptors it consumes. -/
structure Delivery (M : RxbufMasks) (rxbufs : ℕ) (as : List (BitVec 64)) (s : RecvState)
    (n : ℕ) (s' : RecvState) : Prop where
  run : ReceivedRun M s.rx n
  length : (frames s.rx n).length = n
  once : ((frames s.rx n).map fun f => f.1.name).Nodup
  ring : s'.rx = deliver (fillRqueue rxbufs as (consumed M s.rx n)) (packets M s.rx n)
  input : s'.input = s.input ++ (packets M s.rx n).map fun p => (p, none)
  packet : ∀ f ∈ frames s.rx n, Prepared M s.rx.rxcsum f (preparePacket M s.rx.rxcsum f.2 f.1)
  tail : s'.rx.rxringTlPtr = (s.rx.rxringTlPtr + n) % xmacNumRxDescs
  freed : s'.rx.freed = s.rx.freed ++ dropped M s.rx n
  ipackets : s'.rx.ipackets = s.rx.ipackets + (packets M s.rx n).length
  ierrors : s'.rx.ierrors = s.rx.ierrors + (dropped M s.rx n).length
  count : (packets M s.rx n).length + (dropped M s.rx n).length = n

theorem preparePacket_prepared (rxcsum : Bool) (f : RxMbuf × BitVec 32) :
    Prepared M rxcsum f (preparePacket M rxcsum f.2 f.1) := by
  have hmark : ∀ m, (markCsum M f.2 m).mData = m.mData ∧ (markCsum M f.2 m).mLen = m.mLen ∧
      (markCsum M f.2 m).pkthdrLen = m.pkthdrLen := by
    intro m
    unfold markCsum
    split
    · exact ⟨rfl, rfl, rfl⟩
    · split <;> exact ⟨rfl, rfl, rfl⟩
  cases rxcsum with
  | false => exact ⟨rfl, rfl, rfl, rfl, fun _ => ⟨rfl, rfl⟩⟩
  | true =>
      obtain ⟨hdata, hlen, hpkt⟩ := hmark
        { f.1 with
          mData := f.1.mData + etherAlign
          mLen := (f.2 &&& M.len).toNat
          pkthdrLen := (f.2 &&& M.len).toNat }
      exact ⟨preparePacket_name .., hdata, hlen, hpkt, nofun⟩

theorem fillRqueue_frame (rxbufs : ℕ) (as : List (BitVec 64)) (rx : RxState) :
    (fillRqueue rxbufs as rx).rxringTlPtr = rx.rxringTlPtr ∧
    (fillRqueue rxbufs as rx).freed = rx.freed ∧
    (fillRqueue rxbufs as rx).ipackets = rx.ipackets ∧
    (fillRqueue rxbufs as rx).ierrors = rx.ierrors := by
  induction as generalizing rx with
  | nil => exact ⟨rfl, rfl, rfl, rfl⟩
  | cons a as ih =>
      rw [fillRqueue]
      split
      · exact ih (fillOne rx a)
      · exact ⟨rfl, rfl, rfl, rfl⟩

/-- **Delivery.** One call consumes the received descriptors from the tail on, up
to the first that is not received or the end of the window. The good frames go up
the stack in that order, each as a packet of its own; the others are freed; every
one of them is counted. -/
theorem recv_delivers (hmax : rxbufs ≤ 511) (h : RecvReady M rxbufs s)
    (as : List (BitVec 64)) : ∃ n s', Delivery M rxbufs as s n s' ∧
      ∀ fuel, s.rx.rxringQueued < fuel → recvLinked M rxbufs fuel as s = some s' := by
  obtain ⟨n, hrun⟩ := exists_receivedRun M s.rx
  obtain ⟨s', -, hrx, hinput, hcall⟩ := recvLinked_run hmax h hrun as
  obtain ⟨htail, hfreed, hipackets, hierrors⟩ := fillRqueue_frame rxbufs as (consumed M s.rx n)
  have hlen := frames_length h.ring hrun.le
  have honce : ((frames s.rx n).map fun f => f.1.name).Nodup := by
    have hperm := (frames_perm (M := M) h.ring hmax hrun.le).nodup_iff
    have hplaces := h.ring.places.nodup_iff.mpr List.nodup_range
    rw [List.append_assoc] at hplaces
    exact (List.nodup_append.mp (hperm.mp (List.nodup_append.mp hplaces).1)).1
  refine ⟨n, s', ?_, fun fuel hfuel =>
    hcall fuel ((packets_length_le h.ring hrun).trans_lt hfuel)⟩
  constructor
  · exact hrun
  · exact hlen
  · exact honce
  · exact hrx
  · exact hinput
  · exact fun f _ => preparePacket_prepared _ f
  · rw [hrx]
    exact htail
  · rw [hrx]
    exact hfreed
  · rw [hrx]
    change (fillRqueue rxbufs as (consumed M s.rx n)).ipackets + _ = _
    rw [hipackets]
    rfl
  · rw [hrx]
    exact hierrors
  · rw [packets_add_dropped, hlen]

/-- A ring that was just set up. -/
def freshRing : RecvState := ⟨setupRx sampleRxMasks true, fun _ => none, none, []⟩

/-- Three buffers, a good frame and a broken one. -/
def goodAndBroken : List RxEvent :=
  [.fill [0x1000#64, 0x2000#64, 0x3000#64], .receive 0x1001#32 (3#32 <<< 14 ||| 60#32),
    .receive 0x2001#32 (1#32 <<< 13)]

theorem recv_delivers_good_and_broken :
    ∃ s s', (recvSystem sampleRxMasks 3).run freshRing goodAndBroken = some s ∧
      Delivery sampleRxMasks 3 [] s 2 s' := by
  have hrun : ((recvSystem sampleRxMasks 3).run freshRing goodAndBroken).map (fun s =>
      (s.rx.rxringQueued, (List.range 3).map fun j =>
        has (s.rx.rxring (frameSlot s.rx j)).addr sampleRxMasks.new)) =
      some (3, [true, true, false]) := by
    decide
  obtain ⟨s, hs, hq⟩ := Option.map_eq_some_iff.mp hrun
  simp only [Prod.mk.injEq, List.range_succ, List.range_zero, List.nil_append, List.cons_append,
    List.map_cons, List.map_nil, List.cons.injEq, and_true] at hq
  obtain ⟨hqueued, hnew₀, hnew₁, hnew₂⟩ := hq
  have hready : RecvReady sampleRxMasks 3 s :=
    recvSystem_ready (by decide) (System.reachable_of_run _ ⟨true, rfl⟩ hs)
  have htwo : ReceivedRun sampleRxMasks s.rx 2 := by
    refine ⟨by rw [hqueued]; decide, ?_, fun _ => hnew₂⟩
    rintro (_ | _ | j) hj
    · exact hnew₀
    · exact hnew₁
    · omega
  obtain ⟨n, s', hdelivery, -⟩ := recv_delivers (by decide) hready []
  rw [hdelivery.run.unique htwo] at hdelivery
  exact ⟨s, s', hs, hdelivery⟩

end Phytium.Xmac
