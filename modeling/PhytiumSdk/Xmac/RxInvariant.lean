import PhytiumSdk.Xmac.Receive

/-!
# The receive ring

`RxInv` is kept by every pass of the two loops, by stopping the interface and
by the hardware. Its last field accounts for every mbuf that was ever
allocated: the ring, the chain `recv` is collecting, the stack and the freed
ones together are all of them, each once.
-/

namespace Phytium.Xmac

open Lib Lib.Mask

variable {M : RxbufMasks} {rxbufs : ℕ} {s s' : RxState} {chain : List RxMbuf} {a : BitVec 64}

/-- The slots in use. -/
abbrev InRxWindow (s : RxState) (i : ℕ) : Prop :=
  CircularWindow.Mem xmacNumRxDescs s.rxringTlPtr s.rxringQueued i

/-- The address in a descriptor the hardware has not filled yet. -/
def decodeRx (d : RxDesc) : BitVec 64 := d.addrhi ++ (d.addr &&& ~~~3#32)

/-- The invariant of the receive ring, while `recv` holds the packets of
`chain`. -/
structure RxInv (M : RxbufMasks) (rxbufs : ℕ) (s : RxState) (chain : List RxMbuf) : Prop where
  tail_lt : s.rxringTlPtr < xmacNumRxDescs
  queued_le : s.rxringQueued ≤ rxbufs
  head : s.rxringHdPtr = CircularWindow.behind xmacNumRxDescs s.rxringTlPtr s.rxringQueued
  hw_lt : s.hwPtr < xmacNumRxDescs
  slots : ∀ i < xmacNumRxDescs, (s.rxringM i).isSome = true ↔ InRxWindow s i
  outside : ∀ i < xmacNumRxDescs, ¬ InRxWindow s i → has (s.rxring i).addr M.new = true
  wrap : ∀ i < xmacNumRxDescs, has (s.rxring i).addr M.wrap = decide (i = xmacNumRxDescs - 1)
  own : ∀ i < xmacNumRxDescs, ∀ m, s.rxringM i = some m → has (s.rxring i).addr M.new = false →
    decodeRx (s.rxring i) = m.mData
  places : (ringNames s ++ chain.map RxMbuf.name ++ s.delivered.map RxMbuf.name ++ s.freed).Perm
    (List.range s.allocated)
  noNull : s.nullDeref = false

/-! ## Setup and stop -/

theorem new_disjoint_wrap (M : RxbufMasks) : M.new &&& M.wrap = 0#32 := by
  rw [M.new_eq, M.wrap_eq]
  decide

theorem clearedRxring_new (i : ℕ) : has (clearedRxring M i).addr M.new = true := by
  have hnew : has M.new M.new = true := has_self (by rw [M.new_eq]; decide)
  unfold clearedRxring
  dsimp only
  split
  · rw [has_or, hnew]
    rfl
  · exact hnew

theorem clearedRxring_wrap (i : ℕ) :
    has (clearedRxring M i).addr M.wrap = decide (i = xmacNumRxDescs - 1) := by
  have hnew : has M.new M.wrap = false := has_of_disjoint (new_disjoint_wrap M)
  have hwrap : has M.wrap M.wrap = true := has_self (by rw [M.wrap_eq]; decide)
  unfold clearedRxring
  dsimp only
  split
  · rename_i h
    rw [has_or, hwrap, decide_eq_true h, Bool.or_true]
  · rename_i h
    rw [hnew, decide_eq_false h]

theorem ringNames_empty (h : ∀ i, s.rxringM i = none) : ringNames s = [] := by
  rw [ringNames, CircularWindow.contents_none fun i _ => h i, List.map_nil]

/-- The emptied ring, with the hardware at its first descriptor. -/
theorem RxInv.cleared (hnull : s.nullDeref = false)
    (hplaces : (chain.map RxMbuf.name ++ s.delivered.map RxMbuf.name ++ s.freed).Perm
      (List.range s.allocated)) :
    RxInv M rxbufs
      { s with
        rxring := clearedRxring M
        rxringM := fun _ => none
        rxringHdPtr := 0
        rxringTlPtr := 0
        rxringQueued := 0
        hwPtr := 0 } chain where
  tail_lt := Nat.succ_pos 511
  queued_le := Nat.zero_le _
  head := rfl
  hw_lt := Nat.succ_pos 511
  slots := fun i _ => by
    refine ⟨fun h => absurd h Bool.false_ne_true, ?_⟩
    intro h
    exact absurd h (CircularWindow.not_mem_zero (Nat.succ_pos 511))
  outside := fun i _ _ => clearedRxring_new i
  wrap := fun i _ => clearedRxring_wrap i
  own := fun i _ m h => nomatch h
  places := by
    rw [ringNames_empty fun _ => rfl]
    exact hplaces
  noNull := hnull

theorem setupRx_inv {rxcsum : Bool} : RxInv M rxbufs (setupRx M rxcsum) [] :=
  .cleared (s := setupRx M rxcsum) rfl (List.Perm.refl _)

theorem RxInv.stopRx (h : RxInv M rxbufs s chain) : RxInv M rxbufs (stopRx M s) chain := by
  refine .cleared (s := Xmac.stopRx M s) h.noNull ?_
  -- what was in the ring is now among the freed ones
  refine List.Perm.trans ?_ h.places
  rw [List.perm_iff_count]
  intro k
  simp only [Xmac.stopRx, List.count_append]
  omega

/-! ## `phytium_xmac_fill_rqueue` -/

/-- An aligned address leaves the two low bits of its word clear. -/
theorem low_bits (ha : a &&& 3#64 = 0#64) : a.setWidth 32 &&& 3#32 = 0#32 := by
  have h := congrArg (BitVec.setWidth 32) ha
  rw [BitVec.setWidth_and] at h
  exact h

theorem has_low_bits {x m : BitVec 32} (hx : x &&& 3#32 = 0#32) (hm : 3#32 &&& m = m) :
    has x m = false := by
  rw [has_eq_false_iff, ← hm, ← BitVec.and_assoc, hx, BitVec.zero_and]

/-- The descriptor `fill_rqueue` writes carries the address of its mbuf. -/
theorem decodeRx_fill {d : RxDesc} {flag : BitVec 32} (ha : a &&& 3#64 = 0#64)
    (hflag : flag &&& ~~~3#32 = 0#32) (haddr : d.addr = a.setWidth 32 ||| flag)
    (hhi : d.addrhi = (a >>> 32).setWidth 32) : decodeRx d = a := by
  rw [decodeRx, haddr, hhi, BitVec.and_or_distrib_right, hflag, BitVec.or_zero,
    and_not_of_disjoint (low_bits ha), append_setWidth]

/-- `fill_rqueue` sets no low bit but `WRAP`, and that in the last descriptor. -/
theorem fillOne_addr (M : RxbufMasks) (s : RxState) (a : BitVec 64) : ∃ flag : BitVec 32,
    ((fillOne s a).rxring s.rxringHdPtr).addr = a.setWidth 32 ||| flag ∧
    flag &&& ~~~3#32 = 0#32 ∧
    has flag M.wrap = decide (s.rxringHdPtr = xmacNumRxDescs - 1) := by
  rw [M.wrap_eq]
  by_cases hlast : s.rxringHdPtr = xmacNumRxDescs - 1
  · refine ⟨1#32 <<< 1, ?_, by decide, ?_⟩
    · simp only [fillOne, Function.update_self, if_pos hlast]
    · rw [decide_eq_true hlast]
      decide
  · refine ⟨0#32, ?_, by decide, ?_⟩
    · simp only [fillOne, Function.update_self, if_neg hlast, BitVec.or_zero]
    · rw [decide_eq_false hlast]
      decide

/-- The slot at the head pointer is free while the ring is not full. -/
theorem RxInv.head_free (h : RxInv M rxbufs s chain) (hq : s.rxringQueued < xmacNumRxDescs) :
    s.rxringHdPtr < xmacNumRxDescs ∧ s.rxringM s.rxringHdPtr = none := by
  have hhd : s.rxringHdPtr < xmacNumRxDescs := by
    rw [h.head]
    exact CircularWindow.behind_lt h.tail_lt hq.le
  refine ⟨hhd, ?_⟩
  cases hm : s.rxringM s.rxringHdPtr with
  | none => rfl
  | some m =>
      have hmem := (h.slots _ hhd).mp (by rw [hm]; rfl)
      rw [h.head] at hmem
      exact absurd hmem (CircularWindow.behind_not_mem hq)

/-- The new mbuf is one more in the ring, and the next in order of allocation. -/
theorem RxInv.fillOne_places (h : RxInv M rxbufs s chain)
    (hq : s.rxringQueued < xmacNumRxDescs) :
    (ringNames (fillOne s a) ++ chain.map RxMbuf.name ++ s.delivered.map RxMbuf.name ++
      s.freed).Perm (List.range (s.allocated + 1)) := by
  obtain ⟨hhd, hnone⟩ := h.head_free hq
  have hperm : (ringNames (fillOne s a)).Perm (s.allocated :: ringNames s) :=
    (CircularWindow.contents_fill List.nodup_range (List.mem_range.mpr hhd) hnone).map
      RxMbuf.name
  rw [List.range_succ]
  refine List.Perm.trans ?_ (List.perm_append_comm.trans (h.places.append_right _))
  rw [List.perm_iff_count]
  intro k
  simp only [List.count_append, hperm.count_eq, List.count_cons, List.count_nil]
  omega

/-- **One pass of the loop that refills the ring.** -/
theorem RxInv.fillOne (h : RxInv M rxbufs s chain) (hmax : rxbufs ≤ 511)
    (hq : s.rxringQueued < rxbufs) (ha : a &&& 3#64 = 0#64) :
    RxInv M rxbufs (fillOne s a) chain := by
  have hqN : s.rxringQueued < xmacNumRxDescs := by
    show s.rxringQueued < 512
    omega
  have hmem : ∀ i < xmacNumRxDescs,
      InRxWindow (Xmac.fillOne s a) i ↔ InRxWindow s i ∨ i = s.rxringHdPtr := by
    intro i hi
    rw [h.head]
    exact CircularWindow.mem_push hi
  obtain ⟨flag, haddr, hflag, hwrap⟩ := fillOne_addr M s a
  have hhi : ((Xmac.fillOne s a).rxring s.rxringHdPtr).addrhi = (a >>> 32).setWidth 32 := by
    simp only [Xmac.fillOne, Function.update_self]
  have hslot : (Xmac.fillOne s a).rxringM s.rxringHdPtr = some (getcl s.allocated a) :=
    Function.update_self _ _ _
  have hring : ∀ i, i ≠ s.rxringHdPtr → (Xmac.fillOne s a).rxring i = s.rxring i :=
    fun i hi => Function.update_of_ne hi _ _
  have hslots : ∀ i, i ≠ s.rxringHdPtr → (Xmac.fillOne s a).rxringM i = s.rxringM i :=
    fun i hi => Function.update_of_ne hi _ _
  constructor
  · exact h.tail_lt
  · exact hq
  · show (if s.rxringHdPtr = xmacNumRxDescs - 1 then 0 else s.rxringHdPtr + 1) =
      CircularWindow.behind xmacNumRxDescs s.rxringTlPtr (s.rxringQueued + 1)
    rw [CircularWindow.behind_push h.tail_lt hqN, ← h.head, CircularWindow.next]
    by_cases hlast : s.rxringHdPtr = xmacNumRxDescs - 1
    · rw [if_pos hlast, if_pos (by rw [hlast]; rfl)]
    · rw [if_neg hlast, if_neg fun e => hlast (Nat.eq_sub_of_add_eq e)]
  · exact h.hw_lt
  · intro i hi
    rw [hmem i hi]
    by_cases hih : i = s.rxringHdPtr
    · rw [hih, hslot]
      exact ⟨fun _ => Or.inr rfl, fun _ => rfl⟩
    · rw [hslots i hih, h.slots i hi]
      exact ⟨Or.inl, fun hor => hor.resolve_right hih⟩
  · intro i hi hout
    rw [hmem i hi, not_or] at hout
    rw [hring i hout.2]
    exact h.outside i hi hout.1
  · intro i hi
    by_cases hih : i = s.rxringHdPtr
    · rw [hih, haddr, has_or, hwrap, has_low_bits (low_bits ha) (by rw [M.wrap_eq]; decide),
        Bool.false_or]
    · rw [hring i hih]
      exact h.wrap i hi
  · intro i hi m hm hclear
    by_cases hih : i = s.rxringHdPtr
    · rw [hih] at hm ⊢
      rw [hslot] at hm
      cases hm
      exact decodeRx_fill ha hflag haddr hhi
    · rw [hslots i hih] at hm
      rw [hring i hih] at hclear ⊢
      exact h.own i hi m hm hclear
  · exact h.fillOne_places hqN
  · exact h.noNull

theorem RxInv.fillRqueue (hmax : rxbufs ≤ 511) : ∀ {as : List (BitVec 64)} {s : RxState},
    RxInv M rxbufs s chain → aligned as = true → RxInv M rxbufs (fillRqueue rxbufs as s) chain
  | [], _, h, _ => h
  | a :: as, s, h, has => by
      rw [aligned, List.all_cons, Bool.and_eq_true, beq_iff_eq] at has
      rw [Xmac.fillRqueue]
      split
      · rename_i hq
        exact RxInv.fillRqueue hmax (h.fillOne hmax hq has.1) has.2
      · exact h

/-! ## `phytium_xmac_recv` -/

@[simp] theorem markCsum_name (ctl : BitVec 32) (m : RxMbuf) :
    (markCsum M ctl m).name = m.name := by
  unfold markCsum
  split
  · rfl
  · split <;> rfl

@[simp] theorem preparePacket_name (rxcsum : Bool) (ctl : BitVec 32) (m : RxMbuf) :
    (preparePacket M rxcsum ctl m).name = m.name := by
  unfold preparePacket
  dsimp only
  split
  · rw [markCsum_name]
  · rfl

/-- A received descriptor still has its mbuf. -/
theorem RxInv.slot_of_received (h : RxInv M rxbufs s chain) (hr : received M s = true) :
    0 < s.rxringQueued ∧ has (s.rxring s.rxringTlPtr).addr M.new = true ∧
    ∃ m, s.rxringM s.rxringTlPtr = some m := by
  rw [received, Bool.and_eq_true, decide_eq_true_iff] at hr
  have hmem := (h.slots _ h.tail_lt).mpr (CircularWindow.head_mem hr.1)
  exact ⟨hr.1, hr.2, Option.isSome_iff_exists.mp hmem⟩

/-- What one pass leaves, whatever becomes of the mbuf: `extra` is where it
went. -/
theorem RxInv.pop {m : RxMbuf} {chain' : List RxMbuf} {t : RxState} (h : RxInv M rxbufs s chain)
    (hmax : rxbufs ≤ 511) (hr : received M s = true) (hm : s.rxringM s.rxringTlPtr = some m)
    (hring : t.rxring = s.rxring)
    (hslots : t.rxringM = Function.update s.rxringM s.rxringTlPtr none)
    (hhd : t.rxringHdPtr = s.rxringHdPtr) (hhw : t.hwPtr = s.hwPtr)
    (htl : t.rxringTlPtr = CircularWindow.next xmacNumRxDescs s.rxringTlPtr)
    (hq : t.rxringQueued = s.rxringQueued - 1) (halloc : t.allocated = s.allocated)
    (hplace : (m.name :: (chain.map RxMbuf.name ++ s.delivered.map RxMbuf.name ++ s.freed)).Perm
      (chain'.map RxMbuf.name ++ t.delivered.map RxMbuf.name ++ t.freed))
    (hnull : t.nullDeref = s.nullDeref) : RxInv M rxbufs t chain' := by
  obtain ⟨h0, hnew, -⟩ := h.slot_of_received hr
  have hqN : s.rxringQueued ≤ xmacNumRxDescs := h.queued_le.trans (hmax.trans (by decide))
  have hmem : ∀ i < xmacNumRxDescs, InRxWindow t i ↔ InRxWindow s i ∧ i ≠ s.rxringTlPtr := by
    intro i hi
    rw [InRxWindow, htl, hq]
    exact CircularWindow.mem_pop h0 hqN hi
  constructor
  · rw [htl]
    exact CircularWindow.next_lt h.tail_lt
  · rw [hq]
    exact (Nat.sub_le _ _).trans h.queued_le
  · rw [hhd, htl, hq, h.head, CircularWindow.behind_pop h0 hqN]
  · rw [hhw]
    exact h.hw_lt
  · intro i hi
    rw [hmem i hi, hslots]
    by_cases hit : i = s.rxringTlPtr
    · rw [hit, Function.update_self]
      exact ⟨fun hn => absurd hn Bool.false_ne_true, fun hn => absurd rfl hn.2⟩
    · rw [Function.update_of_ne hit, h.slots i hi]
      exact ⟨fun hw => ⟨hw, hit⟩, fun hw => hw.1⟩
  · intro i hi hout
    rw [hring]
    by_cases hit : i = s.rxringTlPtr
    · rw [hit]
      exact hnew
    · exact h.outside i hi fun hw => hout ((hmem i hi).mpr ⟨hw, hit⟩)
  · rw [hring]
    exact h.wrap
  · intro i hi m' hm'
    rw [hslots] at hm'
    rw [hring]
    by_cases hit : i = s.rxringTlPtr
    · rw [hit, Function.update_self] at hm'
      cases hm'
    · rw [Function.update_of_ne hit] at hm'
      exact h.own i hi m' hm'
  · have htake := (CircularWindow.contents_take List.nodup_range
      (List.mem_range.mpr h.tail_lt) hm).map RxMbuf.name
    rw [halloc]
    refine List.Perm.trans ?_ h.places
    rw [List.perm_iff_count]
    intro k
    have h1 := htake.count_eq k
    have h2 := hplace.count_eq k
    simp only [List.map_cons, List.count_cons, List.count_append] at h1 h2
    simp only [ringNames, hslots, List.count_append]
    omega
  · rw [hnull]
    exact h.noNull

/-- **One pass of the loop that collects packets.** -/
theorem RxInv.recvOne (h : RxInv M rxbufs s chain) (hmax : rxbufs ≤ 511)
    (hr : received M s = true) :
    RxInv M rxbufs (recvOne M s chain).1 (recvOne M s chain).2 := by
  obtain ⟨-, -, m, hm⟩ := h.slot_of_received hr
  unfold Xmac.recvOne
  dsimp only
  rw [hm]
  dsimp only
  split
  · refine h.pop hmax hr hm rfl rfl rfl rfl rfl rfl rfl ?_ rfl
    -- the mbuf is freed
    rw [List.perm_iff_count]
    intro k
    simp only [List.count_append, List.count_cons, List.count_nil]
    omega
  · refine h.pop hmax hr hm rfl rfl rfl rfl rfl rfl rfl ?_ rfl
    -- the mbuf joins the chain
    rw [List.perm_iff_count]
    intro k
    simp only [List.map_append, List.map_cons, List.map_nil, preparePacket_name,
      List.count_append, List.count_cons, List.count_nil]
    omega

theorem RxInv.recvLoop (hmax : rxbufs ≤ 511) : ∀ {n : ℕ} {s : RxState} {chain : List RxMbuf},
    RxInv M rxbufs s chain → RxInv M rxbufs (recvLoop M n s chain).1 (recvLoop M n s chain).2
  | 0, _, _, h => h
  | n + 1, s, chain, h => by
      rw [Xmac.recvLoop]
      split
      · rename_i hr
        exact RxInv.recvLoop hmax (h.recvOne hmax hr)
      · exact h

/-- Packets at the front of the chain go up the stack. -/
theorem RxInv.deliver {rest : List RxMbuf} (h : RxInv M rxbufs s (chain ++ rest)) :
    RxInv M rxbufs (deliver s chain) rest where
  tail_lt := h.tail_lt
  queued_le := h.queued_le
  head := h.head
  hw_lt := h.hw_lt
  slots := h.slots
  outside := h.outside
  wrap := h.wrap
  own := h.own
  places := by
    refine List.Perm.trans ?_ h.places
    rw [List.perm_iff_count]
    intro k
    simp only [Xmac.deliver, ringNames, List.map_append, List.count_append]
    omega
  noNull := h.noNull

theorem RxInv.recv {as : List (BitVec 64)} (h : RxInv M rxbufs s []) (hmax : rxbufs ≤ 511)
    (has : aligned as = true) : RxInv M rxbufs (recv M rxbufs as s) [] := by
  apply RxInv.deliver
  rw [List.append_nil]
  exact (RxInv.recvLoop hmax h).fillRqueue hmax has

/-! ## The hardware -/

theorem RxInv.hardwareReceive {addr ctl : BitVec 32} (h : RxInv M rxbufs s chain)
    (hs : hardwareReceive M s addr ctl = some s') : RxInv M rxbufs s' chain := by
  obtain ⟨⟨-, hnew, hwrap⟩, ht⟩ := Option.ite_none_right_eq_some.mp hs
  cases ht
  have hring : ∀ i, i ≠ s.hwPtr →
      Function.update s.rxring s.hwPtr { s.rxring s.hwPtr with addr := addr, ctl := ctl } i =
        s.rxring i := fun i hi => Function.update_of_ne hi _ _
  refine ⟨h.tail_lt, h.queued_le, h.head, ?_, h.slots, ?_, ?_, ?_, h.places, h.noNull⟩
  · -- `WRAP` keeps the hardware inside the ring
    have hw := h.wrap _ h.hw_lt
    have hlt := h.hw_lt
    show (if _ then 0 else s.hwPtr + 1) < 512
    rw [hw]
    split
    · exact Nat.succ_pos 511
    · rename_i hne
      rw [decide_eq_true_iff] at hne
      exact Nat.lt_of_le_of_ne hlt fun e => hne (Nat.succ_injective e)
  · intro i hi hout
    by_cases hir : i = s.hwPtr
    · rw [hir]
      dsimp only
      rw [Function.update_self]
      exact hnew
    · dsimp only
      rw [hring i hir]
      exact h.outside i hi hout
  · intro i hi
    by_cases hir : i = s.hwPtr
    · rw [hir]
      dsimp only
      rw [Function.update_self, ← h.wrap _ h.hw_lt]
      exact has_congr hwrap
    · dsimp only
      rw [hring i hir]
      exact h.wrap i hi
  · intro i hi m hm hclear
    dsimp only at hm hclear ⊢
    by_cases hir : i = s.hwPtr
    · rw [hir, Function.update_self] at hclear
      exact absurd (hclear.symm.trans hnew) Bool.false_ne_true
    · rw [hring i hir] at hclear ⊢
      exact h.own i hi m hm hclear

/-! ## Every run -/

theorem rxStep_inv {e : RxEvent} (hmax : rxbufs ≤ 511) (h : RxInv M rxbufs s [])
    (hs : rxStep M rxbufs s e = some s') : RxInv M rxbufs s' [] := by
  cases e with
  | fill as =>
      obtain ⟨ha, ht⟩ := Option.ite_none_right_eq_some.mp hs
      cases ht
      exact h.fillRqueue hmax ha
  | recv as =>
      obtain ⟨ha, ht⟩ := Option.ite_none_right_eq_some.mp hs
      cases ht
      exact h.recv hmax ha
  | stop =>
      cases hs
      exact h.stopRx
  | receive addr ctl => exact h.hardwareReceive hs

/-- The receive ring between operations. -/
structure RxRingOk (M : RxbufMasks) (rxbufs : ℕ) (s : RxState) : Prop where
  queued_le : s.rxringQueued ≤ rxbufs
  tail_lt : s.rxringTlPtr < 512
  head_eq : s.rxringHdPtr = (s.rxringTlPtr + s.rxringQueued) % 512
  slots : ∀ i < 512, (s.rxringM i).isSome = true ↔
    ∃ j < s.rxringQueued, i = (s.rxringTlPtr + j) % 512
  outside : ∀ i < 512, (¬ ∃ j < s.rxringQueued, i = (s.rxringTlPtr + j) % 512) →
    has (s.rxring i).addr M.new = true
  wrap : ∀ i < 512, has (s.rxring i).addr M.wrap = true ↔ i = 511
  decodes : ∀ j < s.rxringQueued,
    has (s.rxring ((s.rxringTlPtr + j) % 512)).addr M.new = false →
    ∃ m, s.rxringM ((s.rxringTlPtr + j) % 512) = some m ∧
      decodeRx (s.rxring ((s.rxringTlPtr + j) % 512)) = m.mData
  places : (ringNames s ++ s.delivered.map RxMbuf.name ++ s.freed).Perm (List.range s.allocated)
  no_null : s.nullDeref = false

theorem RxInv.rxRingOk (h : RxInv M rxbufs s []) (hmax : rxbufs ≤ 511) :
    RxRingOk M rxbufs s := by
  have hqN : s.rxringQueued ≤ 512 := h.queued_le.trans (hmax.trans (by decide))
  have hwin : ∀ i < 512, InRxWindow s i ↔ ∃ j < s.rxringQueued, i = (s.rxringTlPtr + j) % 512 :=
    fun i hi => CircularWindow.mem_iff h.tail_lt hqN hi
  constructor
  · exact h.queued_le
  · exact h.tail_lt
  · rw [h.head]
    exact CircularWindow.behind_eq_mod h.tail_lt hqN
  · intro i hi
    rw [← hwin i hi]
    exact h.slots i hi
  · intro i hi hout
    rw [← hwin i hi] at hout
    exact h.outside i hi hout
  · intro i hi
    rw [h.wrap i hi]
    exact decide_eq_true_iff
  · intro j hj hclear
    have hi : (s.rxringTlPtr + j) % 512 < 512 := Nat.mod_lt _ (Nat.succ_pos 511)
    have hsome := (h.slots _ hi).mpr ((hwin _ hi).mpr ⟨j, hj, rfl⟩)
    obtain ⟨m, hm⟩ := Option.isSome_iff_exists.mp hsome
    exact ⟨m, hm, h.own _ hi m hm hclear⟩
  · have hp := h.places
    rw [List.map_nil, List.append_nil] at hp
    exact hp
  · exact h.noNull

/-- **The receive ring invariant.** With at most 511 buffers, whatever the
allocator and the hardware do, the window and the two pointers agree, the
hardware owns no descriptor outside the window, and every mbuf is in the ring,
with the stack or freed, and in one of these places only. -/
theorem receive_ring_invariant (hmax : rxbufs ≤ 511) (h : (rxSystem M rxbufs).Reachable s) :
    RxRingOk M rxbufs s := by
  have hinv : RxInv M rxbufs s [] := by
    apply h.invariant
    · rintro s ⟨rxcsum, rfl⟩
      exact setupRx_inv
    · intro s e s' hi (hs : rxStep M rxbufs s e = some s')
      exact rxStep_inv hmax hi hs
  exact hinv.rxRingOk hmax

/-- A good and a broken frame use two of three buffers; one can be replaced. -/
def twoFrameRun : List RxEvent :=
  [.fill [0x1000#64, 0x2000#64, 0x3000#64], .receive 0x1001#32 (3#32 <<< 14 ||| 60#32),
    .receive 0x2001#32 (1#32 <<< 13), .recv [0x4000#64]]

theorem receive_ring_invariant_two_frames :
    ∃ s, (rxSystem sampleRxMasks 3).run (setupRx sampleRxMasks true) twoFrameRun = some s ∧
      s.rxringQueued = 2 ∧ s.freed = [1] ∧ RxRingOk sampleRxMasks 3 s := by
  have hrun : ((rxSystem sampleRxMasks 3).run (setupRx sampleRxMasks true) twoFrameRun).map
      (fun s => (s.rxringQueued, s.freed)) = some (2, [1]) := by
    decide
  obtain ⟨s, hs, hq⟩ := Option.map_eq_some_iff.mp hrun
  rw [Prod.mk.injEq] at hq
  exact ⟨s, hs, hq.1, hq.2,
    receive_ring_invariant (by decide) (System.reachable_of_run _ ⟨true, rfl⟩ hs)⟩

end Phytium.Xmac
