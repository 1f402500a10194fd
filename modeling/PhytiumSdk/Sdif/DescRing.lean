import PhytiumSdk.Lib.Chain
import PhytiumSdk.Lib.Mask
import PhytiumSdk.Lib.System
import PhytiumSdk.Sdif.Command
import Mathlib.Logic.Function.Basic

/-!
# SDIF: the descriptor ring

Without RTEMS the DMA goes through a ring of descriptors. `sdif_dma_setup` links
them once; `sdif_ring_setup` writes the segments of a transfer over what earlier
transfers have left, and relies on the links. The device starts at
`desc_ring_paddr`. Both drivers have the same code.

The bits of `attribute` and the size of a descriptor come from headers that are
not part of the sources.
-/

namespace Phytium.Sdif

open Lib Lib.Mask

/-- The bits of `attribute`. -/
structure DescMasks where
  own : BitVec 32
  fd : BitVec 32
  ld : BitVec 32
  ch : BitVec 32
  dic : BitVec 32
  er : BitVec 32

def DescMasks.bits (K : DescMasks) : List (BitVec 32) := [K.own, K.fd, K.ld, K.ch, K.dic, K.er]

/-- They are different bits. -/
structure DescMasks.Disjoint (K : DescMasks) : Prop where
  nonzero : ∀ m ∈ K.bits, m ≠ 0#32
  apart : K.bits.Pairwise fun a b => a &&& b = 0#32

/-- `FSdifIDmaDesc`. -/
structure IdmaDesc where
  /-- `attribute` -/
  attr : BitVec 32
  len : BitVec 32
  addrLo : BitVec 32
  addrHi : BitVec 32
  descLo : BitVec 32
  descHi : BitVec 32
deriving DecidableEq

/-- `bus_dma_segment_t`. -/
structure DmaSegment where
  addr : BitVec 64
  len : BitVec 64
deriving DecidableEq

/-- What a descriptor describes. -/
def IdmaDesc.segment (d : IdmaDesc) : DmaSegment := ⟨d.addrHi ++ d.addrLo, d.len.setWidth 64⟩

/-- Where it leads. -/
def IdmaDesc.link (d : IdmaDesc) : BitVec 64 := d.descHi ++ d.descLo

/-- The memory of the ring: `desc_ring_paddr`, and `sizeof(FSdifIDmaDesc)`. The
ring does not wrap around the end of the address space. -/
structure RingPlace where
  paddr : BitVec 64
  descSize : ℕ
  descSize_pos : 0 < descSize
  fits : paddr.toNat + idmacDescSegs * descSize ≤ 2 ^ 64

/-- The address of a descriptor. -/
def RingPlace.addr (R : RingPlace) (idx : ℕ) : BitVec 64 :=
  R.paddr + BitVec.ofNat 64 (idx * R.descSize)

/-- `desc_ring`, by index. -/
abbrev Ring := ℕ → IdmaDesc

/-! ## `sdif_dma_setup` -/

/-- The descriptor leads to the address. -/
def linkTo (a : BitVec 64) (d : IdmaDesc) : IdmaDesc :=
  { d with descLo := a.setWidth 32, descHi := (a >>> 32).setWidth 32 }

/-- One round of the loop of `sdif_dma_setup`. -/
def dmaSetupStep (K : DescMasks) (R : RingPlace) (ring : Ring) (idx : ℕ) : Ring :=
  let nidx := (idx + 1) % idmacDescSegs
  Function.update ring idx
    (linkTo (R.addr nidx) { ring idx with attr := K.ch, len := 0#32 })

/-- The part of `sdif_dma_setup` that builds the ring. -/
def dmaSetup (K : DescMasks) (R : RingPlace) (ring : Ring) : Ring :=
  let ring := (List.range idmacDescSegs).foldl (dmaSetupStep K R) ring
  let d := linkTo R.paddr (ring (idmacDescSegs - 1))
  Function.update ring (idmacDescSegs - 1) { d with attr := d.attr ||| K.er }

/-! ## `sdif_ring_setup` -/

/-- `FSDIF_IDMAC_MAX_BUF_SIZE` -/
abbrev idmacMaxBufSize : ℕ := 4096

/-- The `attribute` of the `idx`-th of `nsegs` descriptors. -/
def descAttribute (K : DescMasks) (nsegs idx : ℕ) : BitVec 32 :=
  let attr := K.dic ||| K.ch
  let attr := if idx = 0 then attr ||| K.fd else attr
  let attr :=
    if idx = nsegs - 1 then (attr &&& ~~~(K.dic ||| K.ch)) ||| K.ld else attr
  attr ||| K.own

/-- A descriptor filled in for a segment. -/
def fillDesc (K : DescMasks) (nsegs idx : ℕ) (seg : DmaSegment) (d : IdmaDesc) : IdmaDesc :=
  { d with
    attr := descAttribute K nsegs idx
    len := (seg.len &&& BitVec.ofNat 64 (idmacMaxBufSize - 1)).setWidth 32
    addrLo := seg.addr.setWidth 32
    addrHi := (seg.addr >>> 32).setWidth 32 }

/-- One round of the loop of `sdif_ring_setup`; `none` if it panics over the
address. -/
def ringSetupStep (K : DescMasks) (dmaBufAligment nsegs : ℕ) (ring : Ring)
    (seg : DmaSegment × ℕ) : Option Ring :=
  if seg.1.addr.toNat % dmaBufAligment ≠ 0 then none
  else some (Function.update ring seg.2 (fillDesc K nsegs seg.2 seg.1 (ring seg.2)))

/-- `sdif_ring_setup`; `none` if it panics. -/
def ringSetup (K : DescMasks) (dmaBufAligment : ℕ) (error : ℕ) (segs : List DmaSegment)
    (ring : Ring) : Option Ring :=
  if error ≠ 0 then none
  else segs.zipIdx.foldlM (ringSetupStep K dmaBufAligment segs.length) ring

/-! ## The ring from the setup on -/

inductive RingEvent where
  /-- `bus_dmamap_load` hands the segments of a transfer to `sdif_ring_setup` -/
  | transfer (error : ℕ) (segs : List DmaSegment)
  /-- the device writes to a descriptor; the links are not its to change -/
  | device (idx : ℕ) (attr len addrLo addrHi : BitVec 32)

/-- `buf_tag` allows as many segments as the ring has descriptors. -/
def ringStep (K : DescMasks) (dmaBufAligment : ℕ) (ring : Ring) : RingEvent → Option Ring
  | .transfer error segs =>
      if segs.length ≤ idmacDescSegs then ringSetup K dmaBufAligment error segs ring else none
  | .device idx attr len addrLo addrHi =>
      some (Function.update ring idx
        { ring idx with attr := attr, len := len, addrLo := addrLo, addrHi := addrHi })

/-- The ring from `sdif_dma_setup` on, in a memory that held anything. -/
def ringSystem (K : DescMasks) (R : RingPlace) (dmaBufAligment : ℕ) : System Ring RingEvent where
  init := fun ring => ∃ before, ring = dmaSetup K R before
  step := ringStep K dmaBufAligment

/-- How the device finds its way: a descriptor of the ring by its address, the
last one by `LD`, the next one by its link. -/
def deviceView (K : DescMasks) (R : RingPlace) (ring : Ring) : Linkage (BitVec 64) IdmaDesc where
  fetch := fun a => ((List.range idmacDescSegs).find? fun idx => R.addr idx == a).map ring
  isLast := fun d => has d.attr K.ld
  next := IdmaDesc.link

/-- The descriptors are those of the segments: their addresses and lengths, in
order; all owned by the device; the first one marked, the last one marked, and
the others chained, and silent. -/
structure Describes (K : DescMasks) (ds : List IdmaDesc) (segs : List DmaSegment) : Prop where
  segments : ds.map IdmaDesc.segment = segs
  own : ∀ (i : ℕ) (h : i < ds.length), has ds[i].attr K.own = true
  first : ∀ (i : ℕ) (h : i < ds.length), has ds[i].attr K.fd = decide (i = 0)
  last : ∀ (i : ℕ) (h : i < ds.length), has ds[i].attr K.ld = decide (i + 1 = ds.length)
  chained : ∀ (i : ℕ) (h : i < ds.length), has ds[i].attr K.ch = decide (i + 1 ≠ ds.length)
  silent : ∀ (i : ℕ) (h : i < ds.length), has ds[i].attr K.dic = decide (i + 1 ≠ ds.length)

variable {K : DescMasks} {R : RingPlace} {ring ring' : Ring} {segs : List DmaSegment}
variable {dmaBufAligment nsegs idx : ℕ}

/-! ## The links -/

@[simp] theorem link_linkTo (a : BitVec 64) (d : IdmaDesc) : (linkTo a d).link = a :=
  append_setWidth a

/-- Every descriptor leads to the next one, the last to the first. -/
def Linked (R : RingPlace) (ring : Ring) : Prop :=
  ∀ idx, idx < idmacDescSegs → (ring idx).link = R.addr ((idx + 1) % idmacDescSegs)

theorem addr_zero (R : RingPlace) : R.addr 0 = R.paddr := by
  simp [RingPlace.addr]

theorem toNat_addr (R : RingPlace) (h : idx < idmacDescSegs) :
    (R.addr idx).toNat = R.paddr.toNat + idx * R.descSize := by
  have hin : (idx + 1) * R.descSize ≤ idmacDescSegs * R.descSize := Nat.mul_le_mul_right _ h
  have hfits := R.fits
  have hpos := R.descSize_pos
  rw [Nat.succ_mul] at hin
  have hoff : idx * R.descSize < 2 ^ 64 := by omega
  have hsum : R.paddr.toNat + idx * R.descSize < 2 ^ 64 := by omega
  rw [RingPlace.addr, BitVec.toNat_add, BitVec.toNat_ofNat, Nat.mod_eq_of_lt hoff,
    Nat.mod_eq_of_lt hsum]

/-- Two descriptors lie at two addresses. -/
theorem addr_inj (R : RingPlace) {i j : ℕ} (hi : i < idmacDescSegs) (hj : j < idmacDescSegs)
    (h : R.addr i = R.addr j) : i = j := by
  have hnat := congrArg BitVec.toNat h
  rw [toNat_addr R hi, toNat_addr R hj] at hnat
  exact Nat.eq_of_mul_eq_mul_right R.descSize_pos (Nat.add_left_cancel hnat)

/-- A search by address finds the one entry that lies there. -/
theorem find?_range_addr {n : ℕ} {addr : ℕ → BitVec 64}
    (hinj : ∀ i < n, ∀ j < n, addr i = addr j → i = j) (h : idx < n) :
    ((List.range n).find? fun i => addr i == addr idx) = some idx := by
  have hsome : ((List.range n).find? fun i => addr i == addr idx).isSome := by
    rw [List.find?_isSome]
    exact ⟨idx, List.mem_range.mpr h, beq_self_eq_true (addr idx)⟩
  obtain ⟨j, hj⟩ := Option.isSome_iff_exists.mp hsome
  have hbeq : (addr j == addr idx) = true := List.find?_some (p := fun i => addr i == addr idx) hj
  have hsame : addr j = addr idx := eq_of_beq hbeq
  have hlt : j < n := List.mem_range.mp (List.mem_of_find?_eq_some hj)
  rw [hj, hinj j hlt idx h hsame]

theorem fetch_addr (h : idx < idmacDescSegs) :
    (deviceView K R ring).fetch (R.addr idx) = some (ring idx) := by
  have hfind := find?_range_addr (fun i hi j hj => addr_inj R hi hj) h
  unfold deviceView
  dsimp only
  rw [hfind, Option.map_some]

/-- The loop of `sdif_dma_setup` links what it has come by. -/
theorem dmaSetupStep_linked (n : ℕ) (ring : Ring) :
    ∀ idx, idx < n →
      ((List.range n).foldl (dmaSetupStep K R) ring idx).link =
        R.addr ((idx + 1) % idmacDescSegs) := by
  induction n with
  | zero => simp
  | succ n ih =>
      intro idx hidx
      rw [List.range_succ, List.foldl_concat, dmaSetupStep]
      rcases Nat.lt_succ_iff_lt_or_eq.mp hidx with hlt | rfl
      · rw [Function.update_of_ne (Nat.ne_of_lt hlt)]
        exact ih idx hlt
      · rw [Function.update_self, link_linkTo]

theorem linked_dmaSetup (K : DescMasks) (R : RingPlace) (ring : Ring) :
    Linked R (dmaSetup K R ring) := by
  intro idx hidx
  unfold dmaSetup
  by_cases hlast : idx = idmacDescSegs - 1
  · subst hlast
    rw [Function.update_self]
    exact (append_setWidth R.paddr).trans (addr_zero R).symm
  · rw [Function.update_of_ne hlast]
    exact dmaSetupStep_linked idmacDescSegs ring idx hidx

/-! ## The segments -/

/-- What the loop of `sdif_ring_setup` leaves: a descriptor for each segment, and
the rest as it was. -/
theorem foldlM_ringSetupStep (segs : List DmaSegment)
    (hal : ∀ seg ∈ segs, seg.addr.toNat % dmaBufAligment = 0) :
    ∃ ring', segs.zipIdx.foldlM (ringSetupStep K dmaBufAligment nsegs) ring = some ring' ∧
      ∀ idx, ring' idx = match segs[idx]? with
        | some seg => fillDesc K nsegs idx seg (ring idx)
        | none => ring idx := by
  induction segs using List.reverseRecOn with
  | nil => exact ⟨ring, rfl, fun idx => by simp⟩
  | append_singleton segs seg ih =>
      obtain ⟨mid, hmid, hget⟩ := ih fun s hs => hal s (List.mem_append_left _ hs)
      have hseg : seg.addr.toNat % dmaBufAligment = 0 := hal seg (by simp)
      have hstep : ringSetupStep K dmaBufAligment nsegs mid (seg, segs.length) =
          some (Function.update mid segs.length
            (fillDesc K nsegs segs.length seg (mid segs.length))) :=
        if_neg (not_not_intro hseg)
      refine ⟨Function.update mid segs.length
        (fillDesc K nsegs segs.length seg (mid segs.length)), ?_, ?_⟩
      · rw [List.zipIdx_append, List.foldlM_append, hmid]
        simpa using hstep
      · intro idx
        rcases Nat.lt_trichotomy idx segs.length with hlt | rfl | hgt
        · rw [Function.update_of_ne (Nat.ne_of_lt hlt), List.getElem?_append_left hlt]
          exact hget idx
        · have hold := hget segs.length
          rw [List.getElem?_eq_none le_rfl] at hold
          rw [Function.update_self, List.getElem?_concat_length, hold]
        · rw [Function.update_of_ne (Nat.ne_of_gt hgt), hget idx,
            List.getElem?_eq_none (Nat.le_of_lt hgt), List.getElem?_eq_none]
          rw [List.length_append, List.length_singleton]
          exact hgt

/-- A transfer leaves the links alone, whether it panics or not. -/
theorem ringSetupStep_link {seg : DmaSegment × ℕ}
    (h : ringSetupStep K dmaBufAligment nsegs ring seg = some ring') (idx : ℕ) :
    (ring' idx).link = (ring idx).link := by
  unfold ringSetupStep at h
  split at h
  · cases h
  · cases h
    rcases eq_or_ne idx seg.2 with rfl | hne
    · rw [Function.update_self]
      rfl
    · rw [Function.update_of_ne hne]

theorem ringSetup_linked {error : ℕ} (hl : Linked R ring)
    (h : ringSetup K dmaBufAligment error segs ring = some ring') : Linked R ring' := by
  have hfold : ∀ (l : List (DmaSegment × ℕ)) (ring : Ring), Linked R ring →
      l.foldlM (ringSetupStep K dmaBufAligment segs.length) ring = some ring' →
      Linked R ring' := by
    intro l
    induction l with
    | nil =>
        rintro ring hl ⟨⟩
        exact hl
    | cons seg l ih =>
        intro ring hl hrun
        rw [List.foldlM_cons, Option.bind_eq_bind, Option.bind_eq_some_iff] at hrun
        obtain ⟨mid, hmid, hrest⟩ := hrun
        refine ih mid ?_ hrest
        intro idx hidx
        rw [ringSetupStep_link hmid idx]
        exact hl idx hidx
  unfold ringSetup at h
  split at h
  · cases h
  · exact hfold _ ring hl h

/-- **The links stay** as `sdif_dma_setup` has made them. -/
theorem ring_reachable_linked (h : (ringSystem K R dmaBufAligment).Reachable ring) :
    Linked R ring := by
  apply h.invariant
  · rintro ring ⟨before, rfl⟩
    exact linked_dmaSetup K R before
  · intro ring e ring' hl (hs : ringStep K dmaBufAligment ring e = some ring')
    cases e with
    | transfer error segs =>
        obtain ⟨-, hrun⟩ := Option.ite_none_right_eq_some.mp hs
        exact ringSetup_linked hl hrun
    | device idx attr len addrLo addrHi =>
        cases hs
        intro i hi
        rcases eq_or_ne i idx with rfl | hne
        · rw [Function.update_self]
          exact hl i hi
        · rw [Function.update_of_ne hne]
          exact hl i hi

/-! ## The attributes -/

/-- Another bit of the list is not this one. -/
theorem DescMasks.Disjoint.off (hK : K.Disjoint) :
    K.bits.Pairwise fun a b => has a b = false ∧ has b a = false := by
  refine hK.apart.imp ?_
  intro a b hab
  refine ⟨has_of_disjoint hab, has_of_disjoint ?_⟩
  rw [BitVec.and_comm]
  exact hab

/-- **The attributes of a descriptor.** -/
theorem has_descAttribute (hK : K.Disjoint) (hidx : idx < nsegs) :
    has (descAttribute K nsegs idx) K.own = true ∧
    has (descAttribute K nsegs idx) K.fd = decide (idx = 0) ∧
    has (descAttribute K nsegs idx) K.ld = decide (idx + 1 = nsegs) ∧
    has (descAttribute K nsegs idx) K.ch = decide (idx + 1 ≠ nsegs) ∧
    has (descAttribute K nsegs idx) K.dic = decide (idx + 1 ≠ nsegs) := by
  have hoff := hK.off
  have hon : ∀ m ∈ K.bits, has m m = true := fun m hm => has_self (hK.nonzero m hm)
  simp only [DescMasks.bits, List.pairwise_cons, List.forall_mem_cons, List.not_mem_nil,
    false_implies, implies_true, and_true, List.Pairwise.nil] at hoff hon
  obtain ⟨⟨hof, hol, hoc, hod, -⟩, ⟨hfl, hfc, hfd, -⟩, ⟨hlc, hld, -⟩, ⟨hcd, -⟩, -⟩ := hoff
  obtain ⟨hown, hfirst, hlast, hch, hdic, -⟩ := hon
  have hcleared : ∀ x, has (x &&& ~~~(K.dic ||| K.ch)) K.ch = false ∧
      has (x &&& ~~~(K.dic ||| K.ch)) K.dic = false := fun x =>
    ⟨has_and_not_of_part (and_or_absorb_right _ _), has_and_not_of_part (and_or_absorb_left _ _)⟩
  have hkept : ∀ x m, has K.dic m = false → has K.ch m = false →
      has (x &&& ~~~(K.dic ||| K.ch)) m = has x m := by
    intro x m hd hc
    apply has_and_not_of_disjoint
    rw [has_or, hd, hc]
    rfl
  have hend : idx = nsegs - 1 ↔ idx + 1 = nsegs := by omega
  simp only [descAttribute, hend, ne_eq]
  rcases Nat.eq_zero_or_pos idx with rfl | hpos
  · rcases eq_or_ne 1 nsegs with rfl | hmore
    · simp [hcleared, hkept, hof, hol, hoc, hod, hfl, hfc, hfd, hlc, hld, hown, hfirst, hlast]
    · simp [hmore, hof, hol, hoc, hod, hfl, hfc, hfd, hlc, hld, hown, hfirst, hch, hdic]
  · have hzero : idx ≠ 0 := Nat.ne_of_gt hpos
    rcases eq_or_ne (idx + 1) nsegs with rfl | hmore
    · simp [hzero, hof, hol, hoc, hod, hfl, hlc, hld, hown, hlast]
    · simp [hzero, hmore, hof, hol, hoc, hod, hfc, hfd, hlc, hld, hown, hch, hdic]

/-! ## The round trip -/

/-- A descriptor that was filled in describes the segment. -/
theorem segment_fillDesc {seg : DmaSegment} {d : IdmaDesc} (h : seg.len.toNat ≤ idmacMaxSize) :
    (fillDesc K nsegs idx seg d).segment = seg := by
  have hlen : ((seg.len &&& BitVec.ofNat 64 (idmacMaxBufSize - 1)).setWidth 32).setWidth 64 =
      seg.len := by
    apply BitVec.eq_of_toNat_eq
    have hmask : (BitVec.ofNat 64 (idmacMaxBufSize - 1)).toNat = 2 ^ 12 - 1 := by decide
    rw [BitVec.toNat_setWidth, BitVec.toNat_setWidth, BitVec.toNat_and, hmask,
      Nat.and_two_pow_sub_one_eq_mod]
    have hmax : idmacMaxSize = 2048 := rfl
    omega
  have haddr : ((seg.addr >>> 32).setWidth 32 ++ seg.addr.setWidth 32 : BitVec 64) = seg.addr :=
    append_setWidth seg.addr
  unfold IdmaDesc.segment fillDesc
  rw [haddr, hlen]

theorem describes_of_get (hK : K.Disjoint) {ds : List IdmaDesc} (hlen : ds.length = segs.length)
    (hsize : ∀ seg ∈ segs, seg.len.toNat ≤ idmacMaxSize)
    (hget : ∀ (i : ℕ) (h : i < ds.length), ∃ d, ds[i] = fillDesc K segs.length i (segs[i]) d) :
    Describes K ds segs := by
  have hattr : ∀ (i : ℕ) (h : i < ds.length), ds[i].attr = descAttribute K ds.length i := by
    intro i h
    obtain ⟨d, hd⟩ := hget i h
    rw [hd, hlen]
    rfl
  refine ⟨?_, ?_, ?_, ?_, ?_, ?_⟩
  · apply List.ext_getElem
    · rw [List.length_map, hlen]
    · intro i hi hi'
      rw [List.length_map] at hi
      obtain ⟨d, hd⟩ := hget i hi
      rw [List.getElem_map, hd, segment_fillDesc (hsize _ (List.getElem_mem hi'))]
  · intro i h
    rw [hattr i h, (has_descAttribute hK h).1]
  · intro i h
    rw [hattr i h, (has_descAttribute hK h).2.1]
  · intro i h
    rw [hattr i h, (has_descAttribute hK h).2.2.1]
  · intro i h
    rw [hattr i h, (has_descAttribute hK h).2.2.2.1]
  · intro i h
    rw [hattr i h, (has_descAttribute hK h).2.2.2.2]

/-- **The round trip.** Whatever earlier transfers and the device have left in the
ring, after `sdif_ring_setup` the device finds from `desc_ring_paddr` on just the
segments it was given. -/
theorem ring_round_trip (hK : K.Disjoint) (h : (ringSystem K R dmaBufAligment).Reachable ring)
    (hne : segs ≠ []) (hcount : segs.length ≤ idmacDescSegs)
    (hal : ∀ seg ∈ segs, seg.addr.toNat % dmaBufAligment = 0)
    (hsize : ∀ seg ∈ segs, 1 ≤ seg.len.toNat ∧ seg.len.toNat ≤ idmacMaxSize) :
    ∃ ring' ds, ringSetup K dmaBufAligment 0 segs ring = some ring' ∧
      (∀ fuel, segs.length ≤ fuel → (deviceView K R ring').walk fuel R.paddr = some ds) ∧
      Describes K ds segs := by
  obtain ⟨ring', hsetup, hget⟩ : ∃ ring', ringSetup K dmaBufAligment 0 segs ring = some ring' ∧
      ∀ idx, ring' idx = match segs[idx]? with
        | some seg => fillDesc K segs.length idx seg (ring idx)
        | none => ring idx := foldlM_ringSetupStep segs hal
  have hlinked : Linked R ring' := ringSetup_linked (ring_reachable_linked h) hsetup
  have hfill : ∀ (i : ℕ) (hi : i < segs.length),
      ring' i = fillDesc K segs.length i segs[i] (ring i) := by
    intro i hi
    rw [hget i, List.getElem?_eq_getElem hi]
  have hlen : ((List.range segs.length).map ring').length = segs.length := by
    rw [List.length_map, List.length_range]
  obtain ⟨m, hm⟩ := Nat.exists_eq_succ_of_ne_zero (List.length_pos_iff.mpr hne).ne'
  have hchain : (deviceView K R ring').Chain (R.addr 0) ((List.range' 0 (m + 1)).map ring') := by
    refine Linkage.chain_of_table (n := segs.length) ?_ ?_ ?_ m 0 (by omega)
    · intro i hi
      exact fetch_addr (hi.trans_le hcount)
    · intro i hi
      change has (ring' i).attr K.ld = _
      rw [hfill i hi]
      exact (has_descAttribute hK hi).2.2.1
    · intro i hi
      have hin : i + 1 < idmacDescSegs := hi.trans_le hcount
      have hlink := hlinked i (Nat.lt_of_succ_lt hin)
      rwa [Nat.mod_eq_of_lt hin] at hlink
  refine ⟨ring', (List.range segs.length).map ring', hsetup, ?_, ?_⟩
  · intro fuel hfuel
    rw [← addr_zero R, List.range_eq_range', hm]
    refine hchain.walk_eq ?_
    rw [List.length_map, List.length_range']
    exact hm.symm.le.trans hfuel
  · refine describes_of_get hK hlen (fun seg hseg => (hsize seg hseg).2) ?_
    intro i hi
    rw [List.getElem_map, List.getElem_range]
    exact ⟨_, hfill i (hlen ▸ hi)⟩

/-- The bits as a header could have them. -/
def sampleDescMasks : DescMasks where
  own := 0x80000000#32
  fd := 0x8#32
  ld := 0x4#32
  ch := 0x10#32
  dic := 0x2#32
  er := 0x20#32

theorem sampleDescMasks_disjoint : sampleDescMasks.Disjoint := by
  constructor <;> simp [DescMasks.bits, sampleDescMasks]

/-- A ring at 1 MiB, in a memory that is cleared. -/
def samplePlace : RingPlace where
  paddr := 0x100000#64
  descSize := 32
  descSize_pos := by decide
  fits := by decide

def clearedRing : Ring := fun _ => ⟨0#32, 0#32, 0#32, 0#32, 0#32, 0#32⟩

def twoSegments : List DmaSegment := [⟨0x4000#64, 2048#64⟩, ⟨0x200008000#64, 512#64⟩]

/-- The first transfer, of two segments. -/
theorem ring_round_trip_two :
    ∃ ring' ds, ringSetup sampleDescMasks 512 0 twoSegments
        (dmaSetup sampleDescMasks samplePlace clearedRing) = some ring' ∧
      (deviceView sampleDescMasks samplePlace ring').walk 2 0x100000#64 = some ds ∧
      ds.map IdmaDesc.segment = twoSegments := by
  have hreach : (ringSystem sampleDescMasks samplePlace 512).Reachable
      (dmaSetup sampleDescMasks samplePlace clearedRing) := .init ⟨clearedRing, rfl⟩
  have hcount : twoSegments.length ≤ idmacDescSegs := by decide
  have hal : ∀ seg ∈ twoSegments, seg.addr.toNat % 512 = 0 := by decide
  obtain ⟨ring', ds, hsetup, hwalk, hdesc⟩ := ring_round_trip sampleDescMasks_disjoint hreach
    (List.cons_ne_nil _ _) hcount hal (by decide)
  exact ⟨ring', ds, hsetup, hwalk 2 le_rfl, hdesc.segments⟩

end Phytium.Sdif
