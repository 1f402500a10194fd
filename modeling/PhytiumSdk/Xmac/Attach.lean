import PhytiumSdk.Lib.System
import PhytiumSdk.Lib.Ledger

/-!
# `attach` and `detach` of the Ethernet drivers

Every call that acquires a resource is a line of a ledger, and so is every call
that gives one back. What the calls return is free: any of them may fail, in
any attempt.

`detach` undoes what the softc records in a pointer it looks at. `Holds` splits
what is held along that line, into the part `detach` will find and the rest.
-/

namespace Phytium.Xmac.Attach

open Lib Ledger

/-! ## Resources, softc, and what the calls of `attach` return -/

inductive Driver
  | xmac
  | xmacMsg
  deriving DecidableEq, Repr

inductive Res
  | memRes
  | msgRes
  | irqRes
  | mutex
  | ifnet
  | miibus
  | descDmaTag
  | mbufDmaTag
  | rxring
  | rxringDmaMap
  | txring
  | txringDmaMap
  | tickCh
  | etherIf
  | intrhand
  deriving DecidableEq, Repr

/-- The pointers of the softc that `detach` compares with `NULL`, and the bus
addresses it compares with 0. -/
structure Softc where
  miibus : Bool
  rxring : Bool
  rxringPhysaddr : ℕ
  txring : Bool
  txringPhysaddr : ℕ
  descDmaTag : Bool
  mbufDmaTag : Bool
  deriving DecidableEq, Repr

/-- The softc newbus hands to `attach` is cleared. -/
def Softc.clear : Softc where
  miibus := false
  rxring := false
  rxringPhysaddr := 0
  txring := false
  txringPhysaddr := 0
  descDmaTag := false
  mbufDmaTag := false

/-- What the calls of one `attach` come to: whether a pointer is returned, or an
error number, and the bus address of the segment the map is loaded with. -/
structure Results where
  memRes : Bool
  msgRes : Bool
  irqRes : Bool
  ifnet : Bool
  miiErr : ℕ
  descTagErr : ℕ
  mbufTagErr : ℕ
  dmamemErr : ℕ
  loadErr : ℕ
  dsAddr : ℕ
  intrErr : ℕ
  deriving DecidableEq, Repr

/-- A call of the driver: its softc, and the ledger of what it has done. -/
structure Call where
  sc : Softc
  log : Ledger Res

def Call.acquire (c : Call) (r : Res) : Call := { c with log := c.log ++ [.acquired r] }

def Call.release (c : Call) (r : Res) : Call := { c with log := c.log ++ [.released r] }

/-- `ENOMEM`. -/
def enomem : ℕ := 12

/-- `XMAC_NUM_RX_DESCS * sizeof(struct phytium_xmac_rx_desc)`. -/
def rxRingSize : ℕ := 512 * 16

/-! ## `phytium_xmac_setup_descs` -/

/-- `phytium_xmac_setup_descs`. The callback of `bus_dmamap_load` stores the
address of the one segment. -/
def setupDescs (o : Results) (c : Call) : ℕ × Call :=
  let c := { c with sc := { c.sc with txring := false, rxring := false } }
  if o.descTagErr ≠ 0 then
    (o.descTagErr, c)
  else
    let c := { c.acquire .descDmaTag with sc := { c.sc with descDmaTag := true } }
    if o.mbufTagErr ≠ 0 then
      (o.mbufTagErr, c)
    else
      let c := { c.acquire .mbufDmaTag with sc := { c.sc with mbufDmaTag := true } }
      if o.dmamemErr ≠ 0 then
        (o.dmamemErr, c)
      else
        let c := { c.acquire .rxring with sc := { c.sc with rxring := true } }
        if o.loadErr ≠ 0 then
          (o.loadErr, c)
        else
          (0, { c.acquire .rxringDmaMap with
            sc := { c.sc with
              rxringPhysaddr := o.dsAddr
              txring := true
              txringPhysaddr := o.dsAddr + rxRingSize } })

/-! ## `phytium_xmac_detach` -/

/-- The interface of an attached device is taken down. -/
def detachIf (isAttached : Bool) (c : Call) : Call :=
  if isAttached then (c.release .tickCh).release .etherIf else c

def detachMii (c : Call) : Call :=
  if c.sc.miibus then
    { c.release .miibus with sc := { c.sc with miibus := false } }
  else c

/-- The receive ring, and the transmit ring, which is a part of the same memory. -/
def detachRxring (c : Call) : Call :=
  if c.sc.rxring then
    let c :=
      if c.sc.rxringPhysaddr ≠ 0 then
        { c.release .rxringDmaMap with
          sc := { c.sc with rxringPhysaddr := 0, txringPhysaddr := 0 } }
      else c
    { c.release .rxring with sc := { c.sc with rxring := false, txring := false } }
  else c

def detachTxring (c : Call) : Call :=
  if c.sc.txring then
    let c :=
      if c.sc.txringPhysaddr ≠ 0 then
        { c.release .txringDmaMap with sc := { c.sc with txringPhysaddr := 0 } }
      else c
    { c.release .txring with sc := { c.sc with txring := false } }
  else c

def detachDescTag (c : Call) : Call :=
  if c.sc.descDmaTag then
    { c.release .descDmaTag with sc := { c.sc with descDmaTag := false } }
  else c

def detachMbufTag (c : Call) : Call :=
  if c.sc.mbufDmaTag then
    { c.release .mbufDmaTag with sc := { c.sc with mbufDmaTag := false } }
  else c

/-- `phytium_xmac_detach` and `phytium_xmac_msg_detach`, which return 0. The
last call is `XMAC_LOCK_DESTROY`. -/
def detach (isAttached : Bool) (c : Call) : Call :=
  let c := detachMii (detachIf isAttached c)
  let c := detachTxring (detachRxring c)
  (detachMbufTag (detachDescTag c)).release .mutex

/-! ## `phytium_xmac_attach` -/

/-- `mii_attach`, which leaves no child behind when it fails. -/
def miiAttach (o : Results) (c : Call) : Call :=
  if o.miiErr ≠ 0 then c
  else { c.acquire .miibus with sc := { c.sc with miibus := true } }

/-- `attach` from `phytium_xmac_setup_descs` on: the error number, and the call
as it returns. -/
def attachDescs (o : Results) (c : Call) : ℕ × Call :=
  let descs := setupDescs o c
  if descs.1 ≠ 0 then
    (enomem, detach false descs.2)
  else
    let c := (descs.2.acquire .tickCh).acquire .etherIf
    if o.intrErr ≠ 0 then
      (o.intrErr, detach false (c.release .etherIf))
    else
      (0, c.acquire .intrhand)

/-- `attach` from `if_alloc` on. A failure of `mii_attach` is only warned about. -/
def attachIf (o : Results) (c : Call) : ℕ × Call :=
  if !o.ifnet then
    (enomem, detach false c)
  else
    attachDescs o (miiAttach o (c.acquire .ifnet))

/-- `attach` from the allocation of the interrupt on. -/
def attachIrq (o : Results) (c : Call) : ℕ × Call :=
  if !o.irqRes then
    (enomem, detach false c)
  else
    attachIf o (c.acquire .irqRes)

/-- `phytium_xmac_attach` and `phytium_xmac_msg_attach`. Without the memory
resources they return directly. -/
def attach (d : Driver) (o : Results) : ℕ × Call :=
  let c := Call.acquire { sc := Softc.clear, log := [] } .mutex
  if !o.memRes then
    (enomem, c)
  else
    let c := c.acquire .memRes
    match d with
    | .xmac => attachIrq o c
    | .xmacMsg =>
        if !o.msgRes then
          (enomem, c)
        else
          attachIrq o (c.acquire .msgRes)

/-! ## What is held, along the softc -/

def ownedMii (sc : Softc) : List Res := if sc.miibus then [.miibus] else []

def ownedRings (sc : Softc) : List Res :=
  if sc.rxring then
    (if sc.rxringPhysaddr ≠ 0 then [.rxringDmaMap] else []) ++ [.rxring]
  else if sc.txring then
    (if sc.txringPhysaddr ≠ 0 then [.txringDmaMap] else []) ++ [.txring]
  else []

def ownedTags (sc : Softc) : List Res :=
  (if sc.descDmaTag then [.descDmaTag] else []) ++ (if sc.mbufDmaTag then [.mbufDmaTag] else [])

/-- What `detach` finds in the softc, in the order it releases it. -/
def owned (sc : Softc) : List Res :=
  ownedMii sc ++ ownedRings sc ++ ownedTags sc ++ [.mutex]

/-- What `detach` releases of an attached device beside that. -/
def ifOwned (isAttached : Bool) : List Res :=
  if isAttached then [.tickCh, .etherIf] else []

/-- After the log, `detach` would find its part, and `rest` is held beside it. -/
def Holds (c : Call) (rest : Multiset Res) : Prop :=
  settle 0 c.log = some (rest + (owned c.sc : Multiset Res))

/-! Each part of `detach` releases its own, and leaves the others' for them. -/

theorem detachIf_spec (isAttached : Bool) (c : Call) :
    (detachIf isAttached c).log = c.log ++ (ifOwned isAttached).map .released ∧
      (detachIf isAttached c).sc = c.sc := by
  cases isAttached with
  | false => simp [detachIf, ifOwned]
  | true => simp [detachIf, ifOwned, Call.release]

theorem detachMii_spec (c : Call) :
    (detachMii c).log = c.log ++ (ownedMii c.sc).map .released ∧
      ownedRings (detachMii c).sc = ownedRings c.sc ∧
      ownedTags (detachMii c).sc = ownedTags c.sc := by
  unfold detachMii
  split
  · rename_i h
    refine ⟨?_, rfl, rfl⟩
    simp [Call.release, ownedMii, h]
  · rename_i h
    refine ⟨?_, rfl, rfl⟩
    simp [ownedMii, h]

/-- The transmit ring is left for its own branch only when there is no receive ring. -/
theorem detachRings_spec (c : Call) :
    (detachTxring (detachRxring c)).log = c.log ++ (ownedRings c.sc).map .released ∧
      ownedTags (detachTxring (detachRxring c)).sc = ownedTags c.sc := by
  by_cases hrx : c.sc.rxring
  · by_cases haddr : c.sc.rxringPhysaddr = 0
    · simp [detachRxring, detachTxring, ownedRings, ownedTags, Call.release, hrx, haddr]
    · simp [detachRxring, detachTxring, ownedRings, ownedTags, Call.release, hrx, haddr]
  · by_cases htx : c.sc.txring
    · by_cases haddr : c.sc.txringPhysaddr = 0
      · simp [detachRxring, detachTxring, ownedRings, ownedTags, Call.release, hrx, htx, haddr]
      · simp [detachRxring, detachTxring, ownedRings, ownedTags, Call.release, hrx, htx, haddr]
    · simp [detachRxring, detachTxring, ownedRings, hrx, htx]

theorem detachTags_spec (c : Call) :
    (detachMbufTag (detachDescTag c)).log = c.log ++ (ownedTags c.sc).map .released := by
  by_cases hd : c.sc.descDmaTag
  · by_cases hm : c.sc.mbufDmaTag
    · simp [detachDescTag, detachMbufTag, ownedTags, Call.release, hd, hm]
    · simp [detachDescTag, detachMbufTag, ownedTags, Call.release, hd, hm]
  · by_cases hm : c.sc.mbufDmaTag
    · simp [detachDescTag, detachMbufTag, ownedTags, Call.release, hd, hm]
    · simp [detachDescTag, detachMbufTag, ownedTags, hd, hm]

/-- What `detach` writes to the ledger. -/
theorem detach_log (isAttached : Bool) (c : Call) :
    (detach isAttached c).log =
      c.log ++ (ifOwned isAttached ++ owned c.sc).map .released := by
  obtain ⟨hif, hsc⟩ := detachIf_spec isAttached c
  obtain ⟨hmii, hmiiRings, hmiiTags⟩ := detachMii_spec (detachIf isAttached c)
  obtain ⟨hrings, hringsTags⟩ := detachRings_spec (detachMii (detachIf isAttached c))
  simp only [detach, Call.release]
  rw [detachTags_spec, hrings, hringsTags, hmii, hmiiRings, hmiiTags, hif, hsc]
  simp [owned]

/-- **What `detach` leaves**: the rest. -/
theorem detach_settles {isAttached : Bool} {c : Call} {rest : Multiset Res}
    (h : Holds c (rest + (ifOwned isAttached : Multiset Res))) :
    settle 0 (detach isAttached c).log = some rest := by
  rw [detach_log]
  refine settle_trans h ?_
  have hparts : rest + (ifOwned isAttached : Multiset Res) + (owned c.sc : Multiset Res) =
      rest + ((ifOwned isAttached ++ owned c.sc : List Res) : Multiset Res) := by
    rw [← Multiset.coe_add, add_assoc]
  rw [hparts]
  exact settle_released rest _

variable {c : Call} {rest : Multiset Res} {r : Res}

/-- What no pointer records adds to the rest. -/
theorem Holds.acquire (h : Holds c rest) (r : Res) : Holds (c.acquire r) (r ::ₘ rest) := by
  refine settle_trans h ?_
  rw [settle_cons]
  exact congrArg some (Multiset.cons_add r rest _).symm

/-- What a pointer records from now on does not. -/
theorem Holds.record {sc : Softc} (h : Holds c rest)
    (howned : (owned sc : Multiset Res) = r ::ₘ (owned c.sc : Multiset Res)) :
    Holds { c.acquire r with sc := sc } rest := by
  refine settle_trans h ?_
  rw [settle_cons, howned, Multiset.add_cons]
  rfl

theorem Holds.release (h : Holds c (r ::ₘ rest)) : Holds (c.release r) rest := by
  refine settle_trans h ?_
  rw [settle_cons, Entry.post, Multiset.cons_add, if_pos (Multiset.mem_cons_self r _),
    Option.bind_some, Multiset.erase_cons_head]
  rfl

/-- A call with nothing recorded but a child, for some rest. -/
def Blank (mii : Bool) (c : Call) (rest : Multiset Res) : Prop :=
  c.sc = { Softc.clear with miibus := mii } ∧ Holds c rest

theorem Blank.acquire {mii : Bool} (h : Blank mii c rest) (r : Res) :
    Blank mii (c.acquire r) (r ::ₘ rest) :=
  ⟨h.1, h.2.acquire r⟩

/-! What each pointer adds to what `detach` finds. -/

theorem owned_coe (sc : Softc) :
    (owned sc : Multiset Res) =
      (ownedMii sc : Multiset Res) + (ownedRings sc : Multiset Res) +
        (ownedTags sc : Multiset Res) + {.mutex} := by
  rw [owned, ← Multiset.coe_add, ← Multiset.coe_add, ← Multiset.coe_add]
  rfl

theorem owned_miibus {sc : Softc} (h : sc.miibus = false) :
    (owned { sc with miibus := true } : Multiset Res) =
      .miibus ::ₘ (owned sc : Multiset Res) := by
  have hmii : ownedMii sc = [] := by simp [ownedMii, h]
  rw [owned, owned, hmii]
  rfl

theorem owned_descDmaTag {sc : Softc} (h : sc.descDmaTag = false) :
    (owned { sc with descDmaTag := true } : Multiset Res) =
      .descDmaTag ::ₘ (owned sc : Multiset Res) := by
  have htags : ownedTags { sc with descDmaTag := true } = .descDmaTag :: ownedTags sc := by
    simp [ownedTags, h]
  rw [owned_coe, owned_coe, htags, ← Multiset.cons_coe, Multiset.add_cons, Multiset.cons_add]
  rfl

theorem owned_mbufDmaTag {sc : Softc} (h : sc.mbufDmaTag = false) :
    (owned { sc with mbufDmaTag := true } : Multiset Res) =
      .mbufDmaTag ::ₘ (owned sc : Multiset Res) := by
  have htags : (ownedTags { sc with mbufDmaTag := true } : Multiset Res) =
      .mbufDmaTag ::ₘ (ownedTags sc : Multiset Res) := by
    rw [Multiset.cons_coe, Multiset.coe_eq_coe]
    simp [ownedTags, h]
  rw [owned_coe, owned_coe, htags, Multiset.add_cons, Multiset.cons_add]
  rfl

theorem owned_rxring {sc : Softc} (hrx : sc.rxring = false) (htx : sc.txring = false)
    (haddr : sc.rxringPhysaddr = 0) :
    (owned { sc with rxring := true } : Multiset Res) =
      .rxring ::ₘ (owned sc : Multiset Res) := by
  have hrings : ownedRings { sc with rxring := true } = .rxring :: ownedRings sc := by
    simp [ownedRings, hrx, htx, haddr]
  rw [owned_coe, owned_coe, hrings, ← Multiset.cons_coe, Multiset.add_cons, Multiset.cons_add,
    Multiset.cons_add]
  rfl

/-- The map is found through its bus address. -/
theorem owned_rxringDmaMap {sc : Softc} {a b : ℕ} (hrx : sc.rxring = true)
    (haddr : sc.rxringPhysaddr = 0) (ha : a ≠ 0) :
    (owned { sc with rxringPhysaddr := a, txring := true, txringPhysaddr := b } :
      Multiset Res) = .rxringDmaMap ::ₘ (owned sc : Multiset Res) := by
  have hrings : ownedRings { sc with rxringPhysaddr := a, txring := true, txringPhysaddr := b } =
      .rxringDmaMap :: ownedRings sc := by
    simp [ownedRings, hrx, haddr, ha]
  rw [owned_coe, owned_coe, hrings, ← Multiset.cons_coe, Multiset.add_cons, Multiset.cons_add,
    Multiset.cons_add]
  rfl

/-! ## `attach`, exit by exit -/

theorem miiAttach_blank {o : Results} (h : Blank false c rest) :
    ∃ mii, Blank mii (miiAttach o c) rest := by
  obtain ⟨hsc, hc⟩ := h
  unfold miiAttach
  split
  · exact ⟨false, hsc, hc⟩
  · refine ⟨true, ?_, hc.record (owned_miibus ?_)⟩
    · rw [hsc]
    · rw [hsc]

/-- The descriptors are all recorded, but for a map at bus address 0. -/
theorem setupDescs_holds {mii : Bool} {o : Results} (h : Blank mii c rest) :
    ∃ more : Multiset Res, Holds (setupDescs o c).2 (more + rest) := by
  obtain ⟨hsc, hc⟩ := h
  obtain ⟨sc, log⟩ := c
  cases hsc
  have hdesc := hc.record (owned_descDmaTag rfl)
  have hmbuf := hdesc.record (owned_mbufDmaTag rfl)
  have hring := hmbuf.record (owned_rxring rfl rfl rfl)
  simp only [setupDescs]
  split
  · exact ⟨0, by rw [zero_add]; exact hc⟩
  · split
    · exact ⟨0, by rw [zero_add]; exact hdesc⟩
    · split
      · exact ⟨0, by rw [zero_add]; exact hmbuf⟩
      · split
        · exact ⟨0, by rw [zero_add]; exact hring⟩
        · by_cases haddr : o.dsAddr = 0
          · -- `rxring_physaddr` stays 0, and `detach` does not unload the map
            have hmap := hring.acquire .rxringDmaMap
            exact ⟨{.rxringDmaMap}, by rw [Multiset.singleton_add, haddr]; exact hmap⟩
          · have hmap := hring.record
              (owned_rxringDmaMap (b := o.dsAddr + rxRingSize) rfl rfl haddr)
            exact ⟨0, by rw [zero_add]; exact hmap⟩

theorem detach_failed (h : Holds c rest) : settle 0 (detach false c).log = some rest := by
  refine detach_settles ?_
  simpa [ifOwned] using h

/-- Where the device has its interface, the rest is what neither finds. -/
theorem Holds.attached (h : Holds c (.etherIf ::ₘ .tickCh ::ₘ rest)) :
    Holds c (rest + (ifOwned true : Multiset Res)) := by
  have hif : rest + (ifOwned true : Multiset Res) = .etherIf ::ₘ .tickCh ::ₘ rest := by
    change rest + (Res.tickCh ::ₘ Res.etherIf ::ₘ (0 : Multiset Res)) = _
    rw [Multiset.add_cons, Multiset.add_cons, add_zero, Multiset.cons_swap]
  rw [hif]
  exact h

/-- The call has returned an error and something is held, or it has returned 0
and holds something `detach` will not find. -/
def Leaves (x : ℕ × Call) : Prop :=
  (x.1 ≠ 0 ∧ ∃ rest, rest ≠ 0 ∧ settle 0 x.2.log = some rest) ∨
    (x.1 = 0 ∧ ∃ rest, rest ≠ 0 ∧ Holds x.2 (rest + (ifOwned true : Multiset Res)))

theorem Leaves.failed {err : ℕ} (herr : err ≠ 0) (hne : rest ≠ 0) (h : Holds c rest) :
    Leaves (err, detach false c) :=
  Or.inl ⟨herr, rest, hne, detach_failed h⟩

theorem attachDescs_leaves {mii : Bool} {o : Results} (h : Blank mii c rest) (hne : rest ≠ 0) :
    Leaves (attachDescs o c) := by
  obtain ⟨map, hdescs⟩ := setupDescs_holds (o := o) h
  have hmap : map + rest ≠ 0 := by
    intro hzero
    exact hne (Multiset.le_zero.mp (hzero ▸ Multiset.le_add_left rest map))
  simp only [attachDescs]
  split
  · exact Leaves.failed (show enomem ≠ 0 by decide) hmap hdescs
  have hether := (hdescs.acquire .tickCh).acquire .etherIf
  split
  · rename_i hintr
    exact Leaves.failed hintr Multiset.cons_ne_zero hether.release
  · have hintr := hether.acquire .intrhand
    rw [Multiset.cons_swap Res.intrhand Res.etherIf,
      Multiset.cons_swap Res.intrhand Res.tickCh] at hintr
    exact Or.inr ⟨rfl, _, Multiset.cons_ne_zero, hintr.attached⟩

theorem attachIf_leaves {o : Results} (h : Blank false c rest) (hne : rest ≠ 0) :
    Leaves (attachIf o c) := by
  unfold attachIf
  split
  · exact Leaves.failed (by decide) hne h.2
  · obtain ⟨mii, hmii⟩ := miiAttach_blank (o := o) (h.acquire .ifnet)
    exact attachDescs_leaves hmii Multiset.cons_ne_zero

theorem attachIrq_leaves {o : Results} (h : Blank false c rest) (hne : rest ≠ 0) :
    Leaves (attachIrq o c) := by
  unfold attachIrq
  split
  · exact Leaves.failed (by decide) hne h.2
  · exact attachIf_leaves (h.acquire .irqRes) Multiset.cons_ne_zero

/-- **`attach` leaves something at every exit**: the mutex and the memory
resources where it returns directly, the memory resource at every other. -/
theorem attach_leaves (d : Driver) (o : Results) : Leaves (attach d o) := by
  have hmutex : Blank false (Call.acquire { sc := Softc.clear, log := [] } .mutex) 0 :=
    ⟨rfl, rfl⟩
  have hmem := hmutex.acquire .memRes
  simp only [attach]
  split
  · exact Or.inl ⟨by decide, {.mutex}, Multiset.singleton_ne_zero _, rfl⟩
  cases d with
  | xmac => exact attachIrq_leaves hmem Multiset.cons_ne_zero
  | xmacMsg =>
      dsimp only
      split
      · refine Or.inl ⟨by decide, _, ?_, hmem.2⟩
        rw [Multiset.cons_add]
        exact Multiset.cons_ne_zero
      · exact attachIrq_leaves (hmem.acquire .msgRes) Multiset.cons_ne_zero

/-! ## Attempts and detaches, one after the other -/

/-- The device: whether it is attached, its softc, the ledger since `attach` was
last called and the whole one, and whether the last call was an `attach` that
returned an error or a `detach` that returned 0. -/
structure DevState where
  attached : Bool
  sc : Softc
  cycle : Ledger Res
  ledger : Ledger Res
  returned : Bool

inductive DevEvent
  | attach (o : Results)
  | detach

/-- newbus calls `attach` of a device that is not attached, `detach` of one that is. -/
def devStep (d : Driver) (s : DevState) : DevEvent → Option DevState
  | .attach o =>
      if s.attached then none
      else
        let x := attach d o
        some { attached := decide (x.1 = 0)
               sc := x.2.sc
               cycle := x.2.log
               ledger := s.ledger ++ x.2.log
               returned := decide (x.1 ≠ 0) }
  | .detach =>
      if s.attached then
        let c := detach true { sc := s.sc, log := [] }
        some { attached := false
               sc := c.sc
               cycle := s.cycle ++ c.log
               ledger := s.ledger ++ c.log
               returned := true }
      else none

def DevState.boot : DevState where
  attached := false
  sc := Softc.clear
  cycle := []
  ledger := []
  returned := false

def devSystem (d : Driver) : System DevState DevEvent where
  init := fun s => s = DevState.boot
  step := devStep d

/-- What is left of earlier attempts, and what the last one holds: of an
attached device, something its `detach` will not find. -/
structure DevInv (s : DevState) : Prop where
  attached_holds : s.attached = true → ∃ rest, rest ≠ 0 ∧
    Holds { sc := s.sc, log := s.cycle } (rest + (ifOwned true : Multiset Res))
  returned_left : s.returned = true → ∃ rest, rest ≠ 0 ∧ settle 0 s.cycle = some rest
  split : ∃ past debts held, s.ledger = past ++ s.cycle ∧ settle 0 past = some debts ∧
    settle 0 s.cycle = some held

theorem DevInv.attach {d : Driver} {s s' : DevState} {o : Results} (h : DevInv s)
    (hs : devStep d s (.attach o) = some s') : DevInv s' := by
  obtain ⟨past, debts, held, hledger, hpast, hcycle⟩ := h.split
  have hdebts : settle 0 s.ledger = some (held + debts) := by
    rw [hledger]
    exact settle_add hpast hcycle
  simp only [devStep] at hs
  split at hs
  · cases hs
  cases hs
  rcases attach_leaves d o with ⟨herr, rest, hne, hleft⟩ | ⟨hzero, rest, hne, hholds⟩
  · refine ⟨?_, fun _ => ⟨rest, hne, hleft⟩, s.ledger, _, _, rfl, hdebts, hleft⟩
    intro hatt
    exact absurd (of_decide_eq_true hatt) herr
  · refine ⟨fun _ => ⟨rest, hne, hholds⟩, ?_, s.ledger, _, _, rfl, hdebts, hholds⟩
    intro hret
    exact absurd hzero (of_decide_eq_true hret)

theorem DevInv.detach {d : Driver} {s s' : DevState} (h : DevInv s)
    (hs : devStep d s .detach = some s') : DevInv s' := by
  obtain ⟨past, debts, held, hledger, hpast, hcycle⟩ := h.split
  simp only [devStep] at hs
  split at hs
  · rename_i hatt
    cases hs
    obtain ⟨rest, hne, hholds⟩ := h.attached_holds hatt
    -- the entries of `detach` do not depend on what stands before them
    have hlog : (Attach.detach true { sc := s.sc, log := s.cycle }).log =
        s.cycle ++ (Attach.detach true { sc := s.sc, log := [] }).log := by
      rw [detach_log, detach_log, List.nil_append]
    have hleft := detach_settles hholds
    rw [hlog] at hleft
    refine ⟨fun hon => absurd hon Bool.false_ne_true, fun _ => ⟨rest, hne, hleft⟩,
      past, debts, rest, ?_, hpast, hleft⟩
    rw [hledger, List.append_assoc]
  · cases hs

theorem devInv {d : Driver} {s : DevState} (h : (devSystem d).Reachable s) : DevInv s := by
  refine h.invariant ?_ ?_
  · rintro s rfl
    refine ⟨fun hon => absurd hon Bool.false_ne_true, fun hon => absurd hon Bool.false_ne_true,
      [], 0, 0, rfl, rfl, rfl⟩
  · intro s e s' hinv hs
    cases e with
    | attach o => exact hinv.attach (d := d) hs
    | detach => exact hinv.detach (d := d) hs

/-- Neither driver ever releases what it does not hold. -/
theorem ledger_settles {d : Driver} {s : DevState} (h : (devSystem d).Reachable s) :
    ∃ held, settle 0 s.ledger = some held := by
  obtain ⟨past, debts, held, hledger, hpast, hcycle⟩ := (devInv h).split
  refine ⟨held + debts, ?_⟩
  rw [hledger]
  exact settle_add hpast hcycle

/-- **No `attach` that fails and no `detach` gives back what was acquired**, since
that `attach` was called, or since the device was found. -/
theorem never_balanced {d : Driver} {s : DevState} (h : (devSystem d).Reachable s)
    (hret : s.returned = true) : ¬ Balanced s.cycle ∧ ¬ Balanced s.ledger := by
  obtain ⟨past, debts, held, hledger, hpast, hcycle⟩ := (devInv h).split
  obtain ⟨rest, hne, hrest⟩ := (devInv h).returned_left hret
  refine ⟨not_balanced hrest hne, ?_⟩
  rw [hledger]
  refine not_balanced (settle_add hpast hrest) ?_
  intro hzero
  exact hne (Multiset.le_zero.mp (hzero ▸ Multiset.le_add_right rest debts))

/-- Every call succeeds. -/
def goodResults : Results where
  memRes := true
  msgRes := true
  irqRes := true
  ifnet := true
  miiErr := 0
  descTagErr := 0
  mbufTagErr := 0
  dmamemErr := 0
  loadErr := 0
  dsAddr := 0x80000000
  intrErr := 0

/-- An attempt without an interrupt, one that succeeds, and a `detach`. -/
def retryRun : List DevEvent :=
  [.attach { goodResults with irqRes := false }, .attach goodResults, .detach]

theorem never_balanced_retry :
    ∃ s, (devSystem .xmacMsg).run DevState.boot retryRun = some s ∧
      ¬ Balanced s.cycle ∧ ¬ Balanced s.ledger := by
  have hret : ((devSystem .xmacMsg).run DevState.boot retryRun).map (·.returned) =
      some true := by decide
  obtain ⟨s, hrun, hret⟩ := Option.map_eq_some_iff.mp hret
  exact ⟨s, hrun, never_balanced (System.reachable_of_run _ rfl hrun) hret⟩

/-- Attached and detached once, with every call successful, the first driver
still holds its memory and interrupt resources, the handler and the ifnet. -/
theorem detach_not_balanced :
    ¬ ∀ (d : Driver) (s : DevState), (devSystem d).Reachable s → s.returned = true →
      Balanced s.cycle := by
  intro h
  have hrun : ((devSystem .xmac).run DevState.boot [.attach goodResults, .detach]).map
      (fun s => (s.returned, decide (Balanced s.cycle))) = some (true, false) := by decide
  obtain ⟨s, hrun, hs⟩ := Option.map_eq_some_iff.mp hrun
  obtain ⟨hret, hleft⟩ := Prod.mk.inj hs
  exact of_decide_eq_false hleft (h .xmac s (System.reachable_of_run _ rfl hrun) hret)

end Phytium.Xmac.Attach
