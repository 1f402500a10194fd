import PhytiumSdk.Lib.Mask
import Mathlib.Tactic.Common
import Mathlib.Tactic.SplitIfs

/-!
# XMAC v1 control registers

The functions of `phytium_xmac.c` that program the network configuration
register and its neighbours: `reset`, `config`, `rx_filter`, the `SIOCSIFCAP`
branch of `ioctl`, and `mediachange` in its two locked halves with the
reference clock in between. Every one edits `net_cfg_shadow` and writes it out.

The bit masks come from headers that are not part of the sources.
-/

namespace Phytium.Xmac

open Lib.Mask

/-- The bits and fields of `NWCFG`. -/
structure NwcfgMasks where
  mcasthashen : BitVec 32
  bcastdi : BitVec 32
  copyallen : BitVec 32
  speed100 : BitVec 32
  speed1000 : BitVec 32
  fden : BitVec 32
  fcsRemove : BitVec 32
  rxBufOffset : BitVec 32
  en1536 : BitVec 32
  sgmiiModeEnable : BitVec 32
  pcssel : BitVec 32
  rxchksumen : BitVec 32
  /-- the field of the management clock divisor, and the value for 32 -/
  clockDiv224 : BitVec 32
  clockDiv32 : BitVec 32
  /-- the field of the bus width, and its values -/
  busWidthInvalid : BitVec 32
  busWidth32 : BitVec 32
  busWidth64 : BitVec 32
  busWidth128 : BitVec 32

namespace NwcfgMasks

variable (K : NwcfgMasks)

/-- The bits `rx_filter` decides. -/
def filter : BitVec 32 := K.mcasthashen ||| K.bcastdi ||| K.copyallen

/-- The bits `mediachange` decides. -/
def speed : BitVec 32 := K.speed100 ||| K.speed1000 ||| K.fden

/-- What `config` sets in every case, but for the speed. -/
def fixed : BitVec 32 := K.fcsRemove ||| K.rxBufOffset ||| K.en1536

/-- The fields `config` keeps. -/
def keep : BitVec 32 := K.clockDiv224 ||| K.busWidthInvalid

/-- All other bits the driver ever sets. -/
def rest : BitVec 32 :=
  K.fixed ||| K.sgmiiModeEnable ||| K.pcssel ||| K.rxchksumen ||| K.keep ||| K.clockDiv32 |||
    K.busWidth32 ||| K.busWidth64 ||| K.busWidth128

/-- The masks are those of different bits. -/
structure Distinct : Prop where
  mcast_ne : K.mcasthashen ≠ 0#32
  bcast_ne : K.bcastdi ≠ 0#32
  copy_ne : K.copyallen ≠ 0#32
  mcast_bcast : K.mcasthashen &&& K.bcastdi = 0#32
  mcast_copy : K.mcasthashen &&& K.copyallen = 0#32
  bcast_copy : K.bcastdi &&& K.copyallen = 0#32
  filter_speed : K.filter &&& K.speed = 0#32
  filter_rest : K.filter &&& K.rest = 0#32
  speed_rest : K.speed &&& K.rest = 0#32

end NwcfgMasks

/-- The bits of `NWCTRL` and `DMACR`, and what `config` puts into `DMACR`
apart from the checksum bit. -/
structure CtrlMasks where
  txen : BitVec 32
  rxen : BitVec 32
  mden : BitVec 32
  tcpcksum : BitVec 32
  dmacrBase : BitVec 32

/-- The words of `if_media.h` that `mediachange` tells apart. -/
structure MediaMasks where
  tmask : BitVec 32
  m1000T : BitVec 32
  m100Tx : BitVec 32
  fdx : BitVec 32

/-- What does not change while the driver is attached. `sc->version` is `2`
or `1`, and `busWidth` is the field of `DESIGNCFG_DEBUG1`. -/
structure XmacConfig where
  nwcfg : NwcfgMasks
  ctrl : CtrlMasks
  media : MediaMasks
  distinct : nwcfg.Distinct
  version2 : Bool
  sgmii : Bool
  busWidth : ℕ

/-- A configuration as the headers could have it. -/
def sampleConfig : XmacConfig where
  nwcfg :=
    { mcasthashen := 0x40#32
      bcastdi := 0x20#32
      copyallen := 0x10#32
      speed100 := 0x1#32
      speed1000 := 0x400#32
      fden := 0x2#32
      fcsRemove := 0x20000#32
      rxBufOffset := 0x8000#32
      en1536 := 0x100#32
      sgmiiModeEnable := 0x8000000#32
      pcssel := 0x800#32
      rxchksumen := 0x1000000#32
      clockDiv224 := 0x1C0000#32
      clockDiv32 := 0x80000#32
      busWidthInvalid := 0x600000#32
      busWidth32 := 0x0#32
      busWidth64 := 0x200000#32
      busWidth128 := 0x400000#32 }
  ctrl := { txen := 0x8#32, rxen := 0x4#32, mden := 0x10#32, tcpcksum := 0x800#32,
            dmacrBase := 0x1010710#32 }
  media := { tmask := 0x1F#32, m1000T := 16#32, m100Tx := 6#32, fdx := 0x100000#32 }
  distinct := by
    constructor <;> decide
  version2 := false
  sgmii := true
  busWidth := 4

/-- The interface flags the driver looks at. -/
structure IfFlags where
  up : Bool
  promisc : Bool
  allmulti : Bool
  broadcast : Bool
deriving DecidableEq, Repr

/-- `if_getcapenable` and `if_gethwassist`, as far as the driver changes
them. -/
structure IfCaps where
  rxcsum : Bool
  txcsum : Bool
  vlanHwcsum : Bool
  hwassist : Bool
deriving DecidableEq, Repr

/-- A link-layer address. -/
abbrev EtherAddr := Fin 6 → BitVec 8

/-- The control part of `struct phytium_xmac_softc`, the registers it
programs, the interface and what the MII layer reports. -/
structure CtlState where
  -- registers
  nwctrl : BitVec 32
  nwcfg : BitVec 32
  hashh : BitVec 32
  hashl : BitVec 32
  dmacr : BitVec 32
  /-- the rate field of `GEM_HSMAC` -/
  hsmac : ℕ
  /-- the speed the lane clock registers are set for -/
  laneClk : Option ℕ
  -- softc
  netCtlShadow : BitVec 32
  netCfgShadow : BitVec 32
  miiMediaActive : BitVec 32
  ifOldFlags : IfFlags
  -- interface
  flags : IfFlags
  running : Bool
  caps : IfCaps
  multi : List EtherAddr
  -- MII layer
  /-- `mii->mii_media_active` -/
  media : BitVec 32
  /-- `mii->mii_media_status` has both `IFM_ACTIVE` and `IFM_AVALID` -/
  linkValid : Bool

variable (P : XmacConfig)

/-! ## `phytium_xmac_reset` and `phytium_xmac_config` -/

/-- The bus width read from `DESIGNCFG_DEBUG1`. -/
def busWidthMask : BitVec 32 :=
  match P.busWidth with
  | 4 => P.nwcfg.busWidth128
  | 2 => P.nwcfg.busWidth64
  | _ => P.nwcfg.busWidth32

/-- `phytium_xmac_reset`. -/
def reset (s : CtlState) : CtlState :=
  { s with
    netCfgShadow := busWidthMask P ||| P.nwcfg.clockDiv32
    nwcfg := busWidthMask P ||| P.nwcfg.clockDiv32
    hashl := 0#32
    hashh := 0#32
    netCtlShadow := P.ctrl.mden
    nwctrl := P.ctrl.mden }

/-- The value `phytium_xmac_config` gives `net_cfg_shadow`. -/
def configCfg (s : CtlState) : BitVec 32 :=
  let cfg := s.netCfgShadow &&& P.nwcfg.keep
  let cfg := cfg ||| (P.nwcfg.fixed ||| P.nwcfg.speed)
  let cfg := if P.sgmii then cfg ||| P.nwcfg.sgmiiModeEnable ||| P.nwcfg.pcssel else cfg
  if s.caps.rxcsum then cfg ||| P.nwcfg.rxchksumen else cfg

/-- `phytium_xmac_config`. -/
def config (s : CtlState) : CtlState :=
  { s with
    netCfgShadow := configCfg P s
    nwcfg := configCfg P s
    dmacr := if s.caps.txcsum then P.ctrl.dmacrBase ||| P.ctrl.tcpcksum else P.ctrl.dmacrBase
    netCtlShadow := s.netCtlShadow ||| (P.ctrl.txen ||| P.ctrl.rxen)
    nwctrl := s.netCtlShadow ||| (P.ctrl.txen ||| P.ctrl.rxen) }

/-! ## `phytium_xmac_rx_filter` -/

/-- Bit `j` of the address, `eaddr[j >> 3] & (1 << (j & 7))`. -/
def addrBit (eaddr : EtherAddr) (j : ℕ) : Bool :=
  (eaddr (Fin.ofNat 6 (j >>> 3))).getLsbD (j &&& 7)

/-- `phytium_xmac_mac_hash`. -/
def macHash (eaddr : EtherAddr) : ℕ :=
  (List.range 6).foldl
    (fun hash i =>
      (List.range' i 8 6).foldl
        (fun hash j => if addrBit eaddr j then hash ^^^ (1 <<< i) else hash) hash)
    0

/-- `phytium_xmac_hash_maddr`: `hashes[0]` is the upper half. -/
def hashMaddr (hashes : BitVec 32 × BitVec 32) (eaddr : EtherAddr) : BitVec 32 × BitVec 32 :=
  let index := macHash eaddr
  if 31 < index then (hashes.1 ||| 1#32 <<< (index - 32), hashes.2)
  else (hashes.1, hashes.2 ||| 1#32 <<< index)

/-- The hashes `rx_filter` computes. -/
def filterHashes (flags : IfFlags) (multi : List EtherAddr) : BitVec 32 × BitVec 32 :=
  if flags.promisc then (0#32, 0#32)
  else if flags.allmulti then (0xffffffff#32, 0xffffffff#32)
  else multi.foldl hashMaddr (0#32, 0#32)

/-- The bits of `NWCFG` that `rx_filter` sets. -/
def filterBits (flags : IfFlags) (multi : List EtherAddr) : BitVec 32 :=
  if flags.promisc then P.nwcfg.copyallen
  else
    (if flags.broadcast then 0#32 else P.nwcfg.bcastdi) |||
      (if filterHashes flags multi ≠ (0#32, 0#32) then P.nwcfg.mcasthashen else 0#32)

/-- `phytium_xmac_rx_filter`. -/
def rxFilter (s : CtlState) : CtlState :=
  let cfg := (s.netCfgShadow &&& ~~~P.nwcfg.filter) ||| filterBits P s.flags s.multi
  { s with
    netCfgShadow := cfg
    hashh := (filterHashes s.flags s.multi).1
    hashl := (filterHashes s.flags s.multi).2
    nwcfg := cfg }

/-! ## `SIOCSIFCAP` -/

/-- The `SIOCSIFCAP` branch of `phytium_xmac_ioctl`, with the two checksum bits
of `ifr_reqcap`. -/
def setCap (reqTx reqRx : Bool) (s : CtlState) : CtlState :=
  let s :=
    if s.caps.txcsum = reqTx then s
    else if reqTx then
      { s with
        caps := { s.caps with txcsum := true, hwassist := true }
        dmacr := s.dmacr ||| P.ctrl.tcpcksum }
    else
      { s with
        caps := { s.caps with txcsum := false, hwassist := false }
        dmacr := s.dmacr &&& ~~~P.ctrl.tcpcksum }
  let s :=
    if s.caps.rxcsum = reqRx then s
    else if reqRx then
      { s with
        caps := { s.caps with rxcsum := true }
        netCfgShadow := s.netCfgShadow ||| P.nwcfg.rxchksumen
        nwcfg := s.netCfgShadow ||| P.nwcfg.rxchksumen }
    else
      { s with
        caps := { s.caps with rxcsum := false }
        netCfgShadow := s.netCfgShadow &&& ~~~P.nwcfg.rxchksumen
        nwcfg := s.netCfgShadow &&& ~~~P.nwcfg.rxchksumen }
  { s with caps := { s.caps with vlanHwcsum := s.caps.rxcsum && s.caps.txcsum } }

/-! ## `phytium_xmac_mediachange` -/

/-- The test of `phytium_xmac_miibus_statchg` and `phytium_xmac_miibus_linkchg`. -/
def mediaChanged (s : CtlState) : Bool := s.linkValid && decide (s.miiMediaActive ≠ s.media)

/-- The speed and duplex bits `mediachange` computes for a media word. -/
def mediaBits (media : BitVec 32) : BitVec 32 :=
  (if media &&& P.media.tmask = P.media.m1000T then P.nwcfg.speed100 ||| P.nwcfg.speed1000
    else if media &&& P.media.tmask = P.media.m100Tx then P.nwcfg.speed100
    else 0#32) |||
  (if has media P.media.fdx then P.nwcfg.fden else 0#32)

/-- The `interface_speed` that goes with a media word. -/
def interfaceSpeed (media : BitVec 32) : ℕ :=
  if media &&& P.media.tmask = P.media.m1000T then 1000
  else if media &&& P.media.tmask = P.media.m100Tx then 100
  else 1000

/-- `phytium_xmac_mediachange` up to the point where it drops the lock. -/
def mediachangeProgram (s : CtlState) : CtlState :=
  let cfg := (s.netCfgShadow &&& ~~~P.nwcfg.speed) ||| mediaBits P s.media
  { s with netCfgShadow := cfg, nwcfg := cfg }

/-- `phytium_xmac_set_high_speed_config`: the rate for a speed. -/
def highSpeedConfig (speed : ℕ) : ℕ :=
  match speed with
  | 25000 => 2
  | 10000 => 4
  | 5000 => 3
  | 2500 => 2
  | 1000 => 1
  | _ => 0

/-- `phytium_xmac_1p0_set_ref_clk`. The lane clock registers have one setting
for 1000 Mb/s and one for less. -/
def setRefClk1p0 (speed : ℕ) (s : CtlState) : CtlState :=
  { s with
    laneClk :=
      if P.sgmii then
        if speed = 1000 then some 1000
        else if speed = 100 ∨ speed = 10 then some 100 else s.laneClk
      else s.laneClk
    hsmac := highSpeedConfig speed }

/-- `phytium_xmac_2p0_set_ref_clk`. -/
def setRefClk2p0 (speed : ℕ) (s : CtlState) : CtlState :=
  { s with hsmac := if P.sgmii ∧ speed = 1000 then 1 else 0 }

/-- The reference clock, set without the lock. -/
def setRefClk (speed : ℕ) (s : CtlState) : CtlState :=
  if P.version2 then setRefClk2p0 P speed s else setRefClk1p0 P speed s

/-- `phytium_xmac_mediachange` once it has the lock again. -/
def mediachangeCache (s : CtlState) : CtlState := { s with miiMediaActive := s.media }

/-! ## Up and down -/

/-- `phytium_xmac_init_locked` up to `mii_mediachg`. -/
def initCtl (s : CtlState) : CtlState :=
  if s.running then s else { config P s with running := true }

/-- The control part of `phytium_xmac_stop`. -/
def stopCtl (s : CtlState) : CtlState := { reset P s with miiMediaActive := 0#32 }

/-- The state `phytium_xmac_attach` leaves: the hardware is reset, the
interface is down and knows no group, and `IFF_BROADCAST` is set for good. -/
def attachCtl : CtlState :=
  reset P
    { nwctrl := 0#32
      nwcfg := 0#32
      hashh := 0#32
      hashl := 0#32
      dmacr := 0#32
      hsmac := 0
      laneClk := none
      netCtlShadow := 0#32
      netCfgShadow := 0#32
      miiMediaActive := 0#32
      ifOldFlags := ⟨false, false, false, true⟩
      flags := ⟨false, false, false, true⟩
      running := false
      caps := ⟨false, false, false, false⟩
      multi := []
      media := 0#32
      linkValid := false }

/-! ## What the functions leave alone

For a mask `m` that shares no bit with what a function sets, the part of
`NWCFG` under `m` stays as it is. -/

section Masks

variable {P} {m : BitVec 32} {s : CtlState}

theorem NwcfgMasks.Distinct.rest_filter {K : NwcfgMasks} (h : K.Distinct) :
    K.rest &&& K.filter = 0#32 := by
  rw [BitVec.and_comm, h.filter_rest]

theorem NwcfgMasks.Distinct.speed_filter {K : NwcfgMasks} (h : K.Distinct) :
    K.speed &&& K.filter = 0#32 := by
  rw [BitVec.and_comm, h.filter_speed]

theorem NwcfgMasks.Distinct.rest_speed {K : NwcfgMasks} (h : K.Distinct) :
    K.rest &&& K.speed = 0#32 := by
  rw [BitVec.and_comm, h.speed_rest]

/-- The parts of `rest`. -/
theorem rest_parts (hm : P.nwcfg.rest &&& m = 0#32) :
    P.nwcfg.keep &&& m = 0#32 ∧ P.nwcfg.fixed &&& m = 0#32 ∧
    P.nwcfg.sgmiiModeEnable &&& m = 0#32 ∧ P.nwcfg.pcssel &&& m = 0#32 ∧
    P.nwcfg.rxchksumen &&& m = 0#32 ∧ busWidthMask P &&& m = 0#32 ∧
    P.nwcfg.clockDiv32 &&& m = 0#32 := by
  simp only [NwcfgMasks.rest, or_and_eq_zero] at hm
  obtain ⟨⟨⟨⟨⟨⟨⟨⟨hfixed, hsgmii⟩, hpcs⟩, hrx⟩, hkeep⟩, hclk⟩, h32⟩, h64⟩, h128⟩ := hm
  refine ⟨hkeep, hfixed, hsgmii, hpcs, hrx, ?_, hclk⟩
  unfold busWidthMask
  split
  · exact h128
  · exact h64
  · exact h32

/-- `config` sets the speed bits, and all else it sets is in `rest`. -/
theorem configCfg_and (hm : P.nwcfg.rest &&& m = 0#32) (s : CtlState) :
    configCfg P s &&& m = P.nwcfg.speed &&& m := by
  obtain ⟨hkeep, hfixed, hsgmii, hpcs, hrx, -, -⟩ := rest_parts hm
  have hbase : (s.netCfgShadow &&& P.nwcfg.keep ||| (P.nwcfg.fixed ||| P.nwcfg.speed)) &&& m =
      P.nwcfg.speed &&& m := by
    have hk : s.netCfgShadow &&& P.nwcfg.keep &&& m = 0#32 := by
      rw [BitVec.and_assoc, hkeep]
      exact BitVec.and_zero
    rw [BitVec.and_or_distrib_right, hk, BitVec.zero_or, BitVec.and_or_distrib_right, hfixed,
      BitVec.zero_or]
  have hlink : (s.netCfgShadow &&& P.nwcfg.keep ||| (P.nwcfg.fixed ||| P.nwcfg.speed) |||
      P.nwcfg.sgmiiModeEnable ||| P.nwcfg.pcssel) &&& m = P.nwcfg.speed &&& m := by
    rw [or_and_of_disjoint hpcs, or_and_of_disjoint hsgmii]
    exact hbase
  unfold configCfg
  dsimp only
  split <;> split
  · rw [or_and_of_disjoint hrx]
    exact hlink
  · rw [or_and_of_disjoint hrx]
    exact hbase
  · exact hlink
  · exact hbase

/-- Both kinds of bits in `mediaBits` are speed bits. -/
theorem mediaBits_and (hm : P.nwcfg.speed &&& m = 0#32) (media : BitVec 32) :
    mediaBits P media &&& m = 0#32 := by
  rw [NwcfgMasks.speed, or_and_eq_zero, or_and_eq_zero] at hm
  obtain ⟨⟨h100, h1000⟩, hfd⟩ := hm
  rw [mediaBits, or_and_eq_zero]
  constructor
  · split
    · rw [or_and_eq_zero]
      exact ⟨h100, h1000⟩
    · split
      · exact h100
      · exact BitVec.zero_and
  · split
    · exact hfd
    · exact BitVec.zero_and

/-- All of `filterBits` lies within the filter bits. -/
theorem filterBits_and (flags : IfFlags) (multi : List EtherAddr) :
    filterBits P flags multi &&& P.nwcfg.filter = filterBits P flags multi := by
  have hmc : P.nwcfg.mcasthashen &&& P.nwcfg.filter = P.nwcfg.mcasthashen :=
    and_eq_of_part (and_or_absorb_left _ _)
  have hbc : P.nwcfg.bcastdi &&& P.nwcfg.filter = P.nwcfg.bcastdi :=
    and_eq_of_part (and_or_absorb_right _ _)
  have hcp : P.nwcfg.copyallen &&& P.nwcfg.filter = P.nwcfg.copyallen :=
    and_or_absorb_right _ _
  unfold filterBits
  split
  · exact hcp
  · rw [BitVec.and_or_distrib_right]
    congr 1
    · split
      · exact BitVec.zero_and
      · exact hbc
    · split
      · exact hmc
      · exact BitVec.zero_and

theorem rxFilter_and (hm : P.nwcfg.filter &&& m = 0#32) (s : CtlState) :
    (rxFilter P s).nwcfg &&& m = s.netCfgShadow &&& m := by
  have hbits : filterBits P s.flags s.multi &&& m = 0#32 := by
    rw [← filterBits_and, BitVec.and_assoc, hm]
    exact BitVec.and_zero
  show ((s.netCfgShadow &&& ~~~P.nwcfg.filter) ||| filterBits P s.flags s.multi) &&& m = _
  rw [or_and_of_disjoint hbits, and_not_and_of_disjoint hm]

theorem mediachangeProgram_and (hm : P.nwcfg.speed &&& m = 0#32) (s : CtlState) :
    (mediachangeProgram P s).nwcfg &&& m = s.netCfgShadow &&& m := by
  show ((s.netCfgShadow &&& ~~~P.nwcfg.speed) ||| mediaBits P s.media) &&& m = _
  rw [or_and_of_disjoint (mediaBits_and hm _), and_not_and_of_disjoint hm]

theorem setCap_and (hm : P.nwcfg.rest &&& m = 0#32) (reqTx reqRx : Bool)
    (h : s.nwcfg = s.netCfgShadow) :
    (setCap P reqTx reqRx s).nwcfg = (setCap P reqTx reqRx s).netCfgShadow ∧
    (setCap P reqTx reqRx s).nwcfg &&& m = s.nwcfg &&& m := by
  obtain ⟨-, -, -, -, hrx, -, -⟩ := rest_parts hm
  have hset : (s.netCfgShadow ||| P.nwcfg.rxchksumen) &&& m = s.nwcfg &&& m := by
    rw [or_and_of_disjoint hrx, h]
  have hclear : (s.netCfgShadow &&& ~~~P.nwcfg.rxchksumen) &&& m = s.nwcfg &&& m := by
    rw [and_not_and_of_disjoint hrx, h]
  unfold setCap
  dsimp only
  split_ifs <;> first | exact ⟨h, rfl⟩ | exact ⟨rfl, hset⟩ | exact ⟨rfl, hclear⟩

/-- What `SIOCSIFCAP` has nothing to do with. -/
structure CapSame (s s' : CtlState) : Prop where
  hashh : s'.hashh = s.hashh
  hashl : s'.hashl = s.hashl
  flags : s'.flags = s.flags
  old : s'.ifOldFlags = s.ifOldFlags
  multi : s'.multi = s.multi
  running : s'.running = s.running
  active : s'.miiMediaActive = s.miiMediaActive
  media : s'.media = s.media

theorem setCap_same (reqTx reqRx : Bool) (s : CtlState) : CapSame s (setCap P reqTx reqRx s) := by
  unfold setCap
  dsimp only
  split_ifs <;> exact ⟨rfl, rfl, rfl, rfl, rfl, rfl, rfl, rfl⟩

end Masks

end Phytium.Xmac
