import PhytiumSdk.Xmac.MsgFilter

/-!
# XMAC v2 control messages

`phytium_xmac_v2.c` does not write the configuration registers of the
controller. It sends messages to its firmware, through the `FXmacMsg` library,
and writes a few registers on the side. Here are the functions that do so, with
all they send and in the order they send it: `reset`, `config`, `rx_filter`, the
branches of `ioctl`, `mediachange`, `stop` and `detach`.

The firmware is not part of the sources. `Controller` stands for it, and `Heeds`
says what the messages that carry a setting do to that setting, by their names.
Nothing is assumed of a reset and of `INIT_ALL`.
-/

namespace Phytium.Xmac

/-! ## Messages -/

/-- `dma_data_width`. -/
inductive DataWidth where
  | dbw32
  | dbw64
  | dbw128
  | other
deriving DecidableEq

/-- `hw_dma_cap`, bit by bit. -/
structure HwDmaCap where
  cap64b : Bool
  csum : Bool
  ddw32 : Bool
  ddw64 : Bool
  ddw128 : Bool
deriving DecidableEq

/-- `FXmacMsgDmaInfo`. -/
structure MsgDmaInfo where
  dmaBurstLength : ℕ
  hwDmaCap : HwDmaCap
deriving DecidableEq

/-- `FXmacMsgRingInfo`, with the one queue the driver uses. -/
structure MsgRingInfo where
  queueNum : ℕ
  hwDmaCap : HwDmaCap
  addr : BitVec 64
deriving DecidableEq

/-- The registers the driver writes itself. -/
inductive MsgReg where
  | rxPtr
  | txPtr
  | intSr
  | intEr
  | intDr
  | mdio
deriving DecidableEq

/-- What the driver sends: a message of `FXmacMsgSendMessage` under the name of
its `cmd_subid`, another call of the library, or a register write. -/
inductive XmacMsg where
  | write (reg : MsgReg) (value : BitVec 32)
  | resetHw
  | setDma (dma : MsgDmaInfo)
  | enableMulticast (on : Bool)
  | setMdc
  | enableMdio (on : Bool)
  | setRxDataOffset
  | setEnableStripcrc
  | interfaceLinkup (speed : ℕ) (duplex : Bool)
  | setEnable1536Frames
  | setInitAll
  | setEnableRxcsum
  | setInitTxRing (ring : MsgRingInfo)
  | setDmaRxBufsize (queueNum bufferSize : ℕ)
  | setInitRxRing (ring : MsgRingInfo)
  | setInitTxEnableTransmit
  | setInitRxEnableReceive
  | setMacAddress (eaddr : EtherAddr)
  | enableTxcsum (on : Bool)
  | enableRxcsum (on : Bool)
  | enablePromise (on : Bool)
  | setMcHash (hashes : BitVec 32 × BitVec 32)
  | interfaceConfig
  | setQueuePtr (addr : BitVec 64) (receive : Bool)
deriving DecidableEq

/-! ## The controller -/

/-- The settings the interface has a say in. -/
structure MsgSettings where
  rxcsum : Bool
  txcsum : Bool
  filter : MsgFilter
deriving DecidableEq

/-- What a message other than a reset and `INIT_ALL` does to the settings. -/
def heed (h : MsgSettings) : XmacMsg → MsgSettings
  | .setDma dma => { h with txcsum := dma.hwDmaCap.csum }
  | .setEnableRxcsum => { h with rxcsum := true }
  | .enableTxcsum on => { h with txcsum := on }
  | .enableRxcsum on => { h with rxcsum := on }
  | .enablePromise on => { h with filter := enablePromise on h.filter }
  | .setMcHash hashes => { h with filter := setMcHash hashes h.filter }
  | _ => h

/-- The controller with its firmware: what a message does to its state, and the
settings it has. -/
structure Controller (κ : Type*) where
  recv : κ → XmacMsg → κ
  view : κ → MsgSettings

/-- The message is no reset and no `INIT_ALL`. -/
def XmacMsg.plain : XmacMsg → Bool
  | .resetHw => false
  | .setInitAll => false
  | _ => true

/-- The firmware does what the message is called, and leaves the other settings
alone. -/
def Controller.Heeds {κ : Type*} (K : Controller κ) : Prop :=
  ∀ k m, m.plain = true → K.view (K.recv k m) = heed (K.view k) m

/-- A reset turns the receive checksum off, and `INIT_ALL` does not turn it
on. -/
structure Controller.ClearsRxcsum {κ : Type*} (K : Controller κ) : Prop where
  resetHw : ∀ k, (K.view (K.recv k .resetHw)).rxcsum = false
  setInitAll : ∀ k, (K.view k).rxcsum = false → (K.view (K.recv k .setInitAll)).rxcsum = false

/-- The filter that lets no group in. -/
def emptyFilter : MsgFilter := ⟨false, (0#32, 0#32)⟩

/-- A reset leaves no filter, and `INIT_ALL` makes none. -/
structure Controller.ClearsFilter {κ : Type*} (K : Controller κ) : Prop where
  resetHw : ∀ k, (K.view (K.recv k .resetHw)).filter = emptyFilter
  setInitAll : ∀ k, (K.view k).filter = emptyFilter →
    (K.view (K.recv k .setInitAll)).filter = emptyFilter

/-- The controller behind some messages. -/
def Controller.sends {κ : Type*} (K : Controller κ) (k : κ) (ms : List XmacMsg) : κ :=
  ms.foldl K.recv k

section Controller

variable {κ : Type*} {K : Controller κ}

theorem sends_append (k : κ) (ms ms' : List XmacMsg) :
    K.sends k (ms ++ ms') = K.sends (K.sends k ms) ms' := List.foldl_append

/-- **Plain messages**: the settings behind them are computed from the settings
before them. -/
theorem view_sends (hK : K.Heeds) {ms : List XmacMsg} (h : ms.all XmacMsg.plain = true) (k : κ) :
    K.view (K.sends k ms) = ms.foldl heed (K.view k) := by
  induction ms generalizing k with
  | nil => rfl
  | cons m ms ih =>
      rw [List.all_cons, Bool.and_eq_true] at h
      show K.view (K.sends (K.recv k m) ms) = ms.foldl heed (heed (K.view k) m)
      rw [ih h.2, hK k m h.1]

end Controller

/-! ## The driver -/

/-- What does not change while the driver is attached. -/
structure MsgPort where
  dmaBurstLength : ℕ
  /-- `dma_addr_width` is not zero -/
  dmaAddrWidth : Bool
  dmaDataWidth : DataWidth
  /-- `network_default_config` has `FXMAC_MSG_TX_CHKSUM_ENABLE_OPTION` -/
  txChksumOption : Bool
  queuesNum : ℕ
  rxBufferLen : ℕ
  /-- `phy_contype` is `MII_CONTYPE_SGMII` -/
  sgmii : Bool
  rxringPhysaddr : BitVec 64
  txringPhysaddr : BitVec 64
  eaddr : EtherAddr
  /-- the interrupts `config` enables -/
  intMask : BitVec 32

/-- `if_getcapenable` and `if_gethwassist`, as far as the driver changes
them. -/
structure MsgCaps where
  rxcsum : Bool
  rxcsumIpv6 : Bool
  txcsum : Bool
  txcsumIpv6 : Bool
  vlanHwcsum : Bool
  hwassist : Bool
deriving DecidableEq

/-- The capabilities are consistent among themselves. -/
structure MsgCaps.Sound (c : MsgCaps) : Prop where
  rxcsumIpv6 : c.rxcsumIpv6 = c.rxcsum
  txcsumIpv6 : c.txcsumIpv6 = c.txcsum
  vlanHwcsum : c.vlanHwcsum = (c.rxcsum && c.txcsum)
  hwassist : c.hwassist = c.txcsum

/-- The control part of `struct phytium_xmac_msg_softc`, the controller and the
interface. -/
structure MsgState (κ : Type*) where
  hw : κ
  miiMediaActive : BitVec 32
  ifOldFlags : IfFlags
  flags : IfFlags
  running : Bool
  caps : MsgCaps
  multi : List EtherAddr
  /-- `phytium_xmac_msg_detach` has run -/
  detached : Bool

section Driver

variable {κ : Type*} (N : MsgPort) (K : Controller κ)

/-- The driver sends some messages. -/
def MsgState.sends (s : MsgState κ) (ms : List XmacMsg) : MsgState κ :=
  { s with hw := K.sends s.hw ms }

/-- The DMA message, as `reset` and `config` fill it. -/
def msgDmaInfo (csum : Bool) : MsgDmaInfo where
  dmaBurstLength := N.dmaBurstLength
  hwDmaCap :=
    { cap64b := N.dmaAddrWidth
      csum := csum
      ddw32 := decide (N.dmaDataWidth = .dbw32)
      ddw64 := decide (N.dmaDataWidth = .dbw64)
      ddw128 := decide (N.dmaDataWidth = .dbw128) }

/-- The messages of `phytium_xmac_msg_reset`. -/
def msgReset : List XmacMsg :=
  [ .write .rxPtr 0x7f#32,
    .resetHw,
    .setDma (msgDmaInfo N N.txChksumOption),
    .write .intDr 0x7FFFEFF#32,
    .enableMulticast false,
    .setMdc,
    .enableMdio true ]

/-- The messages of `phytium_xmac_msg_config`, up to the one for the receive
checksum. -/
def msgConfigLink : List XmacMsg :=
  [ .setRxDataOffset,
    .setEnableStripcrc,
    .interfaceLinkup 1000 true,
    .setEnable1536Frames ] ++
  if N.sgmii then [.setInitAll] else []

/-- `FXmacMsgRingInfo` of a ring. -/
def msgRingInfo (addr : BitVec 64) : MsgRingInfo where
  queueNum := 1
  hwDmaCap := ⟨true, false, false, false, false⟩
  addr := addr

/-- The other messages of `phytium_xmac_msg_config`. -/
def msgConfigRings (caps : MsgCaps) : List XmacMsg :=
  (if caps.rxcsum then [.setEnableRxcsum] else []) ++
  [ .setDma (msgDmaInfo N caps.txcsum),
    .setInitTxRing (msgRingInfo N.txringPhysaddr),
    .setDmaRxBufsize N.queuesNum (N.rxBufferLen / 64),
    .setInitRxRing (msgRingInfo N.rxringPhysaddr),
    .setInitTxEnableTransmit,
    .setInitRxEnableReceive,
    .setMacAddress N.eaddr,
    .write .intEr N.intMask ]

/-- `phytium_xmac_msg_config`. -/
def msgConfig (s : MsgState κ) : MsgState κ :=
  s.sends K (msgConfigLink N ++ msgConfigRings N s.caps)

/-- The messages of `phytium_xmac_msg_rx_filter`. -/
def msgFilterMessages (flags : IfFlags) (multi : List EtherAddr) : List XmacMsg :=
  (if flags.promisc then [.enablePromise true] else []) ++ [.setMcHash (filterHashes flags multi)]

/-- `phytium_xmac_msg_mediachange`, where `statchg` and `linkchg` call it. -/
def msgStatchg (media : BitVec 32) (linkValid : Bool) (s : MsgState κ) : MsgState κ :=
  if linkValid && decide (s.miiMediaActive ≠ media) then
    { s.sends K [.interfaceLinkup 1000 true] with miiMediaActive := media }
  else s

/-- `phytium_xmac_msg_init_locked`. `media` and `linkValid` are what the MII
layer finds. -/
def msgInitLocked (media : BitVec 32) (linkValid : Bool) (s : MsgState κ) : MsgState κ :=
  if s.running then s
  else msgStatchg K media linkValid { msgConfig N K s with running := true }

/-- The control part of `phytium_xmac_msg_stop`. -/
def msgStop (s : MsgState κ) : MsgState κ :=
  { s.sends K (msgReset N) with miiMediaActive := 0#32 }

/-- One of `IFF_PROMISC` and `IFF_ALLMULTI` is not what it was. -/
def msgFlagsChanged (s : MsgState κ) : Bool :=
  s.flags.promisc != s.ifOldFlags.promisc || s.flags.allmulti != s.ifOldFlags.allmulti

/-- The `SIOCSIFFLAGS` branch of `phytium_xmac_msg_ioctl`. -/
def msgIoctlFlags (media : BitVec 32) (linkValid : Bool) (s : MsgState κ) : MsgState κ :=
  let s :=
    if s.flags.up then
      if s.running then
        if msgFlagsChanged s then s.sends K (msgFilterMessages s.flags s.multi) else s
      else msgInitLocked N K media linkValid s
    else if s.running then msgStop N K { s with running := false }
    else s
  { s with ifOldFlags := s.flags }

/-- The `SIOCADDMULTI` and `SIOCDELMULTI` branch. -/
def msgIoctlMulti (s : MsgState κ) : MsgState κ :=
  if s.running then s.sends K (msgFilterMessages s.flags s.multi) else s

/-- The `SIOCSIFCAP` branch, with the two checksum bits of `ifr_reqcap`. -/
def msgIoctlCap (reqTx reqRx : Bool) (s : MsgState κ) : MsgState κ :=
  let s :=
    if s.caps.txcsum = reqTx then s
    else
      { s.sends K [.enableTxcsum reqTx] with
        caps := { s.caps with txcsum := reqTx, txcsumIpv6 := reqTx, hwassist := reqTx } }
  let s :=
    if s.caps.rxcsum = reqRx then s
    else
      { s.sends K [.enableRxcsum reqRx] with
        caps := { s.caps with rxcsum := reqRx, rxcsumIpv6 := reqRx } }
  { s with caps := { s.caps with vlanHwcsum := s.caps.rxcsum && s.caps.txcsum } }

/-- `phytium_xmac_msg_detach` of an attached device: it stops the hardware, and
the interface stays marked as running. -/
def msgDetach (s : MsgState κ) : MsgState κ :=
  let s := msgStop N K s
  { s with flags := { s.flags with up := false }, detached := true }

inductive MsgEvent where
  | ifflags (up promisc allmulti : Bool) (media : BitVec 32) (linkValid : Bool)
  | addMulti (a : EtherAddr)
  | delMulti (a : EtherAddr)
  | setCap (reqTx reqRx : Bool)
  /-- the stack sets `IFF_UP` and calls `phytium_xmac_msg_init` -/
  | init (media : BitVec 32) (linkValid : Bool)
  /-- a status change between two calls -/
  | statchg (media : BitVec 32) (linkValid : Bool)
  /-- a register write of the interrupt handler, of `start` or of the MII bus -/
  | write (reg : MsgReg) (value : BitVec 32)
  | detach
deriving DecidableEq

def msgStep (s : MsgState κ) : MsgEvent → MsgState κ
  | .ifflags up promisc allmulti media linkValid =>
      let flags := { s.flags with up := up, promisc := promisc, allmulti := allmulti }
      msgIoctlFlags N K media linkValid { s with flags := flags }
  | .addMulti a => msgIoctlMulti K { s with multi := a :: s.multi }
  | .delMulti a => msgIoctlMulti K { s with multi := s.multi.erase a }
  | .setCap reqTx reqRx => msgIoctlCap K reqTx reqRx s
  | .init media linkValid =>
      msgInitLocked N K media linkValid { s with flags := { s.flags with up := true } }
  | .statchg media linkValid => msgStatchg K media linkValid s
  | .write reg value => s.sends K [.write reg value]
  | .detach => msgDetach N K s

/-- The state `phytium_xmac_msg_attach` leaves, from a controller as the library
has initialised it. -/
def msgAttach (k : κ) : MsgState κ where
  hw := K.sends k (msgReset N ++
    [.interfaceConfig, .setQueuePtr N.rxringPhysaddr true, .setQueuePtr N.txringPhysaddr false])
  miiMediaActive := 0#32
  ifOldFlags := ⟨false, false, false, true⟩
  flags := ⟨false, false, false, true⟩
  running := false
  caps := ⟨false, false, false, false, false, false⟩
  multi := []
  detached := false

/-- The driver and the stack, from `phytium_xmac_msg_attach` on. -/
def msgSystem : Lib.System (MsgState κ) MsgEvent where
  init := fun s => ∃ k, s = msgAttach N K k
  step := fun s e => some (msgStep N K s e)

end Driver

/-! ## What the functions do to the settings -/

section Settings

variable {κ : Type*} {N : MsgPort} {K : Controller κ} {s t : MsgState κ} {e : MsgEvent}

/-- `t` has the settings of `s`, and the same is asked of it. -/
structure SettingsFrame (K : Controller κ) (s t : MsgState κ) : Prop where
  view : K.view t.hw = K.view s.hw
  old : t.ifOldFlags = s.ifOldFlags
  flags : t.flags = s.flags
  running : t.running = s.running
  caps : t.caps = s.caps
  multi : t.multi = s.multi
  detached : t.detached = s.detached

theorem msgStatchg_frame (hK : K.Heeds) (media : BitVec 32) (linkValid : Bool) (s : MsgState κ) :
    SettingsFrame K s (msgStatchg K media linkValid s) := by
  unfold msgStatchg
  split
  · exact ⟨hK s.hw (.interfaceLinkup 1000 true) rfl, rfl, rfl, rfl, rfl, rfl, rfl⟩
  · exact ⟨rfl, rfl, rfl, rfl, rfl, rfl, rfl⟩

theorem write_frame (hK : K.Heeds) (reg : MsgReg) (value : BitVec 32) (s : MsgState κ) :
    SettingsFrame K s (s.sends K [.write reg value]) :=
  ⟨hK s.hw (.write reg value) rfl, rfl, rfl, rfl, rfl, rfl, rfl⟩

theorem msgConfigRings_plain (caps : MsgCaps) :
    (msgConfigRings N caps).all XmacMsg.plain = true := by
  unfold msgConfigRings
  split <;> rfl

/-- The rest of `config` gives the controller the transmit checksum of the
capabilities, and turns the receive checksum on for `IFCAP_RXCSUM`. It never
turns it off. -/
theorem msgConfigRings_heed (caps : MsgCaps) (h : MsgSettings) :
    (msgConfigRings N caps).foldl heed h =
      { h with rxcsum := h.rxcsum || caps.rxcsum, txcsum := caps.txcsum } := by
  unfold msgConfigRings
  cases caps.rxcsum with
  | true =>
      rw [if_pos rfl, Bool.or_true]
      rfl
  | false =>
      rw [if_neg Bool.false_ne_true, Bool.or_false]
      rfl

/-- What the state is like once `init_locked` has brought the interface up. -/
structure MsgUp (N : MsgPort) (K : Controller κ) (s t : MsgState κ) : Prop where
  view : K.view t.hw =
    { K.view (K.sends s.hw (msgConfigLink N)) with
      rxcsum := (K.view (K.sends s.hw (msgConfigLink N))).rxcsum || s.caps.rxcsum
      txcsum := s.caps.txcsum }
  running : t.running = true
  caps : t.caps = s.caps
  multi : t.multi = s.multi
  detached : t.detached = s.detached

theorem msgInitLocked_up (hK : K.Heeds) (media : BitVec 32) (linkValid : Bool)
    (hdown : s.running = false) : MsgUp N K s (msgInitLocked N K media linkValid s) := by
  have hinit : msgInitLocked N K media linkValid s =
      msgStatchg K media linkValid { msgConfig N K s with running := true } := by
    rw [msgInitLocked, hdown]
    rfl
  rw [hinit]
  have hf := msgStatchg_frame hK media linkValid { msgConfig N K s with running := true }
  refine ⟨hf.view.trans ?_, hf.running, hf.caps, hf.multi, hf.detached⟩
  show K.view (K.sends s.hw (msgConfigLink N ++ msgConfigRings N s.caps)) = _
  rw [sends_append, view_sends hK (msgConfigRings_plain s.caps), msgConfigRings_heed]

/-- What `INIT_ALL` keeps is there when `config` comes to the checksums. -/
theorem msgConfigLink_keeps (hK : K.Heeds) {Q : MsgSettings → Prop}
    (hinit : ∀ k, Q (K.view k) → Q (K.view (K.recv k .setInitAll))) {k : κ} (h : Q (K.view k)) :
    Q (K.view (K.sends k (msgConfigLink N))) := by
  unfold msgConfigLink
  rw [sends_append]
  have hlink : K.view (K.sends k [.setRxDataOffset, .setEnableStripcrc, .interfaceLinkup 1000 true,
      .setEnable1536Frames]) = K.view k := view_sends hK rfl k
  split
  · exact hinit _ (hlink ▸ h)
  · exact hlink ▸ h

/-- The messages of `rx_filter` change the filter as in `msgRxFilter`. -/
theorem msgFilterMessages_heed (flags : IfFlags) (multi : List EtherAddr) (h : MsgSettings) :
    (msgFilterMessages flags multi).foldl heed h =
      { h with filter := msgRxFilter h.filter ⟨flags, multi⟩ } := by
  unfold msgFilterMessages msgRxFilter
  dsimp only
  split <;> rfl

theorem view_msgFilterMessages (hK : K.Heeds) (flags : IfFlags) (multi : List EtherAddr) (k : κ) :
    K.view (K.sends k (msgFilterMessages flags multi)) =
      { K.view k with filter := msgRxFilter (K.view k).filter ⟨flags, multi⟩ } := by
  have hplain : (msgFilterMessages flags multi).all XmacMsg.plain = true := by
    unfold msgFilterMessages
    split <;> rfl
  rw [view_sends hK hplain, msgFilterMessages_heed]

/-- The settings behind `phytium_xmac_msg_reset`, up to what the reset itself
leaves. -/
theorem view_msgReset (hK : K.Heeds) (k : κ) :
    K.view (K.sends k (msgReset N)) =
      { K.view (K.recv (K.recv k (.write .rxPtr 0x7f#32)) .resetHw) with
        txcsum := N.txChksumOption } := by
  show K.view (K.sends (K.recv (K.recv k (.write .rxPtr 0x7f#32)) .resetHw)
    ((msgReset N).drop 2)) = _
  rw [view_sends hK rfl]
  rfl

/-! ## The steps -/

/-- The interface flags an event asks for. -/
def MsgEvent.flags (e : MsgEvent) (flags : IfFlags) : IfFlags :=
  match e with
  | .ifflags up promisc allmulti _ _ =>
      { flags with up := up, promisc := promisc, allmulti := allmulti }
  | .init _ _ => { flags with up := true }
  | .detach => { flags with up := false }
  | _ => flags

/-- The event makes `init_locked` bring the interface up. -/
def bringsUp (s : MsgState κ) : MsgEvent → Bool
  | .ifflags up _ _ _ _ => up && !s.running
  | .init _ _ => !s.running
  | _ => false

theorem bringsUp_up (h : bringsUp s e = true) (flags : IfFlags) : (e.flags flags).up = true := by
  cases e with
  | ifflags up promisc allmulti media linkValid => exact (Bool.and_eq_true_iff.mp h).1
  | init media linkValid => rfl
  | _ => exact Bool.noConfusion h

theorem bringsUp_running (h : bringsUp s e = true) : s.running = false := by
  cases e with
  | ifflags up promisc allmulti media linkValid =>
      exact (Bool.not_eq_true' _).mp (Bool.and_eq_true_iff.mp h).2
  | init media linkValid => exact (Bool.not_eq_true' _).mp h
  | _ => exact Bool.noConfusion h

/-- `if_old_flags` is up to date in the two flags it is compared in. -/
structure OldKept (s : MsgState κ) : Prop where
  promisc : s.ifOldFlags.promisc = s.flags.promisc
  allmulti : s.ifOldFlags.allmulti = s.flags.allmulti

/-- What is neither asked nor set stays. -/
structure MsgSame (s t : MsgState κ) : Prop where
  running : t.running = s.running
  caps : t.caps = s.caps
  detached : t.detached = s.detached

/-- What one event does to the settings and to the capabilities. -/
inductive MsgMove (N : MsgPort) (K : Controller κ) (s : MsgState κ) (e : MsgEvent)
    (t : MsgState κ) : Prop where
  | up (hup : bringsUp s e = true) (h : MsgUp N K s t)
  | down (hdown : (e.flags s.flags).up = false) (ht : t.running = false)
      (hview : K.view t.hw = K.view (K.sends s.hw (msgReset N))) (hcaps : t.caps = s.caps)
      (hdet : t.detached = s.detached)
  | detach (he : e = .detach) (hdet : t.detached = true) (hcaps : t.caps = s.caps)
  | rxFilter (hrun : s.running = true) (hup : (e.flags s.flags).up = true ∨ t.flags = s.flags)
      (hview : K.view t.hw =
        { K.view s.hw with filter := msgRxFilter (K.view s.hw).filter ⟨t.flags, t.multi⟩ })
      (h : MsgSame s t)
  | setCap (reqTx reqRx : Bool) (he : e = .setCap reqTx reqRx) (ht : t = msgIoctlCap K reqTx reqRx s)
  | same (hstay : bringsUp s e = false) (hview : K.view t.hw = K.view s.hw)
      (h : MsgSame s t)
      (hwanted : s.running = true →
        FilterCall.wanted ⟨t.flags, t.multi⟩ = FilterCall.wanted ⟨s.flags, s.multi⟩)

theorem SettingsFrame.move (h : SettingsFrame K s t) (hstay : bringsUp s e = false) :
    MsgMove N K s e t := by
  refine .same hstay h.view ⟨h.running, h.caps, h.detached⟩ ?_
  intro _
  rw [h.flags, h.multi]

/-- What `rx_filter` asks for depends on two of the flags. -/
theorem wanted_congr {flags flags' : IfFlags} (multi : List EtherAddr)
    (hp : flags'.promisc = flags.promisc) (ha : flags'.allmulti = flags.allmulti) :
    FilterCall.wanted ⟨flags', multi⟩ = FilterCall.wanted ⟨flags, multi⟩ := by
  unfold FilterCall.wanted filterHashes
  dsimp only
  rw [hp, ha]

theorem msgInitLocked_move (hK : K.Heeds) (media : BitVec 32) (linkValid : Bool) :
    MsgMove N K s (.init media linkValid) (msgStep N K s (.init media linkValid)) := by
  by_cases hr : s.running = true
  · have hstay : msgStep N K s (.init media linkValid) =
        { s with flags := { s.flags with up := true } } := if_pos hr
    have hbring : bringsUp s (.init media linkValid) = false := by
      simp [bringsUp, hr]
    rw [hstay]
    exact .same hbring rfl ⟨rfl, rfl, rfl⟩ fun _ => wanted_congr s.multi rfl rfl
  · rw [Bool.not_eq_true] at hr
    have hbring : bringsUp s (.init media linkValid) = true := by
      simp [bringsUp, hr]
    have h := msgInitLocked_up (N := N) hK media linkValid
      (s := { s with flags := { s.flags with up := true } }) hr
    exact .up hbring ⟨h.view, h.running, h.caps, h.multi, h.detached⟩

theorem msgIoctlMulti_move (hK : K.Heeds) (hstay : bringsUp s e = false) (multi : List EtherAddr) :
    MsgMove N K s e (msgIoctlMulti K { s with multi := multi }) := by
  unfold msgIoctlMulti
  split
  · rename_i hr
    exact .rxFilter hr (Or.inr rfl) (view_msgFilterMessages hK s.flags multi s.hw) ⟨rfl, rfl, rfl⟩
  · rename_i hr
    exact .same hstay rfl ⟨rfl, rfl, rfl⟩ fun hn => absurd hn hr

/-- **`SIOCSIFFLAGS`** brings the interface up, takes it down, calls `rx_filter`
or finds that nothing is to be done. -/
theorem msgIoctlFlags_move (hK : K.Heeds) (hold : OldKept s) (up promisc allmulti : Bool)
    (media : BitVec 32) (linkValid : Bool) :
    MsgMove N K s (.ifflags up promisc allmulti media linkValid)
      (msgStep N K s (.ifflags up promisc allmulti media linkValid)) := by
  unfold msgStep msgIoctlFlags
  dsimp only
  by_cases hr : s.running = true
  · cases up with
    | true =>
        rw [if_pos rfl, if_pos hr]
        split
        · exact .rxFilter hr (Or.inl rfl) (view_msgFilterMessages hK _ s.multi s.hw)
            ⟨rfl, rfl, rfl⟩
        · rename_i hch
          -- neither flag changed, so the same filter is asked for
          have hch' : promisc = s.flags.promisc ∧ allmulti = s.flags.allmulti := by
            simpa [msgFlagsChanged, hold.promisc, hold.allmulti] using hch
          have hstay : bringsUp s (.ifflags true promisc allmulti media linkValid) = false := by
            simp [bringsUp, hr]
          exact .same hstay rfl ⟨rfl, rfl, rfl⟩ fun _ => wanted_congr s.multi hch'.1 hch'.2
    | false =>
        rw [if_neg Bool.false_ne_true, if_pos hr]
        exact .down rfl rfl rfl rfl rfl
  · rw [Bool.not_eq_true] at hr
    cases up with
    | true =>
        rw [if_pos rfl, if_neg (by rw [hr]; exact Bool.false_ne_true)]
        have hbring : bringsUp s (.ifflags true promisc allmulti media linkValid) = true := by
          simp [bringsUp, hr]
        have h := msgInitLocked_up (N := N) hK media linkValid
          (s := { s with flags := ⟨true, promisc, allmulti, s.flags.broadcast⟩ }) hr
        exact .up hbring ⟨h.view, h.running, h.caps, h.multi, h.detached⟩
    | false =>
        rw [if_neg Bool.false_ne_true, if_neg (by rw [hr]; exact Bool.false_ne_true)]
        exact .same rfl rfl ⟨rfl, rfl, rfl⟩ fun hn => absurd (hr.symm.trans hn) Bool.false_ne_true

theorem msgStep_move (hK : K.Heeds) (hold : OldKept s) (e : MsgEvent) :
    MsgMove N K s e (msgStep N K s e) := by
  cases e with
  | ifflags up promisc allmulti media linkValid =>
      exact msgIoctlFlags_move hK hold up promisc allmulti media linkValid
  | addMulti a => exact msgIoctlMulti_move hK rfl (a :: s.multi)
  | delMulti a => exact msgIoctlMulti_move hK rfl (s.multi.erase a)
  | setCap reqTx reqRx => exact .setCap reqTx reqRx rfl rfl
  | init media linkValid => exact msgInitLocked_move hK media linkValid
  | statchg media linkValid => exact (msgStatchg_frame hK media linkValid s).move rfl
  | write reg value => exact (write_frame hK reg value s).move rfl
  | detach => exact .detach rfl rfl rfl

/-- What `SIOCSIFCAP` has nothing to do with. -/
theorem msgIoctlCap_rest (reqTx reqRx : Bool) (s : MsgState κ) :
    (msgIoctlCap K reqTx reqRx s).running = s.running ∧
    (msgIoctlCap K reqTx reqRx s).detached = s.detached ∧
    (msgIoctlCap K reqTx reqRx s).flags = s.flags ∧
    (msgIoctlCap K reqTx reqRx s).multi = s.multi := by
  unfold msgIoctlCap
  dsimp only
  split_ifs <;> exact ⟨rfl, rfl, rfl, rfl⟩

/-- Nothing attaches the device again. -/
theorem MsgMove.attached (h : MsgMove N K s e t) (hd : t.detached = false) :
    s.detached = false := by
  rcases h with ⟨-, hup⟩ | ⟨-, -, -, -, hdet⟩ | ⟨-, hdet, -⟩ | ⟨-, -, -, hs⟩ |
    ⟨reqTx, reqRx, -, rfl⟩ | ⟨-, -, hs, -⟩
  · exact hup.detached ▸ hd
  · exact hdet ▸ hd
  · exact absurd (hd.symm.trans hdet) Bool.false_ne_true
  · exact hs.detached ▸ hd
  · exact (msgIoctlCap_rest (K := K) reqTx reqRx s).2.1 ▸ hd
  · exact hs.detached ▸ hd

/-- The flags, the groups and `if_old_flags` do not depend on what is sent. -/
theorem msgStatchg_flags (media : BitVec 32) (linkValid : Bool) (s : MsgState κ) :
    (msgStatchg K media linkValid s).flags = s.flags ∧
    (msgStatchg K media linkValid s).ifOldFlags = s.ifOldFlags := by
  unfold msgStatchg
  split <;> exact ⟨rfl, rfl⟩

theorem msgInitLocked_flags (media : BitVec 32) (linkValid : Bool) (s : MsgState κ) :
    (msgInitLocked N K media linkValid s).flags = s.flags ∧
    (msgInitLocked N K media linkValid s).ifOldFlags = s.ifOldFlags := by
  unfold msgInitLocked
  split
  · exact ⟨rfl, rfl⟩
  · exact msgStatchg_flags media linkValid { msgConfig N K s with running := true }

theorem msgStep_flags (s : MsgState κ) (e : MsgEvent) :
    (msgStep N K s e).flags = e.flags s.flags := by
  cases e with
  | ifflags up promisc allmulti media linkValid =>
      unfold msgStep msgIoctlFlags
      dsimp only
      split_ifs
      · rfl
      · rfl
      · exact (msgInitLocked_flags media linkValid _).1
      · rfl
      · rfl
  | addMulti a =>
      unfold msgStep msgIoctlMulti
      dsimp only
      split <;> rfl
  | delMulti a =>
      unfold msgStep msgIoctlMulti
      dsimp only
      split <;> rfl
  | setCap reqTx reqRx =>
      unfold msgStep msgIoctlCap
      dsimp only
      split_ifs <;> rfl
  | init media linkValid => exact (msgInitLocked_flags media linkValid _).1
  | statchg media linkValid => exact (msgStatchg_flags media linkValid s).1
  | write reg value => rfl
  | detach => rfl

/-- `if_old_flags` stays up to date: only `SIOCSIFFLAGS` comes with other
flags. -/
theorem msgStep_oldKept (h : OldKept s) (e : MsgEvent) : OldKept (msgStep N K s e) := by
  have hkeep (t : MsgState κ) (hold : t.ifOldFlags = s.ifOldFlags)
      (hp : t.flags.promisc = s.flags.promisc) (ha : t.flags.allmulti = s.flags.allmulti) :
      OldKept t := by
    constructor
    · rw [hold, hp, h.promisc]
    · rw [hold, ha, h.allmulti]
  have hflags := msgStep_flags (N := N) (K := K) s e
  cases e with
  | ifflags up promisc allmulti media linkValid => exact ⟨rfl, rfl⟩
  | addMulti a =>
      apply hkeep _ _ (congrArg _ hflags) (congrArg _ hflags)
      unfold msgStep msgIoctlMulti
      dsimp only
      split <;> rfl
  | delMulti a =>
      apply hkeep _ _ (congrArg _ hflags) (congrArg _ hflags)
      unfold msgStep msgIoctlMulti
      dsimp only
      split <;> rfl
  | setCap reqTx reqRx =>
      apply hkeep _ _ (congrArg _ hflags) (congrArg _ hflags)
      unfold msgStep msgIoctlCap
      dsimp only
      split_ifs <;> rfl
  | init media linkValid =>
      exact hkeep _ (msgInitLocked_flags media linkValid _).2 (congrArg IfFlags.promisc hflags :)
        (congrArg IfFlags.allmulti hflags :)
  | statchg media linkValid =>
      exact hkeep _ (msgStatchg_flags media linkValid s).2 (congrArg _ hflags) (congrArg _ hflags)
  | write reg value => exact hkeep _ rfl rfl rfl
  | detach => exact hkeep _ rfl rfl rfl

/-- `SIOCSIFCAP` sends each setting that is to change. -/
theorem view_msgIoctlCap (hK : K.Heeds) (reqTx reqRx : Bool) (s : MsgState κ) :
    K.view (msgIoctlCap K reqTx reqRx s).hw =
      { K.view s.hw with
        rxcsum := if s.caps.rxcsum = reqRx then (K.view s.hw).rxcsum else reqRx
        txcsum := if s.caps.txcsum = reqTx then (K.view s.hw).txcsum else reqTx } := by
  have htx (k : κ) : K.view (K.sends k [.enableTxcsum reqTx]) =
      { K.view k with txcsum := reqTx } := hK k _ rfl
  have hrx (k : κ) : K.view (K.sends k [.enableRxcsum reqRx]) =
      { K.view k with rxcsum := reqRx } := hK k _ rfl
  unfold msgIoctlCap
  dsimp only
  by_cases h1 : s.caps.txcsum = reqTx <;> by_cases h2 : s.caps.rxcsum = reqRx
  · rw [if_pos h1, if_pos h2, if_pos h1, if_pos h2]
  · rw [if_pos h1, if_neg h2, if_pos h1, if_neg h2]
    exact hrx s.hw
  · rw [if_neg h1, if_pos (by exact h2), if_neg h1, if_pos h2]
    exact htx s.hw
  · rw [if_neg h1, if_neg (by exact h2), if_neg h1, if_neg h2]
    show K.view (K.sends (K.sends s.hw [.enableTxcsum reqTx]) [.enableRxcsum reqRx]) = _
    rw [hrx, htx]

/-- Behind `SIOCSIFCAP` the capabilities are those asked for, the ones of IPv6
and of VLAN with them. -/
theorem msgIoctlCap_sound (h : s.caps.Sound) (reqTx reqRx : Bool) :
    (msgIoctlCap K reqTx reqRx s).caps = ⟨reqRx, reqRx, reqTx, reqTx, reqRx && reqTx, reqTx⟩ := by
  obtain ⟨hrx6, htx6, -, hassist⟩ := h
  unfold msgIoctlCap
  dsimp only
  split_ifs with h1 h2 h2
  · rw [hrx6, htx6, hassist, h1, h2]
  · rw [htx6, hassist, h1]
  · have h2' : s.caps.rxcsum = reqRx := h2
    rw [hrx6, h2']
  · rfl

end Settings

end Phytium.Xmac
