import PhytiumSdk.Lib.CircularWindow
import PhytiumSdk.Lib.System
import PhytiumSdk.Xmac.Descriptor

/-!
# XMAC receive: the driver's side of the ring

`phytium_xmac_fill_rqueue`, `phytium_xmac_recv` and the receive part of
`phytium_xmac_stop`, one definition for each pass of a loop. The two drivers
differ in the spelling of the masks only: `phytium_xmac_v2.c` writes `BIT(22)`
and `BIT(23)` for the checksum matches, and `FXMAC_MSG_RXBUF_WRAP_MASK` where
`phytium_xmac.c` has `1 << 1`.
-/

namespace Phytium.Xmac

open Lib Lib.Mask

/-- The bits of a receive descriptor: `NEW` and `WRAP` are the two low bits of
the address word, the others are in the control word. -/
structure RxbufMasks where
  new : BitVec 32
  wrap : BitVec 32
  fcsStatus : BitVec 32
  sof : BitVec 32
  eof : BitVec 32
  len : BitVec 32
  idmatch : BitVec 32
  id2match : BitVec 32
  id3match : BitVec 32
  new_eq : new = 1#32
  wrap_eq : wrap = 1#32 <<< 1

/-- Masks as the headers could have them. -/
def sampleRxMasks : RxbufMasks where
  new := 1#32
  wrap := 1#32 <<< 1
  fcsStatus := 1#32 <<< 13
  sof := 1#32 <<< 14
  eof := 1#32 <<< 15
  len := 0x1FFF#32
  idmatch := 3#32 <<< 22
  id2match := 1#32 <<< 22
  id3match := 1#32 <<< 23
  new_eq := rfl
  wrap_eq := rfl

/-- `MCLBYTES`: the size of an mbuf cluster. -/
def mclbytes : ℕ := 2048

/-- `ETHER_ALIGN`. -/
def etherAlign : BitVec 64 := 2#64

structure RxDesc where
  addr : BitVec 32
  ctl : BitVec 32
  addrhi : BitVec 32
deriving DecidableEq, Repr

/-- `m_pkthdr.csum_flags`, as far as the driver sets it. -/
structure CsumFlags where
  ipChecked : Bool
  ipValid : Bool
  dataValid : Bool
  pseudoHdr : Bool
deriving DecidableEq, Repr

/-- `m_pkthdr.csum_flags |= …`. -/
def CsumFlags.or (a b : CsumFlags) : CsumFlags where
  ipChecked := a.ipChecked || b.ipChecked
  ipValid := a.ipValid || b.ipValid
  dataValid := a.dataValid || b.dataValid
  pseudoHdr := a.pseudoHdr || b.pseudoHdr

/-- A receive mbuf; `name` stands for the object itself. -/
structure RxMbuf where
  name : ℕ
  mData : BitVec 64
  mLen : ℕ
  pkthdrLen : ℕ
  csumFlags : CsumFlags
  csumData : ℕ
deriving DecidableEq, Repr

/-- The receive part of `struct phytium_xmac_softc`, the counters and the
capability it uses, the hardware's position, and what became of the mbufs. -/
structure RxState where
  rxring : ℕ → RxDesc
  rxringM : ℕ → Option RxMbuf
  rxringHdPtr : ℕ
  rxringTlPtr : ℕ
  rxringQueued : ℕ
  ierrors : ℕ
  ipackets : ℕ
  /-- `IFCAP_RXCSUM` is enabled -/
  rxcsum : Bool
  /-- the descriptor the hardware fills next -/
  hwPtr : ℕ
  -- history
  /-- how many mbufs `fill_rqueue` got; they are named in that order -/
  allocated : ℕ
  /-- the packets given to `if_input`, in order -/
  delivered : List RxMbuf
  /-- the names of the mbufs passed to `m_free` and `m_freem` -/
  freed : List ℕ
  /-- a null mbuf was dereferenced -/
  nullDeref : Bool

/-- The ring as `phytium_xmac_setup_descs` and `phytium_xmac_stop` leave it. -/
def clearedRxring (M : RxbufMasks) : ℕ → RxDesc := fun i =>
  { addr := if i = xmacNumRxDescs - 1 then M.new ||| M.wrap else M.new
    ctl := 0#32
    addrhi := 0#32 }

/-- The receive part of `phytium_xmac_setup_descs`. -/
def setupRx (M : RxbufMasks) (rxcsum : Bool) : RxState where
  rxring := clearedRxring M
  rxringM := fun _ => none
  rxringHdPtr := 0
  rxringTlPtr := 0
  rxringQueued := 0
  ierrors := 0
  ipackets := 0
  rxcsum := rxcsum
  hwPtr := 0
  allocated := 0
  delivered := []
  freed := []
  nullDeref := false

/-- The names of the mbufs in the ring. -/
def ringNames (s : RxState) : List ℕ :=
  (CircularWindow.contents s.rxringM (List.range xmacNumRxDescs)).map RxMbuf.name

/-- The receive part of `phytium_xmac_stop`. The hardware is shut down, and
starts over at the first descriptor. -/
def stopRx (M : RxbufMasks) (s : RxState) : RxState :=
  { s with
    rxring := clearedRxring M
    rxringM := fun _ => none
    rxringHdPtr := 0
    rxringTlPtr := 0
    rxringQueued := 0
    hwPtr := 0
    freed := s.freed ++ ringNames s }

/-! ## `phytium_xmac_fill_rqueue` -/

/-- The mbuf `m_getcl` returns. -/
def getcl (name : ℕ) (a : BitVec 64) : RxMbuf where
  name := name
  mData := a
  mLen := mclbytes
  pkthdrLen := mclbytes
  csumFlags := ⟨false, false, false, false⟩
  csumData := 0

/-- One pass of the loop, with an mbuf at address `a`. -/
def fillOne (s : RxState) (a : BitVec 64) : RxState :=
  let hd := s.rxringHdPtr
  { s with
    rxringM := Function.update s.rxringM hd (some (getcl s.allocated a))
    rxring := Function.update s.rxring hd
      { addr :=
          if hd = xmacNumRxDescs - 1 then a.setWidth 32 ||| 1#32 <<< 1 else a.setWidth 32
        ctl := 0#32
        addrhi := (a >>> 32).setWidth 32 }
    rxringHdPtr := if hd = xmacNumRxDescs - 1 then 0 else hd + 1
    rxringQueued := s.rxringQueued + 1
    allocated := s.allocated + 1 }

/-- `phytium_xmac_fill_rqueue`. The list holds the addresses of the mbufs that
`m_getcl` can still provide; at its end it returns `NULL`. -/
def fillRqueue (rxbufs : ℕ) : List (BitVec 64) → RxState → RxState
  | [], s => s
  | a :: as, s =>
      if s.rxringQueued < rxbufs then fillRqueue rxbufs as (fillOne s a) else s

/-! ## `phytium_xmac_recv` -/

/-- The packet is broken, or not all in one mbuf cluster. -/
def badFrame (M : RxbufMasks) (ctl : BitVec 32) : Bool :=
  has ctl M.fcsStatus || decide (ctl &&& (M.sof ||| M.eof) ≠ M.sof ||| M.eof)

/-- The checksum status of the descriptor enters the packet header. -/
def markCsum (M : RxbufMasks) (ctl : BitVec 32) (m : RxMbuf) : RxMbuf :=
  if ctl &&& M.idmatch = M.id3match ∨ ctl &&& M.idmatch = M.idmatch then
    { m with csumFlags := m.csumFlags.or ⟨true, true, true, true⟩, csumData := 0xffff }
  else if ctl &&& M.idmatch = M.id2match then
    { m with csumFlags := m.csumFlags.or ⟨true, true, false, false⟩, csumData := 0xffff }
  else m

/-- The mbuf made ready for the stack. -/
def preparePacket (M : RxbufMasks) (rxcsum : Bool) (ctl : BitVec 32) (m : RxMbuf) : RxMbuf :=
  let m' :=
    { m with
      mData := m.mData + etherAlign
      mLen := (ctl &&& M.len).toNat
      pkthdrLen := (ctl &&& M.len).toNat }
  if rxcsum then markCsum M ctl m' else m'

/-- The test of the loop. -/
def received (M : RxbufMasks) (s : RxState) : Bool :=
  decide (0 < s.rxringQueued) && has (s.rxring s.rxringTlPtr).addr M.new

/-- One pass of the loop, with the chain of packets collected so far. -/
def recvOne (M : RxbufMasks) (s : RxState) (chain : List RxMbuf) : RxState × List RxMbuf :=
  let ctl := (s.rxring s.rxringTlPtr).ctl
  let s' :=
    { s with
      rxringM := Function.update s.rxringM s.rxringTlPtr none
      rxringTlPtr := if s.rxringTlPtr + 1 = xmacNumRxDescs then 0 else s.rxringTlPtr + 1
      rxringQueued := s.rxringQueued - 1 }
  match s.rxringM s.rxringTlPtr with
  | none => ({ s' with nullDeref := true }, chain)
  | some m =>
      if badFrame M ctl then
        ({ s' with freed := s.freed ++ [m.name], ierrors := s.ierrors + 1 }, chain)
      else (s', chain ++ [preparePacket M s.rxcsum ctl m])

/-- The loop; every pass takes one descriptor out of the window, so
`rxring_queued` bounds the passes. -/
def recvLoop (M : RxbufMasks) : ℕ → RxState → List RxMbuf → RxState × List RxMbuf
  | 0, s, chain => (s, chain)
  | n + 1, s, chain =>
      if received M s then recvLoop M n (recvOne M s chain).1 (recvOne M s chain).2
      else (s, chain)

/-- `phytium_xmac_recv` up to the point where it drops the lock: the chain of
packets is local to it. -/
def recvLocked (M : RxbufMasks) (rxbufs : ℕ) (as : List (BitVec 64)) (s : RxState) :
    RxState × List RxMbuf :=
  let r := recvLoop M s.rxringQueued s []
  (fillRqueue rxbufs as r.1, r.2)

/-- The packets go up the stack. -/
def deliver (s : RxState) (chain : List RxMbuf) : RxState :=
  { s with delivered := s.delivered ++ chain, ipackets := s.ipackets + chain.length }

/-- `phytium_xmac_recv`. -/
def recv (M : RxbufMasks) (rxbufs : ℕ) (as : List (BitVec 64)) (s : RxState) : RxState :=
  deliver (recvLocked M rxbufs as s).1 (recvLocked M rxbufs as s).2

/-! ## The machine -/

/-- The hardware fills the descriptor it stands at, if the driver has given it
away: `NEW` and the control word are set, `WRAP` is kept and followed. -/
def hardwareReceive (M : RxbufMasks) (s : RxState) (addr ctl : BitVec 32) : Option RxState :=
  let d := s.rxring s.hwPtr
  if has d.addr M.new = false ∧ has addr M.new = true ∧ addr &&& M.wrap = d.addr &&& M.wrap then
    some
      { s with
        rxring := Function.update s.rxring s.hwPtr { d with addr := addr, ctl := ctl }
        hwPtr := if has d.addr M.wrap then 0 else s.hwPtr + 1 }
  else none

/-- The addresses of mbufs have their two low bits clear. -/
def aligned (as : List (BitVec 64)) : Bool := as.all fun a => a &&& 3#64 == 0#64

inductive RxEvent where
  | fill (as : List (BitVec 64))
  | recv (as : List (BitVec 64))
  | stop
  | receive (addr ctl : BitVec 32)
deriving DecidableEq, Repr

def rxStep (M : RxbufMasks) (rxbufs : ℕ) (s : RxState) : RxEvent → Option RxState
  | .fill as => if aligned as then some (fillRqueue rxbufs as s) else none
  | .recv as => if aligned as then some (recv M rxbufs as s) else none
  | .stop => some (stopRx M s)
  | .receive addr ctl => hardwareReceive M s addr ctl

/-- The receive ring from `phytium_xmac_setup_descs` on. -/
def rxSystem (M : RxbufMasks) (rxbufs : ℕ) : System RxState RxEvent where
  init := fun s => ∃ rxcsum, s = setupRx M rxcsum
  step := rxStep M rxbufs

end Phytium.Xmac
