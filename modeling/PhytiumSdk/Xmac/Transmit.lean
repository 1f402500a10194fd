import PhytiumSdk.Lib.System
import PhytiumSdk.Xmac.Descriptor
import Mathlib.Logic.Function.Basic

/-!
# XMAC transmit: the driver's side of the ring

`phytium_xmac_start_locked` and `phytium_xmac_clean_tx` as a machine whose
steps are the single accesses to descriptor memory, so that the hardware can
be put between any two of them. `TxPc` says where in the two functions the
driver stands; `driverStep` executes the code from there to the next access.
`phytium_xmac_v2.c` runs the same code on its own masks and rings another
doorbell (`XmacHw.msg`).

The fields under "history" are not the driver's: they record what it was asked
to send, for the statements about whole runs.
-/

namespace Phytium.Xmac

open Lib Lib.Mask

/-- `sc->version` of `phytium_xmac.c`, and the driver of `phytium_xmac_v2.c`. -/
inductive XmacHw where
  | version1
  | version2
  | msg
deriving DecidableEq, Repr

/-- Who called `phytium_xmac_clean_tx`, and so where it returns to. -/
inductive CleanCaller where
  | intr
  | start
deriving DecidableEq, Repr

/-- The stores of one pass of the loop that fills descriptors. -/
inductive FillStore where
  | addr
  | addrhi
  | ctl
  | slot
deriving DecidableEq, Repr

/-- Where the driver stands. -/
inductive TxPc where
  /-- in neither function -/
  | idle
  /-- `start_locked`, the test for free space -/
  | space
  /-- `start_locked`, the second test, after `clean_tx` -/
  | spaceAgain
  /-- `start_locked`, `if_dequeue` and `get_segs_for_tx` -/
  | dequeue
  /-- `start_locked`, before the given store of the descriptor of segment `i` -/
  | fill (segs : List Seg) (i : ℕ) (store : FillStore)
  /-- `start_locked`, before the head pointer moves -/
  | commit (segs : List Seg)
  /-- `clean_tx`, the test of the outer loop -/
  | cleanTest (caller : CleanCaller)
  /-- `clean_tx`, the test of the inner loop, with the local `ctl` -/
  | cleanSkip (caller : CleanCaller) (ctl : BitVec 32)
  /-- `clean_tx`, before `ctl | USED` is stored back -/
  | cleanMark (caller : CleanCaller) (ctl : BitVec 32)
deriving DecidableEq, Repr

/-- The transmit part of `struct phytium_xmac_softc`, the interface flags and
send queue it uses, and the position in the code. -/
structure TxState where
  txring : ℕ → TxDesc
  txringM : ℕ → Option Mbuf
  txringHdPtr : ℕ
  txringTlPtr : ℕ
  txringQueued : ℤ
  txfull : ℕ
  txdefrags : ℕ
  txdefragfails : ℕ
  txdmamapfails : ℕ
  oerrors : ℕ
  opackets : ℕ
  /-- `IFF_DRV_RUNNING` -/
  running : Bool
  /-- `IFF_DRV_OACTIVE` -/
  oactive : Bool
  sendq : List Mbuf
  /-- the last value written to the tail doorbell -/
  tailQueue : Option (BitVec 32)
  pc : TxPc
  -- history
  /-- the packets given descriptors since the ring was last cleared -/
  queuedPkts : List (List Seg)
  /-- how many of them `clean_tx` has begun to free -/
  freedFrames : ℕ
  /-- the mbufs passed to `m_freem` -/
  mfreed : List Mbuf

/-- `sc->txring[i].addr = v`. -/
def setAddr (r : ℕ → TxDesc) (i : ℕ) (v : BitVec 32) : ℕ → TxDesc :=
  Function.update r i { r i with addr := v }

/-- `sc->txring[i].addrhi = v`. -/
def setAddrhi (r : ℕ → TxDesc) (i : ℕ) (v : BitVec 32) : ℕ → TxDesc :=
  Function.update r i { r i with addrhi := v }

/-- `sc->txring[i].ctl = v`. -/
def setCtl (r : ℕ → TxDesc) (i : ℕ) (v : BitVec 32) : ℕ → TxDesc :=
  Function.update r i { r i with ctl := v }

/-- The ring as `phytium_xmac_setup_descs` and `phytium_xmac_stop` leave it:
every descriptor the driver's, the last one marked as the end. -/
def clearedTxring (M : TxbufMasks) : ℕ → TxDesc := fun i =>
  { addr := 0#32
    ctl := if i = xmacNumTxDescs - 1 then M.used ||| M.wrap else M.used
    addrhi := 0#32 }

/-- The transmit part of `phytium_xmac_setup_descs`. -/
def setupDescs (M : TxbufMasks) (hw : XmacHw) : TxState where
  txring := clearedTxring M
  txringM := fun _ => none
  txringHdPtr := 0
  txringTlPtr := 0
  txringQueued := 0
  txfull := 0
  txdefrags := 0
  txdefragfails := 0
  txdmamapfails := 0
  oerrors := 0
  opackets := 0
  running := false
  oactive := false
  sendq := []
  tailQueue := if hw = .version2 then some (1#32 <<< 31) else none
  pc := .idle
  queuedPkts := []
  freedFrames := 0
  mfreed := []

/-- The transmit part of `phytium_xmac_stop`. -/
def stopTx (M : TxbufMasks) (s : TxState) : TxState :=
  { s with
    txring := clearedTxring M
    txringM := fun _ => none
    txringHdPtr := 0
    txringTlPtr := 0
    txringQueued := 0
    freedFrames := s.queuedPkts.length
    mfreed := s.mfreed ++ (List.range xmacNumTxDescs).filterMap s.txringM }

/-- The flags `phytium_xmac_init_locked` sets on an interface that is not
running. -/
def initTx (s : TxState) : TxState :=
  if s.running then s else { s with running := true, oactive := false }

/-! ## `phytium_xmac_start_locked` -/

/-- `wrap`: the next packet may not fit behind this one. -/
def wraps (hd nsegs : ℕ) : Bool := decide (xmacNumTxDescs ≤ hd + nsegs + txMaxDmaSegs)

/-- There is no room for another packet. -/
def noSpace (s : TxState) : Bool :=
  decide (((xmacNumTxDescs - txMaxDmaSegs * 2 : ℕ) : ℤ) ≤ s.txringQueued)

/-- The entry `segs[i]`. -/
def segAt (segs : List Seg) (i : ℕ) : Seg := segs.getD i ⟨0#64, 0⟩

/-- The control word of segment `i` of a frame that starts at `hd`. -/
def txCtl (M : TxbufMasks) (hd : ℕ) (segs : List Seg) (i : ℕ) : BitVec 32 :=
  let len := BitVec.ofNat 32 (segAt segs i).dsLen
  if i + 1 = segs.length then
    if wraps hd segs.length then len ||| M.last ||| M.wrap else len ||| M.last
  else len

/-- A packet whose segments are known takes its slot; the descriptors are
filled from the last to the first. -/
def acceptPacket (s : TxState) (m : Mbuf) (segs : List Seg) : TxState :=
  { s with
    txringM := Function.update s.txringM s.txringHdPtr (some m)
    queuedPkts := if segs = [] then s.queuedPkts else s.queuedPkts ++ [segs]
    pc := if segs = [] then .commit [] else .fill segs (segs.length - 1) .addr }

/-- From `if_dequeue` to the packet's slot. `defrag` is what `m_defrag`
returns, should it be called. -/
def dequeueStep (defrag : Option MbufChain) (s : TxState) : TxState :=
  match s.sendq with
  | [] => { s with pc := .idle }
  | m :: q =>
      match getSegsForTx m.chain with
      | .ok segs => acceptPacket { s with sendq := q } m segs
      | .error .efbig =>
          match defrag with
          | none =>
              { s with
                sendq := q
                txdefragfails := s.txdefragfails + 1
                mfreed := s.mfreed ++ [m]
                pc := .space }
          | some c =>
              match getSegsForTx c with
              | .ok segs =>
                  acceptPacket { s with sendq := q, txdefrags := s.txdefrags + 1 }
                    { m with chain := c } segs
              | .error .efbig =>
                  { s with
                    sendq := q
                    txdefrags := s.txdefrags + 1
                    txdmamapfails := s.txdmamapfails + 1
                    mfreed := s.mfreed ++ [{ m with chain := c }]
                    pc := .space }

/-- The segments of the packet that `dequeueStep` gives descriptors, if it gives
any. -/
def takenSegs (defrag : Option MbufChain) (s : TxState) : Option (List Seg) :=
  match s.sendq with
  | [] => none
  | m :: _ =>
      match getSegsForTx m.chain with
      | .ok segs => some segs
      | .error .efbig => defrag.bind fun c => (getSegsForTx c).toOption

/-- One store of the loop that fills the descriptors. -/
def fillStep (M : TxbufMasks) (s : TxState) (segs : List Seg) (i : ℕ) : FillStore → TxState
  | .addr =>
      { s with
        txring := setAddr s.txring (s.txringHdPtr + i) ((segAt segs i).dsAddr.setWidth 32)
        pc := .fill segs i .addrhi }
  | .addrhi =>
      { s with
        txring := setAddrhi s.txring (s.txringHdPtr + i)
          (((segAt segs i).dsAddr >>> 32).setWidth 32)
        pc := .fill segs i .ctl }
  | .ctl =>
      { s with
        txring := setCtl s.txring (s.txringHdPtr + i) (txCtl M s.txringHdPtr segs i)
        pc := if i = 0 then .commit segs else .fill segs i .slot }
  | .slot =>
      { s with
        txringM := Function.update s.txringM (s.txringHdPtr + i) none
        pc := .fill segs (i - 1) .addr }

/-- What is written to the tail doorbell. -/
def doorbell (hw : XmacHw) (hd : ℕ) (old : Option (BitVec 32)) : Option (BitVec 32) :=
  match hw with
  | .version1 => old
  | .version2 => some (1#32 <<< 31 ||| BitVec.ofNat 32 (hd &&& (xmacNumTxDescs - 1)))
  | .msg => some (BitVec.ofNat 32 hd)

/-- The head pointer moves and the doorbell rings. -/
def commitStep (hw : XmacHw) (s : TxState) (segs : List Seg) : TxState :=
  let hd := if wraps s.txringHdPtr segs.length then 0 else s.txringHdPtr + segs.length
  { s with
    txringHdPtr := hd
    txringQueued := s.txringQueued + segs.length
    tailQueue := doorbell hw hd s.tailQueue
    pc := .space }

/-! ## `phytium_xmac_clean_tx` -/

/-- Where `phytium_xmac_clean_tx` returns to. -/
def CleanCaller.pc : CleanCaller → TxPc
  | .intr => .idle
  | .start => .spaceAgain

/-- The descriptor behind one with control word `ctl`. -/
def behind (M : TxbufMasks) (ctl : BitVec 32) (tl : ℕ) : ℕ :=
  if has ctl M.wrap then 0 else tl + 1

/-- The test of the outer loop; a completed frame's mbuf is freed and its
status counted. -/
def cleanTestStep (M : TxbufMasks) (s : TxState) (caller : CleanCaller) : TxState :=
  let ctl := (s.txring s.txringTlPtr).ctl
  if 0 < s.txringQueued ∧ has ctl M.used then
    { s with
      txringM := Function.update s.txringM s.txringTlPtr none
      mfreed := s.mfreed ++ (s.txringM s.txringTlPtr).toList
      oerrors :=
        if has ctl M.exh then s.oerrors
        else if has ctl (M.retry ||| M.tcp) then s.oerrors + 1 else s.oerrors
      opackets :=
        if has ctl M.exh then s.opackets
        else if has ctl (M.retry ||| M.tcp) then s.opackets else s.opackets + 1
      freedFrames := s.freedFrames + 1
      pc := .cleanSkip caller ctl }
  else { s with pc := caller.pc }

/-- The test of the inner loop: on to the next descriptor of the frame, or
past its last one. -/
def cleanSkipStep (M : TxbufMasks) (s : TxState) (caller : CleanCaller)
    (ctl : BitVec 32) : TxState :=
  let tl := behind M ctl s.txringTlPtr
  if has ctl M.last then
    { s with
      txringTlPtr := tl
      txringQueued := s.txringQueued - 1
      oactive := false
      pc := .cleanTest caller }
  else
    { s with
      txringTlPtr := tl
      txringQueued := s.txringQueued - 1
      pc := .cleanMark caller (s.txring tl).ctl }

/-- The store of the inner loop. -/
def cleanMarkStep (M : TxbufMasks) (s : TxState) (caller : CleanCaller)
    (ctl : BitVec 32) : TxState :=
  { s with
    txring := setCtl s.txring s.txringTlPtr (ctl ||| M.used)
    pc := .cleanSkip caller ctl }

/-! ## The machine -/

/-- One step of the driver inside the two functions. -/
def driverStep (M : TxbufMasks) (hw : XmacHw) (defrag : Option MbufChain) (s : TxState) :
    Option TxState :=
  match s.pc with
  | .idle => none
  | .space =>
      if noSpace s then some { s with pc := .cleanTest .start }
      else some { s with pc := .dequeue }
  | .spaceAgain =>
      if noSpace s then some { s with oactive := true, txfull := s.txfull + 1, pc := .idle }
      else some { s with pc := .dequeue }
  | .dequeue => some (dequeueStep defrag s)
  | .fill segs i store => some (fillStep M s segs i store)
  | .commit segs => some (commitStep hw s segs)
  | .cleanTest caller => some (cleanTestStep M s caller)
  | .cleanSkip caller ctl => some (cleanSkipStep M s caller ctl)
  | .cleanMark caller ctl => some (cleanMarkStep M s caller ctl)

/-- What can happen around the ring, the hardware apart. -/
inductive TxEvent where
  /-- the stack puts a packet into the send queue -/
  | enqueue (m : Mbuf)
  /-- `phytium_xmac_start_locked` is called -/
  | start
  /-- `phytium_xmac_clean_tx` is called from the interrupt handler -/
  | clean
  /-- the driver takes one step -/
  | driver (defrag : Option MbufChain)
  /-- `phytium_xmac_init_locked` -/
  | init
  /-- the interface is brought down: `RUNNING` is cleared, then
  `phytium_xmac_stop` -/
  | down
  /-- `phytium_xmac_stop` on its own, as `phytium_xmac_detach` calls it -/
  | stop
deriving DecidableEq, Repr

/-- The ring's events. Calls happen with the lock free; a packet and what
`m_defrag` makes of it have short mbufs. -/
def txStep (M : TxbufMasks) (hw : XmacHw) (s : TxState) : TxEvent → Option TxState
  | .enqueue m => if m.chain.Short then some { s with sendq := s.sendq ++ [m] } else none
  | .start =>
      if s.pc = .idle then some { s with pc := if s.oactive then .idle else .space }
      else none
  | .clean => if s.pc = .idle then some { s with pc := .cleanTest .intr } else none
  | .driver defrag =>
      if ∀ c ∈ defrag, c.Short then driverStep M hw defrag s else none
  | .init => if s.pc = .idle then some (initTx s) else none
  | .down =>
      if s.pc = .idle then
        some (if s.running then stopTx M { s with running := false } else s)
      else none
  | .stop => if s.pc = .idle then some (stopTx M s) else none

/-- The ring's events, with packets of any shape. -/
def anyTxStep (M : TxbufMasks) (hw : XmacHw) (s : TxState) : TxEvent → Option TxState
  | .enqueue m => some { s with sendq := s.sendq ++ [m] }
  | .driver defrag => driverStep M hw defrag s
  | e => txStep M hw s e

/-! ## The hardware's store -/

/-- `ctl'` is what the hardware may store over the control word `ctl` of a
frame's first descriptor: `USED` is set, and apart from the length, `LAST` and
`WRAP` the rest is status. -/
def Completes (M : TxbufMasks) (ctl ctl' : BitVec 32) : Prop :=
  ctl' &&& txbufLenMask = ctl &&& txbufLenMask ∧ ctl' &&& M.last = ctl &&& M.last ∧
  ctl' &&& M.wrap = ctl &&& M.wrap ∧ has ctl' M.used = true

instance (M : TxbufMasks) (ctl ctl' : BitVec 32) : Decidable (Completes M ctl ctl') := by
  unfold Completes
  infer_instance

/-! ## What the driver's steps can be -/

section

variable {M : TxbufMasks} {hw : XmacHw} {defrag : Option MbufChain} {s s' : TxState}

/-- The send queue is empty, or its first packet, as it was or as `m_defrag`
returned it, gets the slot of the head pointer or is freed. -/
inductive Dequeued (defrag : Option MbufChain) (s : TxState) : TxState → Prop where
  | nothing (hq : s.sendq = []) : Dequeued defrag s { s with pc := .idle }
  | accepted (m m' : Mbuf) (q : List Mbuf) (k : ℕ) (segs : List Seg) (hq : s.sendq = m :: q)
      (hname : m'.name = m.name) (hsegs : takenSegs defrag s = some segs) :
      Dequeued defrag s (acceptPacket { s with sendq := q, txdefrags := k } m' segs)
  | freed (m m' : Mbuf) (q : List Mbuf) (k fails mapfails : ℕ) (hq : s.sendq = m :: q)
      (hname : m'.name = m.name) :
      Dequeued defrag s
        { s with
          sendq := q
          txdefrags := k
          txdefragfails := fails
          txdmamapfails := mapfails
          mfreed := s.mfreed ++ [m']
          pc := .space }

theorem dequeueStep_dequeued (defrag : Option MbufChain) (s : TxState) :
    Dequeued defrag s (dequeueStep defrag s) := by
  unfold dequeueStep
  split
  · rename_i hq
    exact .nothing hq
  · rename_i m q hq
    split
    · rename_i segs hsegs
      refine .accepted m m q s.txdefrags segs hq rfl ?_
      simp only [takenSegs, hq, hsegs]
    · rename_i hbig
      split
      · exact .freed m m q _ _ _ hq rfl
      · rename_i c
        split
        · rename_i segs hsegs
          refine .accepted m { m with chain := c } q (s.txdefrags + 1) segs hq rfl ?_
          simp only [takenSegs, hq, hbig, Option.bind_some, hsegs]
          rfl
        · exact .freed m { m with chain := c } q _ _ _ hq rfl

/-- The steps of the two functions, with what holds where they are taken. -/
inductive Stepped (M : TxbufMasks) (hw : XmacHw) (defrag : Option MbufChain) (s : TxState) :
    TxState → Prop where
  | room (hpc : s.pc = .space ∨ s.pc = .spaceAgain) (hsp : noSpace s = false) :
      Stepped M hw defrag s { s with pc := .dequeue }
  | reclaim (hpc : s.pc = .space) (hsp : noSpace s = true) :
      Stepped M hw defrag s { s with pc := .cleanTest .start }
  | full (hpc : s.pc = .spaceAgain) (hsp : noSpace s = true) :
      Stepped M hw defrag s { s with oactive := true, txfull := s.txfull + 1, pc := .idle }
  | dequeue {t : TxState} (hpc : s.pc = .dequeue) (hd : Dequeued defrag s t) :
      Stepped M hw defrag s t
  | fill (segs : List Seg) (i : ℕ) (store : FillStore) (hpc : s.pc = .fill segs i store) :
      Stepped M hw defrag s (fillStep M s segs i store)
  | commit (segs : List Seg) (hpc : s.pc = .commit segs) :
      Stepped M hw defrag s (commitStep hw s segs)
  | cleanTest (caller : CleanCaller) (hpc : s.pc = .cleanTest caller) :
      Stepped M hw defrag s (cleanTestStep M s caller)
  | cleanSkip (caller : CleanCaller) (ctl : BitVec 32) (hpc : s.pc = .cleanSkip caller ctl) :
      Stepped M hw defrag s (cleanSkipStep M s caller ctl)
  | cleanMark (caller : CleanCaller) (ctl : BitVec 32) (hpc : s.pc = .cleanMark caller ctl) :
      Stepped M hw defrag s (cleanMarkStep M s caller ctl)

theorem driverStep_stepped (hs : driverStep M hw defrag s = some s') :
    Stepped M hw defrag s s' := by
  unfold driverStep at hs
  split at hs <;> rename_i hpc
  · cases hs
  · split at hs <;> rename_i hsp <;> cases hs
    · exact .reclaim hpc hsp
    · exact .room (Or.inl hpc) (Bool.eq_false_of_not_eq_true hsp)
  · split at hs <;> rename_i hsp <;> cases hs
    · exact .full hpc hsp
    · exact .room (Or.inr hpc) (Bool.eq_false_of_not_eq_true hsp)
  · cases hs
    exact .dequeue hpc (dequeueStep_dequeued defrag s)
  · cases hs
    exact .fill _ _ _ hpc
  · cases hs
    exact .commit _ hpc
  · cases hs
    exact .cleanTest _ hpc
  · cases hs
    exact .cleanSkip _ _ hpc
  · cases hs
    exact .cleanMark _ _ hpc

end

end Phytium.Xmac
