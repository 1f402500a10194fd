import PhytiumSdk.Lib.System
import PhytiumSdk.Sdif.Command
import Mathlib.Logic.Function.Basic

/-!
# SDIF requests: the driver as a machine

Any number of request calls, the controller's interrupts and the timeout
callout. The interrupt handler does not take the lock, so a call is cut at each
access to a field that the handlers look at: `CallPc` says where a call stands,
and `callStep` executes the code from there to the next such access. The event
handlers run at once. So does the timeout handler here; what an event can do in
the middle of it is the subject of `TimeoutSteps`, where it is cut in the same
way.

The environment is free: any event and any outcome of a library call may come
at any time. What a client submits and what a correct controller does are
conditions on the runs, stated where they are used.

The fields under "history" are not the driver's.
-/

namespace Phytium.Sdif

open Lib

/-- The driver, its build and the device it is attached to. -/
structure SdifConfig where
  version : Version
  /-- `__rtems__` -/
  rtems : Bool
  transMode : TransMode
  autoStop : Bool
  nonRemovable : Bool
  masks : CmdMasks
  /-- `FSDIF_DMA_BUF_ALIGMENT` -/
  dmaBufAligment : ℕ
  alignedDmaBuf : ℕ
  alignedDmaBufLen : ℕ
  /-- `FSdifGetCmdResponse` of the controller library: what it makes of the
  package of the command and the response registers -/
  getCmdResponse : CmdPkg → Resp → Option Resp

/-- An RTEMS build for a removable card, with DMA and without `auto_stop`. -/
def sampleSdif (version : Version) : SdifConfig where
  version := version
  rtems := true
  transMode := .idma
  autoStop := false
  nonRemovable := false
  masks := sampleCmdMasks
  dmaBufAligment := 512
  alignedDmaBuf := 0x10000
  alignedDmaBufLen := 0x1000
  getCmdResponse := fun _ regs => some regs

/-- Requests go by DMA. -/
def SdifConfig.usesDma (cfg : SdifConfig) : Bool :=
  cfg.version == .v2 || cfg.transMode == .idma

/-! ## Memory -/

/-- The bytes at all addresses. -/
abbrev Mem := ℕ → BitVec 8

def readMem (m : Mem) (a n : ℕ) : List (BitVec 8) := (List.range n).map fun i => m (a + i)

def writeMem (m : Mem) (a : ℕ) (bs : List (BitVec 8)) : Mem :=
  fun x => if a ≤ x then bs.getD (x - a) (m x) else m x

def memcpy (m : Mem) (dst src n : ℕ) : Mem := writeMem m dst (readMem m src n)

def memset (m : Mem) (dst n : ℕ) : Mem := writeMem m dst (List.replicate n 0#8)

/-- The bytes in a client's buffer. -/
def readBuffer (data : Option MmcData) (m : Mem) : List (BitVec 8) :=
  match data with
  | none => []
  | some d => readMem m d.data d.len

/-! ## States -/

/-- Where a call stands in `sdif_set_block_count`. -/
inductive BlockCountPc where
  /-- v2 only -/
  | lock
  | package
  | clrDto
  | clrCmdDone
  | setPending
  | setExpect
  | start
  /-- `sdif_polling_request_done` -/
  | poll
  /-- `sdif_polling_card_busy` -/
  | busy
  | exit (err : Option Errno)
deriving DecidableEq, Repr

/-- Where a call stands in `phytium_sdif_request`, from the store of `sc->req`
on. -/
inductive IssuePc where
  | setReq
  | setCurcmd
  | setError
  | package
  | dmaPrepare (inData : MmcData)
  /-- v2 only -/
  | command
  | clrDto
  | clrCmdDone
  | setPending
  | setExpect
  | start
  /-- `callout_reset` -/
  | arm
deriving DecidableEq, Repr

/-- Where a request call stands. -/
inductive CallPc where
  /-- not submitted yet -/
  | new
  /-- v1 only -/
  | lock
  | busy
  /-- `sdif_pre_request`, the test for the block count -/
  | preRequest
  | blockCount (p : BlockCountPc)
  /-- `sdif_pre_request`, the tests for commands to skip -/
  | filter (err : Option Errno)
  /-- v2 only -/
  | mainLock
  | issue (p : IssuePc)
  | unlock (err : Option Errno)
  | returned (err : Option Errno)
deriving DecidableEq, Repr

/-- `sc->timeout_callout`. A callout that has expired waits for the lock, and
`callout_stop` without the lock comes too late for it. -/
inductive Callout where
  | idle
  | armed
  | expired
deriving DecidableEq, Repr

/-- The controller. -/
structure Controller where
  /-- a command has been started, and the controller not been reset since -/
  started : Bool
  /-- `CMD_DONE` of the command started last is still to come -/
  cmdOwed : Bool
  /-- `DATA_DONE` of the command started last is still to come -/
  dataOwed : Bool
  respRegs : Resp
  /-- the buffer the descriptor ring describes -/
  ringBuf : ℕ
  /-- where the data of the command goes, if it reads -/
  sink : Option (ℕ × ℕ)
deriving DecidableEq

/-- One invocation of a done callback: what the client finds then. -/
structure DoneCall where
  req : ℕ
  error : MmcErr
  resp : Resp
  buffer : List (BitVec 8)
  /-- an error had been reported for the request -/
  errSeen : Bool
deriving DecidableEq

structure SdifState where
  req : Option ℕ
  /-- `sc->curcmd`, the command of the request with that number -/
  curcmd : Option ℕ
  dtoRcvd : Bool
  cmdDone : Bool
  reqPending : Bool
  expectData : Bool
  /-- `sc->cmd_pkg`; `sc->cmd` and `sc->request` -/
  cmdPkg : CmdPkg
  /-- `sc->dat_pkg`; `sc->data` -/
  datPkg : DatPkg
  /-- `hc.card_need_init`, v1 only -/
  cardNeedInit : Bool
  useHold : Bool
  callout : Callout
  /-- the call that holds `sc->sc_mtx` -/
  lock : Option ℕ
  hc : Controller
  mem : Mem
  -- the request calls
  cmds : ℕ → MmcCommand
  pc : ℕ → CallPc
  /-- the requests as they were submitted, with the bytes in their buffers -/
  subs : List (MmcCommand × List (BitVec 8))
  -- history
  /-- `ERR_OCCURE` was delivered while the request was the current one -/
  errSeen : ℕ → Bool
  doneLog : List DoneCall
  /-- the driver has panicked or followed a null pointer -/
  panicked : Bool

namespace SdifState

variable (s : SdifState)

/-- How many requests there have been; they are numbered from 0. -/
def submitted : ℕ := s.subs.length

/-- The requests whose done callback has run, in order. -/
def doneReqs : List ℕ := s.doneLog.map DoneCall.req

def goto (k : ℕ) (p : CallPc) : SdifState := { s with pc := Function.update s.pc k p }

def setErr (k : ℕ) (e : MmcErr) : SdifState :=
  { s with cmds := Function.update s.cmds k { s.cmds k with error := e } }

def panic : SdifState := { s with panicked := true }

/-- What the client of request `k` finds in its buffer. -/
def buffer (k : ℕ) : List (BitVec 8) := readBuffer (s.cmds k).data s.mem

/-- `(*req->done)(req)`. -/
def callDone (k : ℕ) : SdifState :=
  { s with
    doneLog := s.doneLog ++
      [⟨k, (s.cmds k).error, (s.cmds k).resp, s.buffer k, s.errSeen k⟩] }

/-- Take the lock, if it is free. -/
def takeLock (k : ℕ) (p : CallPc) : Option SdifState :=
  if s.lock = none then some ({ s with lock := some k }.goto k p) else none

/-- Give the lock back. -/
def dropLock (k : ℕ) (p : CallPc) : SdifState := { s with lock := none }.goto k p

/-- An error path behind the store of `sc->req`. -/
def fail (k : ℕ) (e : MmcErr) (err : Option Errno) : SdifState :=
  (s.setErr k e).goto k (.unlock err)

end SdifState

variable (cfg : SdifConfig)

/-! ## `sdif_set_block_count` -/

/-- The command package of `sdif_set_block_count`. -/
def blockCountPkg (useHold : Bool) (d : MmcData) : Option CmdPkg :=
  match cfg.version with
  | .v1 => some (setBlockCountPkg cfg.masks cfg.nonRemovable useHold d)
  | .v2 => prepareCommandTransfer cfg.masks cfg.nonRemovable mmcSetBlockCount (blockCountArg d)

/-- `sdif_set_block_count`, `sdif_v2_set_block_count`. -/
def blockCountStep (k : ℕ) (ok : Bool) (s : SdifState) : BlockCountPc → Option SdifState
  | .lock => s.takeLock k (.blockCount .package)
  | .package =>
      match (s.cmds k).data.bind (blockCountPkg cfg s.useHold) with
      | none => some s.panic
      | some pkg => some ({ s with cmdPkg := pkg }.goto k (.blockCount .clrDto))
  | .clrDto => some ({ s with dtoRcvd := false }.goto k (.blockCount .clrCmdDone))
  | .clrCmdDone => some ({ s with cmdDone := false }.goto k (.blockCount .setPending))
  | .setPending => some ({ s with reqPending := true }.goto k (.blockCount .setExpect))
  | .setExpect => some ({ s with expectData := false }.goto k (.blockCount .start))
  | .start =>
      if ok then
        let hc :=
          { s.hc with started := true, cmdOwed := true, dataOwed := false, sink := none }
        some ({ s with hc := hc }.goto k (.blockCount .poll))
      else some (s.goto k (.blockCount (.exit (some .enxio))))
  | .poll =>
      -- the loop ends when `req_pending` is found clear, or has been set for too long
      if s.reqPending = ok then none
      else if ok then some (s.goto k (.blockCount .busy))
      else some (s.goto k (.blockCount (.exit (some .eio))))
  | .busy => some (s.goto k (.blockCount (.exit (if ok then none else some .ebusy))))
  | .exit err =>
      match cfg.version with
      | .v1 => some (s.goto k (.filter err))
      | .v2 => some (s.dropLock k (.filter err))

/-! ## `sdif_pre_request` -/

/-- `sdif_pre_request` calls `sdif_set_block_count`. -/
def needsBlockCount (cmd : MmcCommand) : Bool :=
  !cfg.autoStop && multiBlock cmd.opcode && cmd.data.isSome

/-- `sdif_pre_request` skips the command: it is not for an eMMC. -/
def skipped (cmd : MmcCommand) : Bool :=
  cfg.nonRemovable &&
    (cmd.opcode == acmdSdSendOpCond || cmd.opcode == mmcAppCmd ||
      cmd.opcode == sdSendIfCond && cmd.arg == 0x1aa#32 ||
      cfg.version == .v2 &&
        (cmd.opcode == mmcBustestW || cmd.opcode == mmcBustestR || cmd.opcode == mmcSetBlocklen))

/-- The end of `sdif_pre_request`, and what the request call makes of its
result. -/
def filterStep (k : ℕ) (err : Option Errno) (s : SdifState) : SdifState :=
  match if skipped cfg (s.cmds k) then some Errno.ecanceled else err, cfg.version with
  | some e, .v1 => (s.callDone k).goto k (.unlock (some e))
  | some e, .v2 => (s.callDone k).goto k (.returned (some e))
  | none, .v1 => s.goto k (.issue .setReq)
  | none, .v2 => s.goto k .mainLock

/-! ## `phytium_sdif_request` -/

/-- `sdif_polling_card_busy` at the start of a request. -/
def busyStep (k : ℕ) (ok : Bool) (s : SdifState) : SdifState :=
  if ok then s.goto k .preRequest
  else
    match cfg.version with
    | .v1 => s.goto k (.unlock (some .ebusy))
    | .v2 => s.goto k (.returned (some .enxio))

/-- The test for the block count. -/
def preRequestStep (k : ℕ) (s : SdifState) : SdifState :=
  if needsBlockCount cfg (s.cmds k) then
    match cfg.version with
    | .v1 => s.goto k (.blockCount .package)
    | .v2 => s.goto k (.blockCount .lock)
  else s.goto k (.filter none)

/-- The packages of `phytium_sdif_request`; the data package of
`phytium_sdif_v2_request`. -/
def packageStep (k : ℕ) (s : SdifState) : SdifState :=
  let cmd := s.cmds k
  match cfg.version with
  | .v1 =>
      { s with
        cmdPkg :=
          { CmdPkg.zero with
            cmdidx := cmd.opcode
            cmdarg := cmd.arg
            rawcmd := prepareRawCmd cfg.masks cfg.autoStop s.useHold s.cardNeedInit cmd
            dataP := cmd.data.isSome }
        datPkg := (cmd.data.map prepareData).getD s.datPkg
        cardNeedInit := false }.goto k (.issue .clrDto)
  | .v2 =>
      match cmd.data with
      | none => { s with cmdPkg := { s.cmdPkg with dataP := false } }.goto k (.issue .command)
      | some d =>
          match prepareDataTransfer cfg.masks cfg.nonRemovable cmd d with
          | none => s.panic
          | some pkg =>
              { s with
                datPkg := pkg
                cmdPkg := { s.cmdPkg with dataP := true } }.goto k (.issue (.dmaPrepare d))

/-- What follows `sdif_dma_prepare`. -/
def afterPrepare : IssuePc :=
  match cfg.version with
  | .v1 => .start
  | .v2 => .command

/-- The buffer a transfer of the RTEMS build uses: the client's, or the aligned
one in its place. -/
def bounceBuf (d : MmcData) : ℕ :=
  if d.data % cfg.dmaBufAligment = 0 then d.data else cfg.alignedDmaBuf

/-- The aligned buffer is filled before the transfer, if it is used. -/
def bounceMem (d : MmcData) (m : Mem) : Mem :=
  if d.data % cfg.dmaBufAligment = 0 then m
  else if d.write then memcpy m cfg.alignedDmaBuf d.data d.len
  else memset m cfg.alignedDmaBuf d.len

/-- The RTEMS half of `sdif_dma_prepare`, up to the library call. -/
def bounce (d : MmcData) (s : SdifState) : SdifState :=
  { s with
    mem := bounceMem cfg d s.mem
    datPkg := { s.datPkg with buf := bounceBuf cfg d } }

/-- `sdif_dma_prepare`. -/
def dmaPrepareStep (k : ℕ) (ok : Bool) (d : MmcData) (s : SdifState) : SdifState :=
  if cfg.rtems then
    if d.data % cfg.dmaBufAligment ≠ 0 ∧ cfg.alignedDmaBufLen < d.len then s.panic
    else
      let s := bounce cfg d s
      if ok then
        { s with hc := { s.hc with ringBuf := s.datPkg.buf } }.goto k (.issue (afterPrepare cfg))
      else s.fail k .noMemory (some .enxio)
  else if d.data = 0 then s.panic
  else if ok then
    { s with hc := { s.hc with ringBuf := d.data } }.goto k (.issue (afterPrepare cfg))
  else s.panic

/-- The command package of `phytium_sdif_v2_request`. -/
def commandStep (k : ℕ) (s : SdifState) : SdifState :=
  let cmd := s.cmds k
  match prepareCommandTransfer cfg.masks cfg.nonRemovable cmd.opcode cmd.arg with
  | none => s.panic
  | some pkg =>
      { s with cmdPkg := { pkg with dataP := s.cmdPkg.dataP } }.goto k (.issue .clrDto)

/-- What follows the four flags. -/
def afterFlags (cmd : MmcCommand) : IssuePc :=
  match cfg.version, cmd.data with
  | .v1, some d => if cfg.usesDma then .dmaPrepare d else .start
  | _, _ => .start

/-- The transfer is started. -/
def startStep (k : ℕ) (ok : Bool) (s : SdifState) : SdifState :=
  if ok then
    let data := (s.cmds k).data
    let target := if cfg.usesDma then s.hc.ringBuf else s.datPkg.buf
    let hc :=
      { s.hc with
        started := true
        cmdOwed := true
        dataOwed := data.isSome
        sink := data.bind fun d => if d.write then none else some (target, d.len) }
    { s with hc := hc }.goto k (.issue .arm)
  else
    match cfg.version with
    | .v1 => s.fail k .failed (some .enxio)
    | .v2 => s.fail k .failed none

/-- `phytium_sdif_request` from the store of `sc->req` on. -/
def issueStep (k : ℕ) (ok : Bool) (s : SdifState) : IssuePc → SdifState
  | .setReq => { s with req := some k }.goto k (.issue .setCurcmd)
  | .setCurcmd => { s with curcmd := some k }.goto k (.issue .setError)
  | .setError => (s.setErr k .none).goto k (.issue .package)
  | .package => packageStep cfg k s
  | .dmaPrepare d => dmaPrepareStep cfg k ok d s
  | .command => commandStep cfg k s
  | .clrDto => { s with dtoRcvd := false }.goto k (.issue .clrCmdDone)
  | .clrCmdDone => { s with cmdDone := false }.goto k (.issue .setPending)
  | .setPending => { s with reqPending := true }.goto k (.issue .setExpect)
  | .setExpect =>
      { s with expectData := (s.cmds k).data.isSome }.goto k (.issue (afterFlags cfg (s.cmds k)))
  | .start => startStep cfg k ok s
  | .arm => { s with callout := .armed }.goto k (.unlock none)

/-- One step of the `k`-th request call. `ok` is the outcome of the library
call or of the polling loop, where there is one. -/
def callStep (k : ℕ) (ok : Bool) (s : SdifState) : Option SdifState :=
  match s.pc k with
  | .new => none
  | .lock => s.takeLock k .busy
  | .busy => some (busyStep cfg k ok s)
  | .preRequest => some (preRequestStep cfg k s)
  | .blockCount p => blockCountStep cfg k ok s p
  | .filter err => some (filterStep cfg k err s)
  | .mainLock => s.takeLock k (.issue .setReq)
  | .issue p => some (issueStep cfg k ok s p)
  | .unlock err => some (s.dropLock k (.returned err))
  | .returned _ => none

/-! ## Event handlers -/

/-- `sdif_dma_done` follows no null pointer. -/
def dmaDoneOk (s : SdifState) (cmd : Option ℕ) : Bool :=
  cfg.rtems || cmd.any fun r => (s.cmds r).data.isSome

/-- The response `sdif_finish_command` takes. -/
def commandResponse (s : SdifState) : Option Resp :=
  match cfg.version with
  | .v1 => cfg.getCmdResponse s.cmdPkg s.hc.respRegs
  | .v2 => some s.cmdPkg.response

/-- What `sdif_finish_command` stores in `req->cmd->resp`. -/
def clientResp (version : Version) (cmd : MmcCommand) (r : Resp) : Resp :=
  if cmd.rsp136 then
    match version with
    | .v1 => ⟨r.r3, r.r2, r.r1, r.r0⟩
    | .v2 => r
  else if cmd.rspPresent then ⟨r.r0, 0#32, 0#32, 0#32⟩
  else cmd.resp

/-- The copy back to the client's buffer from the one that was used. -/
def copyMem (d : MmcData) (buf : ℕ) (m : Mem) : Mem :=
  if d.read && d.data != buf then memcpy m d.data buf d.len else m

/-- The copy back of the RTEMS build; `none` if the client's data pointer is
null. -/
def copyBack (s : SdifState) (data : Option MmcData) : Option Mem :=
  if s.expectData && cfg.rtems then data.map fun d => copyMem d s.datPkg.buf s.mem
  else some s.mem

/-- `sdif_finish_command` up to the callback. -/
def retire (r : ℕ) (response : Resp) (mem : Mem) (s : SdifState) : SdifState :=
  let cmd := s.cmds r
  { s with
    cmdPkg := { s.cmdPkg with response := response }
    cmds := Function.update s.cmds r
      { cmd with resp := clientResp cfg.version cmd response, error := .none }
    mem := mem
    req := none
    curcmd := none
    reqPending := false
    callout := if s.callout = .armed then .idle else s.callout }

/-- `sdif_finish_command`. -/
def finishCommand (s : SdifState) : SdifState :=
  match s.req with
  | none => { s with reqPending := false }
  | some r =>
      if s.reqPending then
        match commandResponse cfg s, copyBack cfg s (s.cmds r).data with
        | some response, some mem => (retire cfg r response mem s).callDone r
        | _, _ => s.panic
      else s.panic

/-- The controller and its library on `CMD_DONE`, and the first store of
`sdif_command_done`. -/
def noteCommandDone (resp : Resp) (s : SdifState) : SdifState :=
  { s with
    hc := { s.hc with cmdOwed := false, respRegs := resp }
    cmdPkg :=
      match cfg.version with
      | .v1 => s.cmdPkg
      | .v2 => { s.cmdPkg with response := resp }
    cmdDone := true }

/-- `sdif_command_done`. -/
def commandDone (resp : Resp) (s : SdifState) : SdifState :=
  if !s.expectData || s.dtoRcvd then finishCommand cfg (noteCommandDone cfg resp s)
  else noteCommandDone cfg resp s

/-- The data the controller has stored by the time it reports `DATA_DONE`. -/
def storeData (bytes : List (BitVec 8)) (s : SdifState) : Mem :=
  match s.hc.sink with
  | none => s.mem
  | some (a, n) => writeMem s.mem a (bytes.take n)

/-- The controller on `DATA_DONE`, and the first store of `sdif_data_done`. -/
def noteDataDone (bytes : List (BitVec 8)) (s : SdifState) : SdifState :=
  { s with
    hc := { s.hc with dataOwed := false }
    mem := storeData bytes s
    dtoRcvd := true }

/-- `sdif_data_done`. -/
def dataDone (bytes : List (BitVec 8)) (s : SdifState) : SdifState :=
  if cfg.usesDma && !dmaDoneOk cfg s s.curcmd then (noteDataDone bytes s).panic
  else if s.cmdDone then finishCommand cfg (noteDataDone bytes s)
  else noteDataDone bytes s

/-- The error is on record for the current request. -/
def noteError (s : SdifState) : SdifState :=
  match s.req with
  | none => s
  | some r => { s with errSeen := Function.update s.errSeen r true }

/-- `sdif_error_occurred`. -/
def errorOccurred (s : SdifState) : SdifState :=
  if s.expectData && s.curcmd.isSome && cfg.usesDma && !dmaDoneOk cfg s s.curcmd then
    (noteError s).panic
  else noteError s

/-- `FSdifRestart`, `FSdifMsgHostResetHW`: what was under way is cancelled. -/
def Controller.restart (hc : Controller) : Controller :=
  { hc with started := false, cmdOwed := false, dataOwed := false }

/-- `phytium_sdif_timeout`, called when the callout has expired, without a break. -/
def timeout (s : SdifState) : SdifState :=
  match s.curcmd, s.req with
  | none, _ => { s with callout := .idle }
  | some _, none => { s with callout := .idle }.panic
  | some _, some r =>
      if cfg.usesDma && !dmaDoneOk cfg s (some r) then { s with callout := .idle }.panic
      else
        ({ s with callout := .idle, hc := s.hc.restart }.setErr r .timeout).callDone r

/-! ## The machine -/

/-- The first statement of a request call. -/
def entry : CallPc :=
  match cfg.version with
  | .v1 => .lock
  | .v2 => .busy

/-- The client's bytes are in its buffer. -/
def fillBuffer (data : Option MmcData) (bytes : List (BitVec 8)) (m : Mem) : Mem :=
  match data with
  | none => m
  | some d => writeMem m d.data (bytes.take d.len)

/-- A client calls `phytium_sdif_request`, with the given bytes in the
buffer. -/
def submit (cmd : MmcCommand) (bytes : List (BitVec 8)) (s : SdifState) : SdifState :=
  { s with
    cmds := Function.update s.cmds s.submitted cmd
    mem := fillBuffer cmd.data bytes s.mem
    pc := Function.update s.pc s.submitted (entry cfg)
    subs := s.subs ++ [(cmd, bytes)] }

/-- What `phytium_sdif_update_ios` of `phytium_sdif.c` does to the fields a
request uses. -/
def updateIos (powerUp useHold : Bool) (s : SdifState) : SdifState :=
  { s with cardNeedInit := s.cardNeedInit || powerUp, useHold := useHold }

inductive SdifEvent where
  | submit (cmd : MmcCommand) (bytes : List (BitVec 8))
  | call (k : ℕ) (ok : Bool)
  | cmdDone (resp : Resp)
  | dataDone (bytes : List (BitVec 8))
  | errOccure
  /-- ten seconds have passed since `callout_reset` -/
  | expire
  /-- `phytium_sdif_timeout`, which runs with the lock -/
  | timeout
  | updateIos (powerUp useHold : Bool)
deriving DecidableEq

/-- One event of a driver that has not panicked. -/
def eventStep (s : SdifState) : SdifEvent → Option SdifState
  | .submit cmd bytes => some (submit cfg cmd bytes s)
  | .call k ok => callStep cfg k ok s
  | .cmdDone resp => some (commandDone cfg resp s)
  | .dataDone bytes => some (dataDone cfg bytes s)
  | .errOccure => some (errorOccurred cfg s)
  | .expire => if s.callout = .armed then some { s with callout := .expired } else none
  | .timeout => if s.callout = .expired ∧ s.lock = none then some (timeout cfg s) else none
  | .updateIos powerUp useHold =>
      if s.lock = none then some (updateIos powerUp useHold s) else none

def sdifStep (s : SdifState) (e : SdifEvent) : Option SdifState :=
  if s.panicked then none else eventStep cfg s e

/-- A command no one has submitted. -/
def noCommand : MmcCommand :=
  ⟨0#32, 0#32, false, false, false, none, ⟨0#32, 0#32, 0#32, 0#32⟩, .none⟩

/-- The driver behind `phytium_sdif_attach`. -/
def attached (mem : Mem) (cardNeedInit : Bool) : SdifState where
  req := none
  curcmd := none
  dtoRcvd := false
  cmdDone := false
  reqPending := false
  expectData := false
  cmdPkg := .zero
  datPkg := .zero
  cardNeedInit := cardNeedInit
  useHold := false
  callout := .idle
  lock := none
  hc := ⟨false, false, false, ⟨0#32, 0#32, 0#32, 0#32⟩, 0, none⟩
  mem := mem
  cmds := fun _ => noCommand
  pc := fun _ => .new
  subs := []
  errSeen := fun _ => false
  doneLog := []
  panicked := false

def sdifSystem : System SdifState SdifEvent where
  init := fun s => ∃ mem cardNeedInit, s = attached mem cardNeedInit
  step := sdifStep cfg

/-- `n` steps of the `k`-th call, in which all goes well. -/
def calls (k n : ℕ) : List SdifEvent := List.replicate n (.call k true)

/-- `READ_MULTIPLE_BLOCK` of two blocks. -/
def readTwoBlocks : MmcCommand :=
  ⟨18#32, 0#32, true, false, true, some ⟨0x2000, 1024, false, true⟩,
    ⟨0#32, 0#32, 0#32, 0#32⟩, .none⟩

end Phytium.Sdif
