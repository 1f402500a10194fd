import PhytiumSdk.Sdif.RequestSteps

/-!
# SDIF requests as a service

What the requests of a run without faults come to: `serve` takes them one after
the other, with nothing of the handshake between the driver and the controller,
and so without an order of the controller's reports. `Device` is what the card
answers.

`faultFree` is the protocol in which the driver provides the service, and
`serviceSystem` the driver in it. The stages of the request under way are
`Waiting` (before `sc->req` is set, with the internal CMD23), `Issuing` and
`Started`; between requests the driver is `Idle`.
-/

namespace Phytium.Sdif

open Lib

/-- What the card answers to the requests: the response registers, and the
data. -/
structure Device where
  resp : ℕ → Resp
  data : ℕ → List (BitVec 8)

/-- What has come of the requests so far. -/
structure Service where
  /-- v1: the next command carries the initialization sequence -/
  needInit : Bool
  useHold : Bool
  mem : Mem
  log : List DoneCall

/-- A request, and the service before it. -/
structure Job where
  before : Service
  cmd : MmcCommand
  bytes : List (BitVec 8)

variable (cfg : SdifConfig) (dev : Device)

/-! ## The way of the data -/

/-- The buffer the controller transfers from or to. -/
def transferBuf (d : MmcData) : ℕ := if cfg.usesDma && cfg.rtems then bounceBuf cfg d else d.data

/-- The memory when the transfer starts. -/
def prepareMem (data : Option MmcData) (m : Mem) : Mem :=
  match data with
  | none => m
  | some d => if cfg.usesDma && cfg.rtems then bounceMem cfg d m else m

/-- Where the controller stores what it reads. -/
def transferSink (data : Option MmcData) : Option (ℕ × ℕ) :=
  data.bind fun d => if d.write then none else some (transferBuf cfg d, d.len)

/-- The memory when the transfer has ended. -/
def receiveMem (data : Option MmcData) (bytes : List (BitVec 8)) (m : Mem) : Mem :=
  match transferSink cfg data with
  | none => m
  | some (a, n) => writeMem m a (bytes.take n)

/-- The memory when the client's buffer has been filled. -/
def deliverMem (data : Option MmcData) (m : Mem) : Mem :=
  match data with
  | none => m
  | some d => if cfg.rtems then copyMem d (transferBuf cfg d) m else m

/-! ## The service -/

namespace Job

variable (j : Job)

/-- The number of the request. -/
def num : ℕ := j.before.log.length

def filled : Mem := fillBuffer j.cmd.data j.bytes j.before.mem

def prepared : Mem := prepareMem cfg j.cmd.data j.filled

def received : Mem := receiveMem cfg j.cmd.data (dev.data j.num) (j.prepared cfg)

def delivered : Mem := deliverMem cfg j.cmd.data (j.received cfg dev)

/-- The package of the command on v1. -/
def pkg : CmdPkg :=
  { CmdPkg.zero with
    cmdidx := j.cmd.opcode
    cmdarg := j.cmd.arg
    rawcmd := prepareRawCmd cfg.masks cfg.autoStop j.before.useHold j.before.needInit j.cmd
    dataP := j.cmd.data.isSome }

/-- The response of the controller library. -/
def response : Resp :=
  match cfg.version with
  | .v1 => (cfg.getCmdResponse (j.pkg cfg) (dev.resp j.num)).getD (dev.resp j.num)
  | .v2 => dev.resp j.num

/-- What the client gets: no error, its response and its data. -/
def reply : DoneCall where
  req := j.num
  error := .none
  resp := clientResp cfg.version j.cmd (j.response cfg dev)
  buffer := readBuffer j.cmd.data (j.delivered cfg dev)
  errSeen := false

/-- The service behind the request. -/
def after : Service where
  needInit := false
  useHold := j.before.useHold
  mem := j.delivered cfg dev
  log := j.before.log ++ [j.reply cfg dev]

end Job

/-- The service of a list of requests, one after the other. -/
def serve (σ : Service) (subs : List (MmcCommand × List (BitVec 8))) : Service :=
  subs.foldl (fun σ sub => (Job.mk σ sub.1 sub.2).after cfg dev) σ

variable {cfg dev}

theorem serve_snoc (σ : Service) (subs : List (MmcCommand × List (BitVec 8)))
    (cmd : MmcCommand) (bytes : List (BitVec 8)) :
    serve cfg dev σ (subs ++ [(cmd, bytes)]) =
      (Job.mk (serve cfg dev σ subs) cmd bytes).after cfg dev := by
  simp only [serve, List.foldl_append, List.foldl_cons, List.foldl_nil]

/-- One reply for each request. -/
theorem serve_length (σ : Service) (subs : List (MmcCommand × List (BitVec 8))) :
    (serve cfg dev σ subs).log.length = σ.log.length + subs.length := by
  induction subs using List.reverseRecOn with
  | nil => rfl
  | append_singleton subs sub ih =>
      rw [serve_snoc]
      simp only [Job.after, List.length_append, ih, List.length_singleton, Nat.add_assoc]

/-- Later requests do not touch earlier replies. -/
theorem serve_log_prefix (σ : Service) (subs more : List (MmcCommand × List (BitVec 8))) :
    (serve cfg dev σ subs).log <+: (serve cfg dev σ (subs ++ more)).log := by
  induction more using List.reverseRecOn with
  | nil => simp
  | append_singleton more sub ih =>
      rw [← List.append_assoc, serve_snoc]
      exact ih.trans (List.prefix_append _ _)

/-- A reply depends on the requests up to its own, and on nothing else. -/
theorem serve_reply {σ : Service} (hσ : σ.log = []) {subs : List (MmcCommand × List (BitVec 8))}
    {k : ℕ} (hk : k < subs.length) :
    (serve cfg dev σ subs).log[k]? = (serve cfg dev σ (subs.take (k + 1))).log[k]? := by
  have hpre : (serve cfg dev σ (subs.take (k + 1))).log <+:
      (serve cfg dev σ (subs.take (k + 1) ++ subs.drop (k + 1))).log := serve_log_prefix ..
  rw [List.take_append_drop] at hpre
  have hlen : k < (serve cfg dev σ (subs.take (k + 1))).log.length := by
    rw [serve_length, hσ, List.length_take, List.length_nil]
    omega
  obtain ⟨more, hmore⟩ := hpre
  rw [← hmore, List.getElem?_append_left hlen]

/-- The replies are numbered in the order of the requests. -/
theorem serve_reqs {σ : Service} (hσ : σ.log = []) (subs : List (MmcCommand × List (BitVec 8))) :
    (serve cfg dev σ subs).log.map DoneCall.req = List.range subs.length := by
  induction subs using List.reverseRecOn with
  | nil =>
      rw [serve, List.foldl_nil, hσ]
      rfl
  | append_singleton subs sub ih =>
      have hlen : (serve cfg dev σ subs).log.length = subs.length := by
        rw [serve_length, hσ, List.length_nil, Nat.zero_add]
      rw [serve_snoc, List.length_append, List.length_singleton, List.range_succ, ← ih]
      simp only [Job.after, Job.reply, Job.num, List.map_append, List.map_cons, List.map_nil, hlen]

variable (cfg dev)

/-! ## The protocol without faults -/

/-- `sdif_dma_prepare` finds no reason to panic over the data. -/
def transferable (d : MmcData) : Bool :=
  if cfg.usesDma then
    if cfg.rtems then d.data % cfg.dmaBufAligment == 0 || d.len ≤ cfg.alignedDmaBufLen
    else d.data != 0
  else true

/-- The driver can issue the command: `sdif_pre_request` does not skip it, the
tables of v2 have it, and its data can be transferred. -/
def supported (cmd : MmcCommand) : Bool :=
  !skipped cfg cmd &&
    (cfg.version == .v1 || (prepareCommandFlags cfg.nonRemovable cmd.opcode cmd.arg).isSome) &&
    cmd.data.all (transferable cfg)

/-- The event is one of a run without faults. A request follows the previous
one's `done`; polls, preparations and starts succeed; the controller reports
what it owes, with the card's answer to the current request; and no timeout
fires. -/
def faultFree (s : SdifState) : SdifEvent → Prop
  | .submit cmd _ =>
      supported cfg cmd = true ∧ (s.submitted = 0 ∨ s.submitted - 1 ∈ s.doneReqs)
  | .call _ ok => ok = true
  | .cmdDone resp => s.hc.cmdOwed = true ∧ ∀ r ∈ s.req, resp = dev.resp r
  | .dataDone bytes => s.hc.dataOwed = true ∧ ∀ r ∈ s.req, bytes = dev.data r
  | .errOccure => False
  | .expire => False
  | .timeout => False
  | .updateIos _ _ => False

instance (s : SdifState) (e : SdifEvent) : Decidable (faultFree cfg dev s e) :=
  match e with
  | .submit _ _ => inferInstanceAs (Decidable (_ ∧ _))
  | .call _ _ => inferInstanceAs (Decidable (_ = true))
  | .cmdDone _ => inferInstanceAs (Decidable (_ ∧ ∀ r ∈ s.req, _))
  | .dataDone _ => inferInstanceAs (Decidable (_ ∧ ∀ r ∈ s.req, _))
  | .errOccure => inferInstanceAs (Decidable False)
  | .expire => inferInstanceAs (Decidable False)
  | .timeout => inferInstanceAs (Decidable False)
  | .updateIos _ _ => inferInstanceAs (Decidable False)

/-- No request is current or pending, and nothing is under way. Requests are
counted from here. -/
structure AtRest (s : SdifState) : Prop where
  req : s.req = none
  curcmd : s.curcmd = none
  pending : s.reqPending = false
  cmdOwed : s.hc.cmdOwed = false
  dataOwed : s.hc.dataOwed = false
  lock : s.lock = none
  pc : ∀ k, s.pc k = .new
  subs : s.subs = []
  errSeen : ∀ k, s.errSeen k = false
  doneLog : s.doneLog = []
  panicked : s.panicked = false

theorem atRest_attached (mem : Mem) (cardNeedInit : Bool) : AtRest (attached mem cardNeedInit) :=
  ⟨rfl, rfl, rfl, rfl, rfl, rfl, fun _ => rfl, rfl, fun _ => rfl, rfl, rfl⟩

/-- The service that starts there. -/
def serviceFrom (s : SdifState) : Service where
  needInit := s.cardNeedInit
  useHold := s.useHold
  mem := s.mem
  log := []

/-- The driver from the state `s₀` on, in the protocol without faults. -/
def serviceSystem (s₀ : SdifState) : System SdifState SdifEvent :=
  System.restrict ⟨fun s => s = s₀, sdifStep cfg⟩ (faultFree cfg dev)

/-! ## The stages of a request -/

/-- The call has started its transfer. -/
def CallPc.started : CallPc → Bool
  | .issue .arm => true
  | .unlock none => true
  | .returned none => true
  | _ => false

/-- Where a call with the command may be before it sets `sc->req`. -/
def CallPc.waits (cmd : MmcCommand) : CallPc → Bool
  | .lock => cfg.version == .v1
  | .busy => true
  | .preRequest => true
  | .blockCount .lock => needsBlockCount cfg cmd && cfg.version == .v2
  | .blockCount (.exit err) => needsBlockCount cfg cmd && err == none
  | .blockCount _ => needsBlockCount cfg cmd
  | .filter err => err == none
  | .mainLock => cfg.version == .v2
  | .issue .setReq => true
  | _ => false

/-- `req_pending` on the way through `sdif_set_block_count`; `owed` says whether
`CMD_DONE` is to come. -/
def CallPc.pending (owed : Bool) : CallPc → Bool
  | .blockCount .setExpect => true
  | .blockCount .start => true
  | .blockCount .poll => owed
  | _ => false

/-- `expect_data` has been cleared for the internal CMD23. -/
def CallPc.dataless : CallPc → Bool
  | .blockCount .start => true
  | .blockCount .poll => true
  | _ => false

/-- The call has gone past the step `q`. -/
def IssuePc.past (v : Version) (p q : IssuePc) : Bool := Nat.blt (q.rank v) (p.rank v)

/-- `sdif_dma_prepare` has run, if it runs at all. -/
def IssuePc.prepared (p : IssuePc) : Version → Bool
  | .v1 => Nat.ble 11 (p.rank .v1)
  | .v2 => Nat.ble 5 (p.rank .v2)

/-- Where the call may be when it has set `sc->req`, up to the start. -/
def IssuePc.issues (v : Version) (data : Option MmcData) : IssuePc → Prop
  | .setReq => False
  | .dmaPrepare d => data = some d ∧ cfg.usesDma = true
  | .command => v = .v2
  | .arm => False
  | _ => True

/-- What holds as long as the request has not been completed. -/
structure Pending (j : Job) (s : SdifState) : Prop where
  cmd : ∃ e, s.cmds j.num = { j.cmd with error := e }
  useHold : s.useHold = j.before.useHold
  errSeen : ∀ k, s.errSeen k = false
  panicked : s.panicked = false
  log : s.doneLog = j.before.log

/-- The call has not set `sc->req`. -/
structure Waiting (p : CallPc) (j : Job) (s : SdifState) : Prop extends Pending j s where
  pc : s.pc j.num = p
  place : p.waits cfg j.cmd = true
  req : s.req = none
  curcmd : s.curcmd = none
  pending : s.reqPending = p.pending s.hc.cmdOwed
  expect : p.dataless = true → s.expectData = false
  cmdOwed : s.hc.cmdOwed = true → p = .blockCount .poll
  dataOwed : s.hc.dataOwed = false
  needInit : cfg.version = .v1 → s.cardNeedInit = j.before.needInit
  mem : s.mem = j.filled

/-- The buffers of the controller and of `sc->data` are those of the
transfer. -/
structure Buffered (d : MmcData) (ringBuf buf : ℕ) : Prop where
  target : (if cfg.usesDma then ringBuf else buf) = transferBuf cfg d
  source : cfg.rtems = true → buf = transferBuf cfg d

/-- The call has set `sc->req` and not started the transfer. -/
structure Issuing (v : Version) (p : IssuePc) (j : Job) (s : SdifState) : Prop
    extends Pending j s where
  version : cfg.version = v
  pc : s.pc j.num = .issue p
  place : p.issues cfg v j.cmd.data
  req : s.req = some j.num
  cmdOwed : s.hc.cmdOwed = false
  dataOwed : s.hc.dataOwed = false
  curcmd : p.past v .setCurcmd = true → s.curcmd = some j.num
  dtoRcvd : p.past v .clrDto = true → s.dtoRcvd = false
  cmdDone : p.past v .clrCmdDone = true → s.cmdDone = false
  pending : p.past v .setPending = true → s.reqPending = true
  expect : p.past v .setExpect = true → s.expectData = j.cmd.data.isSome
  needInit : v = .v1 → s.cardNeedInit = (!p.past v .package && j.before.needInit)
  pkg : v = .v1 → p.past v .package = true → s.cmdPkg = j.pkg cfg
  buf : v = .v1 → p.past v .package = true → p.prepared v = false →
    ∀ d ∈ j.cmd.data, s.datPkg.buf = d.data
  buffered : p.prepared v = true → ∀ d ∈ j.cmd.data,
    Buffered cfg d s.hc.ringBuf s.datPkg.buf
  mem : s.mem = if p.prepared v then j.prepared cfg else j.filled

/-- The transfer has been started, and the controller still owes a report. -/
structure Started (j : Job) (s : SdifState) : Prop extends Pending j s where
  pc : (s.pc j.num).started = true
  req : s.req = some j.num
  curcmd : s.curcmd = some j.num
  pending : s.reqPending = true
  expect : s.expectData = j.cmd.data.isSome
  cmdDone : s.cmdDone = !s.hc.cmdOwed
  dtoRcvd : s.dtoRcvd = (j.cmd.data.isSome && !s.hc.dataOwed)
  owed : s.hc.cmdOwed = true ∨ s.hc.dataOwed = true
  dataOwed : s.hc.dataOwed = true → j.cmd.data.isSome = true
  needInit : cfg.version = .v1 → s.cardNeedInit = false
  pkg : cfg.version = .v1 → s.cmdPkg = j.pkg cfg
  resp : s.hc.cmdOwed = false → commandResponse cfg s = some (j.response cfg dev)
  buf : cfg.rtems = true → ∀ d ∈ j.cmd.data, s.datPkg.buf = transferBuf cfg d
  sink : s.hc.sink = transferSink cfg j.cmd.data
  mem : s.mem = if j.cmd.data.isSome && !s.hc.dataOwed then j.received cfg dev else j.prepared cfg

/-- No request is under way. -/
structure Idle (σ : Service) (s : SdifState) : Prop where
  req : s.req = none
  curcmd : s.curcmd = none
  pending : s.reqPending = false
  cmdOwed : s.hc.cmdOwed = false
  dataOwed : s.hc.dataOwed = false
  useHold : s.useHold = σ.useHold
  errSeen : ∀ k, s.errSeen k = false
  panicked : s.panicked = false
  needInit : cfg.version = .v1 → s.cardNeedInit = σ.needInit
  mem : s.mem = σ.mem
  log : s.doneLog = σ.log

/-- The request that was submitted last is under way. -/
inductive Stage (j : Job) (s : SdifState) : Prop
  | waiting {p : CallPc} (h : Waiting cfg p j s)
  | issuing {p : IssuePc} (h : Issuing cfg cfg.version p j s)
  | started (h : Started cfg dev j s)

/-- **What holds in a run without faults**: the driver is as far in the service
of the requests as the stage of the last one says. -/
structure ServiceInv (σ : Service) (s : SdifState) : Prop where
  calls : CallInv cfg s
  held : ∀ k, s.lock = some k → (s.pc k).locked cfg.version = true
  before : ∀ k, k + 1 < s.submitted → (s.pc k).started = true
  stage :
    Idle cfg (serve cfg dev σ s.subs) s ∧ (∀ k < s.submitted, (s.pc k).started = true) ∨
    ∃ prior cmd bytes, s.subs = prior ++ [(cmd, bytes)] ∧ supported cfg cmd = true ∧
      Stage cfg dev ⟨serve cfg dev σ prior, cmd, bytes⟩ s

end Phytium.Sdif
