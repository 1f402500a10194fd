import PhytiumSdk.Sdif.CommandTrace
import PhytiumSdk.Sdif.Service
import Mathlib.Data.List.GetD

/-!
# SDIF: the stages of a data request

One request is followed from its call to its end: `Preparing` up to the start,
`Flying` as long as the controller owes a report, `Ended`. Any step may fail, and
the driver may still hold the remains of earlier requests. Here are the steps
of the calls; the reports of the controller are in `BounceBuffer`.
-/

namespace Phytium.Sdif

open Lib

/-! ## Memory -/

@[simp] theorem length_readMem (m : Mem) (a n : ℕ) : (readMem m a n).length = n := by
  simp [readMem]

theorem getElem?_readMem (m : Mem) (a n i : ℕ) :
    (readMem m a n)[i]? = if i < n then some (m (a + i)) else none := by
  split <;> rename_i h <;> simp [readMem, h]

/-- A byte that was written. -/
theorem writeMem_inside (m : Mem) {a i : ℕ} {bs : List (BitVec 8)} (hi : i < bs.length) :
    writeMem m a bs (a + i) = bs[i] := by
  have hsub : a + i - a = i := Nat.add_sub_cancel_left ..
  rw [writeMem, if_pos (Nat.le_add_right a i), hsub, List.getD_eq_getElem _ _ hi]

/-- A byte that was not. -/
theorem writeMem_outside (m : Mem) {a x : ℕ} {bs : List (BitVec 8)}
    (h : a ≤ x → a + bs.length ≤ x) : writeMem m a bs x = m x := by
  unfold writeMem
  split
  · rename_i ha
    have hlen : bs.length ≤ x - a := by
      have := h ha
      omega
    exact List.getD_eq_default _ _ hlen
  · rfl

/-- What is written is what is read. -/
theorem readMem_writeMem (m : Mem) (a : ℕ) (bs : List (BitVec 8)) :
    readMem (writeMem m a bs) a bs.length = bs := by
  ext1 i
  rw [getElem?_readMem]
  split
  · rename_i hi
    rw [writeMem_inside m hi, List.getElem?_eq_getElem hi]
  · rename_i hi
    exact (List.getElem?_eq_none (Nat.not_lt.mp hi)).symm

theorem readMem_memcpy (m : Mem) (dst src n : ℕ) :
    readMem (memcpy m dst src n) dst n = readMem m src n := by
  have h := readMem_writeMem m dst (readMem m src n)
  rwa [length_readMem] at h

/-! ## The copies -/

section Copies

variable {cfg : SdifConfig} {d : MmcData} {m : Mem} {dev : List (BitVec 8)}

/-- The memory when the device has delivered the data of a read. -/
def deliveredMem (cfg : SdifConfig) (d : MmcData) (dev : List (BitVec 8)) (m : Mem) : Mem :=
  if d.write then bounceMem cfg d m else writeMem (bounceMem cfg d m) (bounceBuf cfg d) dev

/-- The device of a write finds the client's bytes. -/
theorem bounceMem_write (hw : d.write = true) :
    readMem (bounceMem cfg d m) (bounceBuf cfg d) d.len = readMem m d.data d.len := by
  unfold bounceMem bounceBuf
  rw [if_pos hw]
  split
  · rfl
  · exact readMem_memcpy ..

/-- The client of a read finds the device's bytes. -/
theorem copyMem_read (hr : d.read = true) (hw : d.write = false) (hdev : dev.length = d.len) :
    readMem (copyMem d (bounceBuf cfg d) (deliveredMem cfg d dev m)) d.data d.len = dev := by
  have hback : readMem (deliveredMem cfg d dev m) (bounceBuf cfg d) d.len = dev := by
    rw [deliveredMem, hw, if_neg Bool.false_ne_true, ← hdev]
    exact readMem_writeMem ..
  unfold copyMem
  split
  · rw [readMem_memcpy]
    exact hback
  · rename_i hsame
    have heq : d.data = bounceBuf cfg d := by
      simpa [hr] using hsame
    rw [heq]
    exact hback

/-- The address is neither in the client's buffer nor in the aligned one. -/
def Elsewhere (cfg : SdifConfig) (d : MmcData) (x : ℕ) : Prop :=
  (d.data ≤ x → d.data + d.len ≤ x) ∧
    (cfg.alignedDmaBuf ≤ x → cfg.alignedDmaBuf + cfg.alignedDmaBufLen ≤ x)

/-- The rest of the memory is as it was. -/
def SameElsewhere (cfg : SdifConfig) (d : MmcData) (m m' : Mem) : Prop :=
  ∀ x, Elsewhere cfg d x → m' x = m x

theorem bounceBuf_elsewhere (hlen : d.len ≤ cfg.alignedDmaBufLen) {x : ℕ}
    (hx : Elsewhere cfg d x) : bounceBuf cfg d ≤ x → bounceBuf cfg d + d.len ≤ x := by
  unfold bounceBuf
  split
  · exact hx.1
  · intro h
    have := hx.2 h
    omega

theorem bounceMem_elsewhere (hlen : d.len ≤ cfg.alignedDmaBufLen) :
    SameElsewhere cfg d m (bounceMem cfg d m) := by
  intro x hx
  unfold bounceMem
  split
  · rfl
  · rename_i ha
    have hout := bounceBuf_elsewhere hlen hx
    rw [bounceBuf, if_neg ha] at hout
    split
    · exact writeMem_outside m (by rwa [length_readMem])
    · exact writeMem_outside m (by rwa [List.length_replicate])

theorem deliveredMem_elsewhere (hlen : d.len ≤ cfg.alignedDmaBufLen)
    (hdev : dev.length = d.len) : SameElsewhere cfg d m (deliveredMem cfg d dev m) := by
  intro x hx
  unfold deliveredMem
  split
  · exact bounceMem_elsewhere hlen x hx
  · rw [writeMem_outside _ (by rw [hdev]; exact bounceBuf_elsewhere hlen hx)]
    exact bounceMem_elsewhere hlen x hx

theorem copyMem_elsewhere {buf : ℕ} : SameElsewhere cfg d m (copyMem d buf m) := by
  intro x hx
  unfold copyMem
  split
  · exact writeMem_outside m (by rw [length_readMem]; exact hx.1)
  · rfl

theorem SameElsewhere.trans {m₁ m₂ : Mem} (h : SameElsewhere cfg d m m₁)
    (h' : SameElsewhere cfg d m₁ m₂) : SameElsewhere cfg d m m₂ :=
  fun x hx => (h' x hx).trans (h x hx)

end Copies

/-! ## One request at a time -/

/-- A call that has handed its command over, or is not under way. -/
def CallPc.settled : CallPc → Bool
  | .new => true
  | .issue .arm => true
  | .unlock _ => true
  | .returned _ => true
  | _ => false

/-- The call returns an error. -/
def CallPc.turnedAway : CallPc → Bool
  | .unlock (some _) => true
  | .returned (some _) => true
  | _ => false

/-- The request `k` has just been submitted, with the data `d`: no other call
is under way, and the controller owes nothing. -/
structure Ready (cfg : SdifConfig) (k : ℕ) (d : MmcData) (s : SdifState) : Prop where
  calls : CallInv cfg s
  pc : s.pc k = entry cfg
  data : (s.cmds k).data = some d
  others : ∀ j, j ≠ k → (s.pc j).settled = true
  cmdOwed : s.hc.cmdOwed = false
  dataOwed : s.hc.dataOwed = false
  undone : k ∉ s.doneReqs

/-- Nothing is submitted in the meantime, and the controller reports what it
owes; the data it delivers is `dev`. -/
def soleRequest (dev : List (BitVec 8)) (s : SdifState) : SdifEvent → Prop
  | .submit _ _ => False
  | .cmdDone _ => s.hc.cmdOwed = true
  | .dataDone bytes => s.hc.dataOwed = true ∧ bytes = dev
  | _ => True

instance (dev : List (BitVec 8)) (s : SdifState) (e : SdifEvent) :
    Decidable (soleRequest dev s e) :=
  match e with
  | .submit _ _ => inferInstanceAs (Decidable False)
  | .call _ _ => inferInstanceAs (Decidable True)
  | .cmdDone _ => inferInstanceAs (Decidable (_ = true))
  | .dataDone _ => inferInstanceAs (Decidable (_ = true ∧ _ = dev))
  | .errOccure => inferInstanceAs (Decidable True)
  | .expire => inferInstanceAs (Decidable True)
  | .timeout => inferInstanceAs (Decidable True)
  | .updateIos _ _ => inferInstanceAs (Decidable True)

/-- The driver from the state `s₀` on, with the one request. -/
def bounceSystem (cfg : SdifConfig) (dev : List (BitVec 8)) (s₀ : SdifState) :
    System SdifState SdifEvent :=
  System.restrict ⟨fun s => s = s₀, sdifStep cfg⟩ (soleRequest dev)

/-- What transparency comes to in a state: while the transfer is under way the
device works on the buffer of the data package, and that of a write finds the
client's bytes there; the client of a read that has succeeded finds the device's
bytes; the rest of the memory is as it was; and `sdif_dma_prepare` does not
panic. -/
structure Transparent (cfg : SdifConfig) (k : ℕ) (d : MmcData) (dev : List (BitVec 8))
    (m₀ : Mem) (s : SdifState) : Prop where
  target : s.hc.dataOwed = true → s.hc.ringBuf = s.datPkg.buf
  write : s.hc.dataOwed = true → d.write = true →
    readMem s.mem s.datPkg.buf d.len = readMem m₀ d.data d.len
  read : d.read = true → d.write = false → (s.pc k).turnedAway = false →
    ∀ c ∈ s.doneLog, c.req = k → c.error = .none → c.buffer = dev
  elsewhere : SameElsewhere cfg d m₀ s.mem
  noPanic : ∀ d' ok, s.panicked = false → s.pc k = .issue (.dmaPrepare d') →
    (dmaPrepareStep cfg k ok d' s).panicked = false

/-! ## The stages of the request -/

/-- What may be known while the request is being prepared. -/
inductive Fact where
  /-- the controller owes no `CMD_DONE` -/
  | unowed
  /-- the memory is as the client left it -/
  | untouched
  /-- `sdif_dma_prepare` has run -/
  | prepared
  | pending
  /-- `req_pending` tells whether `CMD_DONE` is to come -/
  | polled
  | dataless
  | current
  | dtoClear
  | doneClear
  | expects
deriving DecidableEq

def Fact.Holds (cfg : SdifConfig) (k : ℕ) (d : MmcData) (m₀ : Mem) (s : SdifState) : Fact → Prop
  | .unowed => s.hc.cmdOwed = false
  | .untouched => s.mem = m₀
  | .prepared => s.mem = bounceMem cfg d m₀ ∧ s.datPkg.buf = bounceBuf cfg d ∧
      s.hc.ringBuf = bounceBuf cfg d
  | .pending => s.reqPending = true
  | .polled => s.hc.cmdOwed = true → s.reqPending = true
  | .dataless => s.expectData = false
  | .current => s.req = some k
  | .dtoClear => s.dtoRcvd = false
  | .doneClear => s.cmdDone = false
  | .expects => s.expectData = true

def BlockCountPc.facts : BlockCountPc → List Fact
  | .setExpect => [.unowed, .untouched, .pending]
  | .start => [.unowed, .untouched, .pending, .dataless]
  | .poll => [.untouched, .polled, .dataless]
  | .busy => [.unowed, .untouched, .dataless]
  | .exit (some _) => [.untouched, .dataless]
  | _ => [.unowed, .untouched]

def IssuePc.facts (v : Version) (p : IssuePc) : List Fact :=
  [.unowed, if p.prepared v then .prepared else .untouched] ++
    (if p.past v .setReq then [.current] else []) ++
    (if p.past v .clrDto then [.dtoClear] else []) ++
    (if p.past v .clrCmdDone then [.doneClear] else []) ++
    (if p.past v .setExpect then [.expects] else [])

def CallPc.facts (v : Version) : CallPc → List Fact
  | .blockCount p => p.facts
  | .filter (some _) => [.untouched, .dataless]
  | .issue p => p.facts v
  | _ => [.unowed, .untouched]

/-- The call has not handed its command over, nor returned. -/
def CallPc.preparing (d : MmcData) : CallPc → Bool
  | .new => false
  | .issue (.dmaPrepare d') => d' == d
  | .issue .arm => false
  | .unlock _ => false
  | .returned _ => false
  | _ => true

/-- The call has handed its command over. -/
def CallPc.flying : CallPc → Bool
  | .issue .arm => true
  | .unlock none => true
  | .returned none => true
  | _ => false

structure Preparing (cfg : SdifConfig) (k : ℕ) (d : MmcData) (m₀ : Mem) (v : Version)
    (p : CallPc) (s : SdifState) : Prop where
  pc : s.pc k = p
  place : p.preparing d = true
  data : (s.cmds k).data = some d
  dataOwed : s.hc.dataOwed = false
  undone : k ∉ s.doneReqs
  facts : ∀ f ∈ p.facts v, f.Holds cfg k d m₀ s

/-- The transfer has been started, and the controller still owes a report. -/
structure Flying (cfg : SdifConfig) (k : ℕ) (d : MmcData) (dev : List (BitVec 8)) (m₀ : Mem)
    (s : SdifState) : Prop where
  place : (s.pc k).flying = true
  data : (s.cmds k).data = some d
  req : s.req = some k
  expect : s.expectData = true
  cmdDone : s.cmdDone = !s.hc.cmdOwed
  dtoRcvd : s.dtoRcvd = !s.hc.dataOwed
  buf : s.datPkg.buf = bounceBuf cfg d
  ring : s.hc.ringBuf = bounceBuf cfg d
  sink : s.hc.sink = if d.write then none else some (bounceBuf cfg d, d.len)
  mem : s.mem = if s.hc.dataOwed then bounceMem cfg d m₀ else deliveredMem cfg d dev m₀
  undone : k ∉ s.doneReqs

/-- Nothing is to come of the request any more. -/
structure Ended (cfg : SdifConfig) (k : ℕ) (d : MmcData) (dev : List (BitVec 8)) (m₀ : Mem)
    (s : SdifState) : Prop where
  place : (s.pc k).settled = true
  dataOwed : s.hc.dataOwed = false
  stale : s.hc.cmdOwed = true → s.expectData = false ∧ s.req ≠ some k
  mem : SameElsewhere cfg d m₀ s.mem
  read : d.read = true → d.write = false → (s.pc k).turnedAway = false →
    ∀ c ∈ s.doneLog, c.req = k → c.error = .none → c.buffer = dev

inductive Phase (cfg : SdifConfig) (k : ℕ) (d : MmcData) (dev : List (BitVec 8)) (m₀ : Mem)
    (s : SdifState) : Prop
  | preparing {p : CallPc} (h : Preparing cfg k d m₀ cfg.version p s)
  | flying (h : Flying cfg k d dev m₀ s)
  | ended (h : Ended cfg k d dev m₀ s)

structure BounceInv (cfg : SdifConfig) (k : ℕ) (d : MmcData) (dev : List (BitVec 8)) (m₀ : Mem)
    (s : SdifState) : Prop where
  calls : CallInv cfg s
  others : ∀ j, j ≠ k → (s.pc j).settled = true
  phase : Phase cfg k d dev m₀ s

variable {cfg : SdifConfig} {k : ℕ} {d : MmcData} {dev : List (BitVec 8)} {m₀ : Mem}
variable {v : Version} {p q : CallPc} {s s' t : SdifState} {ok : Bool}

/-! ### What touches no transfer -/

/-- The transfer is the same. -/
def SameTransfer (s t : SdifState) : Prop :=
  ∃ pc lock callout errSeen cardNeedInit useHold panicked,
    t = { s with
      pc := pc
      lock := lock
      callout := callout
      errSeen := errSeen
      cardNeedInit := cardNeedInit
      useHold := useHold
      panicked := panicked }

theorem SameTransfer.goto (s : SdifState) (j : ℕ) (p : CallPc) : SameTransfer s (s.goto j p) :=
  ⟨_, _, _, _, _, _, _, rfl⟩

theorem SameTransfer.panic (s : SdifState) : SameTransfer s s.panic :=
  ⟨_, _, _, _, _, _, _, rfl⟩

theorem Fact.Holds.frame {f : Fact} (h : f.Holds cfg k d m₀ s) (ht : SameTransfer s t) :
    f.Holds cfg k d m₀ t := by
  obtain ⟨_, _, _, _, _, _, _, rfl⟩ := ht
  cases f <;> exact h

/-! A store to one field keeps the facts that are not about it. -/

theorem Fact.Holds.setReq {f : Fact} {r : Option ℕ} (h : f.Holds cfg k d m₀ s)
    (hf : f ≠ .current) : f.Holds cfg k d m₀ { s with req := r } := by
  cases f with
  | current => exact absurd rfl hf
  | _ => exact h

theorem Fact.Holds.setDtoRcvd {f : Fact} {b : Bool} (h : f.Holds cfg k d m₀ s)
    (hf : f ≠ .dtoClear) : f.Holds cfg k d m₀ { s with dtoRcvd := b } := by
  cases f with
  | dtoClear => exact absurd rfl hf
  | _ => exact h

theorem Fact.Holds.setCmdDone {f : Fact} {b : Bool} (h : f.Holds cfg k d m₀ s)
    (hf : f ≠ .doneClear) : f.Holds cfg k d m₀ { s with cmdDone := b } := by
  cases f with
  | doneClear => exact absurd rfl hf
  | _ => exact h

theorem Fact.Holds.setPending {f : Fact} (h : f.Holds cfg k d m₀ s) :
    f.Holds cfg k d m₀ { s with reqPending := true } := by
  cases f with
  | pending => rfl
  | polled => exact fun _ => rfl
  | _ => exact h

theorem Fact.Holds.setExpect {f : Fact} {b : Bool} (h : f.Holds cfg k d m₀ s)
    (hf : f ≠ .dataless) (hf' : f ≠ .expects) :
    f.Holds cfg k d m₀ { s with expectData := b } := by
  cases f with
  | dataless => exact absurd rfl hf
  | expects => exact absurd rfl hf'
  | _ => exact h

theorem Fact.Holds.setDatPkg {f : Fact} {cmdPkg : CmdPkg} {datPkg : DatPkg} {need : Bool}
    (h : f.Holds cfg k d m₀ s) (hf : f ≠ .prepared) :
    f.Holds cfg k d m₀ { s with cmdPkg := cmdPkg, datPkg := datPkg, cardNeedInit := need } := by
  cases f with
  | prepared => exact absurd rfl hf
  | _ => exact h

theorem Fact.Holds.setBounce {f : Fact} {mem : Mem} {datPkg : DatPkg} {ringBuf : ℕ}
    (h : f.Holds cfg k d m₀ s) (hf : f ≠ .prepared) (hf' : f ≠ .untouched) :
    f.Holds cfg k d m₀
      { s with mem := mem, datPkg := datPkg, hc := { s.hc with ringBuf := ringBuf } } := by
  cases f with
  | prepared => exact absurd rfl hf
  | untouched => exact absurd rfl hf'
  | _ => exact h

theorem Preparing.frame (h : Preparing cfg k d m₀ v p s) (ht : SameTransfer s t)
    (hpc : t.pc k = p) : Preparing cfg k d m₀ v p t := by
  have hfacts := fun f hf => (h.facts f hf).frame ht
  obtain ⟨_, _, _, _, _, _, _, rfl⟩ := ht
  exact ⟨hpc, h.place, h.data, h.dataOwed, h.undone, hfacts⟩

theorem Flying.frame (h : Flying cfg k d dev m₀ s) (ht : SameTransfer s t)
    (hpc : (t.pc k).flying = true) : Flying cfg k d dev m₀ t := by
  obtain ⟨_, _, _, _, _, _, _, rfl⟩ := ht
  exact ⟨hpc, h.data, h.req, h.expect, h.cmdDone, h.dtoRcvd, h.buf, h.ring, h.sink, h.mem,
    h.undone⟩

theorem Ended.frame (h : Ended cfg k d dev m₀ s) (ht : SameTransfer s t)
    (hpc : (t.pc k).settled = true)
    (haway : (t.pc k).turnedAway = (s.pc k).turnedAway) : Ended cfg k d dev m₀ t := by
  have hread := h.read
  obtain ⟨_, _, _, _, _, _, _, rfl⟩ := ht
  rw [← haway] at hread
  exact ⟨hpc, h.dataOwed, h.stale, h.mem, hread⟩

theorem Phase.frame (h : Phase cfg k d dev m₀ s) (ht : SameTransfer s t)
    (hpc : t.pc k = s.pc k) : Phase cfg k d dev m₀ t := by
  rcases h with h | h | h
  · exact .preparing (h.frame ht (hpc.trans h.pc))
  · exact .flying (h.frame ht (hpc ▸ h.place))
  · exact .ended (h.frame ht (hpc ▸ h.place) (by rw [hpc]))

/-! ### The steps of the call, up to the start -/

/-- A step from one position to another. Facts are new, or kept. -/
theorem Preparing.step (h : Preparing cfg k d m₀ v p s) (added : List Fact)
    (hplace : q.preparing d = true)
    (hcheck : (q.facts v).all (fun f => added.contains f || (p.facts v).contains f) = true)
    (hadded : ∀ f ∈ added, f.Holds cfg k d m₀ t)
    (hkept : ∀ f ∈ q.facts v, f ∉ added → f.Holds cfg k d m₀ s → f.Holds cfg k d m₀ t)
    (hcmds : (t.cmds k).data = (s.cmds k).data) (howed : t.hc.dataOwed = s.hc.dataOwed)
    (hlog : t.doneLog = s.doneLog) : Preparing cfg k d m₀ v q (t.goto k q) := by
  refine ⟨goto_pc t k q, hplace, hcmds.trans h.data, howed.trans h.dataOwed, ?_, ?_⟩
  · have hundone := h.undone
    unfold SdifState.doneReqs at hundone ⊢
    rwa [← hlog] at hundone
  · intro f hf
    have hone := List.all_eq_true.mp hcheck f hf
    rw [Bool.or_eq_true, List.contains_iff_mem, List.contains_iff_mem] at hone
    refine Fact.Holds.frame ?_ (.goto t k q)
    by_cases hnew : f ∈ added
    · exact hadded f hnew
    · exact hkept f hf hnew (h.facts f (hone.resolve_left hnew))

/-- A step that gives no new fact. -/
theorem Preparing.advance (h : Preparing cfg k d m₀ v p s) (hplace : q.preparing d = true)
    (hcheck : (q.facts v).all (fun f => (p.facts v).contains f) = true)
    (hkept : ∀ f ∈ q.facts v, f.Holds cfg k d m₀ s → f.Holds cfg k d m₀ t)
    (hcmds : (t.cmds k).data = (s.cmds k).data) (howed : t.hc.dataOwed = s.hc.dataOwed)
    (hlog : t.doneLog = s.doneLog) : Preparing cfg k d m₀ v q (t.goto k q) :=
  h.step [] hplace (by simpa using hcheck) (fun _ hf => absurd hf List.not_mem_nil)
    (fun f hf _ hs => hkept f hf hs) hcmds howed hlog

/-- A step that moves on and leaves the transfer alone. -/
theorem Preparing.move (h : Preparing cfg k d m₀ v p s) (ht : SameTransfer s t)
    (hplace : q.preparing d = true)
    (hcheck : (q.facts v).all (fun f => (p.facts v).contains f) = true) :
    Preparing cfg k d m₀ v q (t.goto k q) := by
  have hsame := ht
  obtain ⟨_, _, _, _, _, _, _, rfl⟩ := ht
  exact h.advance hplace hcheck (fun _ _ hf => hf.frame hsame) rfl rfl rfl

/-- A call that ends before the start. -/
theorem Preparing.ended (h : Preparing cfg k d m₀ v p s) (hq : (t.pc k).settled = true)
    (howed : t.hc = s.hc)
    (hstale : s.hc.cmdOwed = true → t.expectData = false ∧ t.req ≠ some k)
    (hmem : SameElsewhere cfg d m₀ t.mem) (hlog : t.doneLog = s.doneLog) :
    Ended cfg k d dev m₀ t := by
  refine ⟨hq, ?_, ?_, hmem, ?_⟩
  · rw [howed]
    exact h.dataOwed
  · rw [howed]
    exact hstale
  · rintro - - - c hc hk -
    rw [hlog] at hc
    exact absurd (List.mem_map.mpr ⟨c, hc, hk⟩) h.undone

theorem Preparing.blockCount {b : BlockCountPc} (h : Preparing cfg k d m₀ v (.blockCount b) s)
    (hs : blockCountStep cfg k ok s b = some s') : ∃ q, Preparing cfg k d m₀ v q s' := by
  cases b with
  | lock =>
      obtain ⟨-, ht⟩ := Option.ite_none_right_eq_some.mp hs
      cases ht
      exact ⟨_, h.move (t := { s with lock := some k }) ⟨_, _, _, _, _, _, _, rfl⟩ rfl rfl⟩
  | package =>
      dsimp only [blockCountStep] at hs
      split at hs
      · cases hs
        exact ⟨_, h.frame (.panic s) h.pc⟩
      · rename_i pkg _
        cases hs
        refine ⟨_, h.advance (t := { s with cmdPkg := pkg }) rfl rfl ?_ rfl rfl rfl⟩
        intro f _ hf
        cases f <;> exact hf
  | clrDto =>
      cases hs
      refine ⟨_, h.step (t := { s with dtoRcvd := false }) [.dtoClear] rfl rfl ?_ ?_ rfl rfl rfl⟩
      · simp [Fact.Holds]
      · exact fun f _ hnew hf => hf.setDtoRcvd (List.ne_of_not_mem_cons hnew)
  | clrCmdDone =>
      cases hs
      refine ⟨_, h.step (t := { s with cmdDone := false }) [.doneClear] rfl rfl ?_ ?_ rfl rfl rfl⟩
      · simp [Fact.Holds]
      · exact fun f _ hnew hf => hf.setCmdDone (List.ne_of_not_mem_cons hnew)
  | setPending =>
      cases hs
      refine ⟨_, h.step (t := { s with reqPending := true }) [.pending] rfl rfl ?_ ?_ rfl rfl rfl⟩
      · simp [Fact.Holds]
      · exact fun f _ _ hf => hf.setPending
  | setExpect =>
      cases hs
      refine ⟨_, h.step (t := { s with expectData := false }) [.dataless] rfl rfl ?_ ?_
        rfl rfl rfl⟩
      · simp [Fact.Holds]
      · intro f hq hnew hf
        refine hf.setExpect (List.ne_of_not_mem_cons hnew) ?_
        rintro rfl
        simp [CallPc.facts, BlockCountPc.facts] at hq
  | start =>
      dsimp only [blockCountStep] at hs
      have hpending : s.reqPending = true := h.facts .pending (by simp [CallPc.facts,
        BlockCountPc.facts])
      cases ok with
      | false =>
          cases hs
          exact ⟨_, h.move (t := s) ⟨_, _, _, _, _, _, _, rfl⟩ rfl rfl⟩
      | true =>
          cases hs
          refine ⟨_, h.step (t := { s with hc := { s.hc with
            started := true, cmdOwed := true, dataOwed := false, sink := none } })
            [.polled] rfl rfl ?_ ?_ rfl h.dataOwed.symm rfl⟩
          · simp [Fact.Holds, hpending]
          · intro f hq hnew hf
            -- of the facts kept only the one about `CMD_DONE` is on this store
            cases f with
            | unowed => simp [CallPc.facts, BlockCountPc.facts] at hq
            | polled => exact absurd List.mem_cons_self hnew
            | _ => exact hf
  | poll =>
      dsimp only [blockCountStep] at hs
      have hpolled : s.hc.cmdOwed = true → s.reqPending = true := h.facts .polled
        (by simp [CallPc.facts, BlockCountPc.facts])
      split at hs
      · cases hs
      · rename_i hne
        cases ok with
        | false =>
            cases hs
            exact ⟨_, h.move (t := s) ⟨_, _, _, _, _, _, _, rfl⟩ rfl rfl⟩
        | true =>
            cases hs
            refine ⟨_, h.step (t := s) [.unowed] rfl rfl ?_ (fun f _ _ hf => hf) rfl rfl rfl⟩
            intro f hf
            obtain rfl := List.mem_singleton.mp hf
            by_contra howed
            exact hne (hpolled ((Bool.not_eq_false _).mp howed))
  | busy =>
      cases hs
      cases ok with
      | false => exact ⟨_, h.move (t := s) ⟨_, _, _, _, _, _, _, rfl⟩ rfl rfl⟩
      | true => exact ⟨_, h.move (t := s) ⟨_, _, _, _, _, _, _, rfl⟩ rfl rfl⟩
  | exit err =>
      dsimp only [blockCountStep] at hs
      have hcheck : ((CallPc.filter err).facts v).all
          (fun f => ((CallPc.blockCount (.exit err)).facts v).contains f) = true := by
        cases err <;> rfl
      split at hs
      · cases hs
        exact ⟨_, h.move (t := s) ⟨_, _, _, _, _, _, _, rfl⟩ rfl hcheck⟩
      · cases hs
        exact ⟨_, h.move (t := { s with lock := none }) ⟨_, _, _, _, _, _, _, rfl⟩ rfl hcheck⟩

/-- What `CMD23` may still be owed does no harm to the request. -/
theorem Preparing.stale (h : Preparing cfg k d m₀ cfg.version p s) (hc : CallInv cfg s)
    (hfacts : .unowed ∈ p.facts cfg.version ∨ .dataless ∈ p.facts cfg.version ∧ p.fresh = true)
    (howed : s.hc.cmdOwed = true) : s.expectData = false ∧ s.req ≠ some k := by
  rcases hfacts with hun | ⟨hdata, hfresh⟩
  · have hno : s.hc.cmdOwed = false := h.facts .unowed hun
    rw [howed] at hno
    cases hno
  · refine ⟨h.facts .dataless hdata, ?_⟩
    intro hreq
    have hcur := hc.current k hreq
    rw [h.pc, hfresh] at hcur
    cases hcur

/-- `sdif_pre_request` has turned the request away. -/
theorem Preparing.turnAway (h : Preparing cfg k d m₀ v p s) (hq : q.settled = true)
    (haway : q.turnedAway = true) (hmem : s.mem = m₀)
    (hstale : s.hc.cmdOwed = true → s.expectData = false ∧ s.req ≠ some k) :
    Ended cfg k d dev m₀ ((s.callDone k).goto k q) := by
  refine ⟨?_, h.dataOwed, hstale, ?_, ?_⟩
  · rw [goto_pc]
    exact hq
  · intro x _
    exact congrFun hmem x
  · intro _ _ hn
    rw [goto_pc, haway] at hn
    cases hn

theorem Preparing.filter {err : Option Errno}
    (h : Preparing cfg k d m₀ cfg.version (.filter err) s) (hc : CallInv cfg s) :
    Phase cfg k d dev m₀ (filterStep cfg k err s) := by
  have hmem : s.mem = m₀ := by
    cases err with
    | none => exact h.facts .untouched (by simp [CallPc.facts])
    | some e => exact h.facts .untouched (by simp [CallPc.facts])
  have hstale := h.stale hc (by
    cases err with
    | none => exact Or.inl (by simp [CallPc.facts])
    | some e => exact Or.inr ⟨by simp [CallPc.facts], rfl⟩)
  unfold filterStep
  split <;> rename_i hres hv
  · exact .ended (h.turnAway rfl rfl hmem hstale)
  · exact .ended (h.turnAway rfl rfl hmem hstale)
  · split at hres
    · cases hres
    · subst hres
      rw [hv] at h
      have hnext : Preparing cfg k d m₀ .v1 (.issue .setReq) (s.goto k (.issue .setReq)) :=
        h.move ⟨_, _, _, _, _, _, _, rfl⟩ rfl rfl
      rw [← hv] at hnext
      exact .preparing hnext
  · split at hres
    · cases hres
    · subst hres
      rw [hv] at h
      have hnext : Preparing cfg k d m₀ .v2 .mainLock (s.goto k .mainLock) :=
        h.move ⟨_, _, _, _, _, _, _, rfl⟩ rfl rfl
      rw [← hv] at hnext
      exact .preparing hnext

/-- A step of `phytium_sdif_request` that gives one more fact. -/
theorem Preparing.issueSet {b c : IssuePc} (h : Preparing cfg k d m₀ v (.issue b) s)
    (added : List Fact) (hplace : (CallPc.issue c).preparing d = true)
    (hcheck : (c.facts v).all (fun f => added.contains f || (b.facts v).contains f) = true)
    (hadded : ∀ f ∈ added, f.Holds cfg k d m₀ t)
    (hkept : ∀ f ∈ c.facts v, f ∉ added → f.Holds cfg k d m₀ s → f.Holds cfg k d m₀ t)
    (hcmds : (t.cmds k).data = (s.cmds k).data) (hhc : t.hc.dataOwed = s.hc.dataOwed)
    (hlog : t.doneLog = s.doneLog) : ∃ q, Preparing cfg k d m₀ v q (t.goto k (.issue c)) :=
  ⟨_, h.step added hplace hcheck hadded hkept hcmds hhc hlog⟩

/-- Behind `sdif_pre_request` nothing rests on `expect_data` being clear. -/
theorem issue_facts_dataless (v : Version) (c : IssuePc) : Fact.dataless ∉ c.facts v := by
  simp only [IssuePc.facts]
  repeat' split
  all_goals simp

theorem issue_facts_prepared {v : Version} {c : IssuePc} (hc : c.prepared v = false) :
    Fact.prepared ∉ c.facts v := by
  simp only [IssuePc.facts, hc, Bool.false_eq_true, if_false]
  repeat' split
  all_goals simp

theorem issue_facts_untouched {v : Version} {c : IssuePc} (hc : c.prepared v = true) :
    Fact.untouched ∉ c.facts v := by
  simp only [IssuePc.facts, hc, if_true]
  repeat' split
  all_goals simp

theorem Preparing.package (h : Preparing cfg k d m₀ cfg.version (.issue .package) s) :
    ∃ q, Preparing cfg k d m₀ cfg.version q (packageStep cfg k s) := by
  unfold packageStep
  dsimp only
  have hdata := h.data
  cases hv : cfg.version with
  | v1 =>
      rw [hv] at h
      refine ⟨_, h.advance rfl rfl ?_ rfl rfl rfl⟩
      intro f hq hf
      refine hf.setDatPkg ?_
      rintro rfl
      exact issue_facts_prepared rfl hq
  | v2 =>
      rw [hv] at h
      dsimp only
      rw [hdata]
      dsimp only
      split
      · exact ⟨_, h.frame (.panic s) h.pc⟩
      · refine ⟨_, h.advance (by simp [CallPc.preparing]) rfl ?_ rfl rfl rfl⟩
        intro f hq hf
        refine hf.setDatPkg ?_
        rintro rfl
        exact issue_facts_prepared rfl hq

theorem Preparing.command (h : Preparing cfg k d m₀ v (.issue .command) s) :
    ∃ q, Preparing cfg k d m₀ v q (commandStep cfg k s) := by
  rcases commandStep_cases cfg k s with ⟨-, hstep⟩ | ⟨pkg, -, hstep⟩
  · rw [hstep]
    exact ⟨_, h.frame (.panic s) h.pc⟩
  · rw [hstep]
    refine ⟨_, h.advance rfl (by cases v <;> rfl) ?_ rfl rfl rfl⟩
    intro f _ hf
    cases f <;> exact hf

/-- `sdif_dma_prepare` finds room, and fills the buffer it chooses. -/
theorem Preparing.dmaPrepare {d' : MmcData} (hr : cfg.rtems = true)
    (hlen : d.len ≤ cfg.alignedDmaBufLen)
    (h : Preparing cfg k d m₀ cfg.version (.issue (.dmaPrepare d')) s) :
    Phase cfg k d dev m₀ (dmaPrepareStep cfg k ok d' s) := by
  have hd : d' = d := by simpa [CallPc.preparing] using h.place
  subst hd
  have hun : s.hc.cmdOwed = false := h.facts .unowed (by simp [CallPc.facts, IssuePc.facts])
  have hmem : s.mem = m₀ := h.facts .untouched (by
    cases cfg.version <;> simp [CallPc.facts, IssuePc.facts, IssuePc.prepared, IssuePc.rank])
  unfold dmaPrepareStep
  rw [if_pos hr, if_neg (fun hbig => absurd hbig.2 (Nat.not_lt.mpr hlen))]
  cases ok with
  | false =>
      refine .ended (h.ended ?_ rfl ?_ ?_ rfl)
      · exact congrArg CallPc.settled (goto_pc ..)
      · intro howed
        rw [hun] at howed
        cases howed
      · change SameElsewhere cfg d' m₀ (bounceMem cfg d' s.mem)
        rw [hmem]
        exact bounceMem_elsewhere hlen
  | true =>
      have hnew : ∀ f ∈ [Fact.prepared], f.Holds cfg k d' m₀
          { bounce cfg d' s with hc := { s.hc with ringBuf := bounceBuf cfg d' } } := by
        intro f hf
        obtain rfl := List.mem_singleton.mp hf
        exact ⟨congrArg (bounceMem cfg d') hmem, rfl, rfl⟩
      have hkept : ∀ (v : Version) (c : IssuePc), c.prepared v = true → ∀ f ∈ c.facts v,
          f ∉ [Fact.prepared] → f.Holds cfg k d' m₀ s → f.Holds cfg k d' m₀
            { bounce cfg d' s with hc := { s.hc with ringBuf := bounceBuf cfg d' } } := by
        intro v c hc f hq hadded hf
        refine hf.setBounce (List.ne_of_not_mem_cons hadded) ?_
        rintro rfl
        exact issue_facts_untouched hc hq
      have hnext : ∃ q, Preparing cfg k d' m₀ cfg.version q
          (({ bounce cfg d' s with hc := { s.hc with ringBuf := bounceBuf cfg d' } }).goto k
            (.issue (afterPrepare cfg))) := by
        unfold afterPrepare
        cases hv : cfg.version with
        | v1 =>
            rw [hv] at h
            exact h.issueSet [.prepared] rfl rfl hnew (hkept .v1 _ rfl) rfl rfl rfl
        | v2 =>
            rw [hv] at h
            exact h.issueSet [.prepared] rfl rfl hnew (hkept .v2 _ rfl) rfl rfl rfl
      obtain ⟨q, hq⟩ := hnext
      exact .preparing hq

theorem Preparing.setExpect (hd : cfg.usesDma = true)
    (h : Preparing cfg k d m₀ cfg.version (.issue .setExpect) s) :
    ∃ q, Preparing cfg k d m₀ cfg.version q (issueStep cfg k ok s .setExpect) := by
  have hdata := h.data
  have hnew : ∀ f ∈ [Fact.expects], f.Holds cfg k d m₀ { s with expectData := true } := by
    simp [Fact.Holds]
  have hkept : ∀ (v : Version) (c : IssuePc), ∀ f ∈ c.facts v, f ∉ [Fact.expects] →
      f.Holds cfg k d m₀ s → f.Holds cfg k d m₀ { s with expectData := true } := by
    intro v c f hq hadded hf
    refine hf.setExpect ?_ (List.ne_of_not_mem_cons hadded)
    rintro rfl
    exact issue_facts_dataless v c hq
  dsimp only [issueStep, afterFlags]
  rw [hdata]
  cases hv : cfg.version with
  | v1 =>
      rw [hv] at h
      dsimp only
      rw [if_pos hd]
      exact h.issueSet [.expects] (by simp [CallPc.preparing]) rfl hnew (hkept .v1 _) rfl rfl rfl
  | v2 =>
      rw [hv] at h
      exact h.issueSet [.expects] rfl rfl hnew (hkept .v2 _) rfl rfl rfl

theorem start_facts (v : Version) :
    ∀ f ∈ [Fact.unowed, .prepared, .current, .dtoClear, .doneClear, .expects],
      f ∈ (CallPc.issue .start).facts v := by
  cases v <;> decide

/-- The transfer is started, or the call ends. -/
theorem Preparing.start (hd : cfg.usesDma = true) (hlen : d.len ≤ cfg.alignedDmaBufLen)
    (h : Preparing cfg k d m₀ cfg.version (.issue .start) s) :
    Phase cfg k d dev m₀ (startStep cfg k ok s) := by
  have hfacts := fun f hf => h.facts f (start_facts cfg.version f hf)
  have hun : s.hc.cmdOwed = false := hfacts .unowed (by decide)
  obtain ⟨hmem, hbuf, hring⟩ : Fact.prepared.Holds cfg k d m₀ s := hfacts .prepared (by decide)
  have hreq : s.req = some k := hfacts .current (by decide)
  have hdto : s.dtoRcvd = false := hfacts .dtoClear (by decide)
  have hdone : s.cmdDone = false := hfacts .doneClear (by decide)
  have hexp : s.expectData = true := hfacts .expects (by decide)
  have hdata := h.data
  have hend : ∀ err : Option Errno, Ended cfg k d dev m₀ (s.fail k .failed err) := by
    intro err
    refine h.ended ?_ rfl ?_ ?_ rfl
    · exact congrArg CallPc.settled (goto_pc ..)
    · intro howed
      rw [hun] at howed
      cases howed
    · change SameElsewhere cfg d m₀ s.mem
      rw [hmem]
      exact bounceMem_elsewhere hlen
  unfold startStep
  cases ok with
  | false =>
      rw [if_neg Bool.false_ne_true]
      split
      · exact .ended (hend _)
      · exact .ended (hend _)
  | true =>
      rw [if_pos rfl]
      dsimp only
      rw [hdata]
      refine .flying ⟨?_, hdata, hreq, hexp, hdone, hdto, hbuf, hring, ?_, hmem, h.undone⟩
      · exact congrArg CallPc.flying (goto_pc ..)
      · change (if d.write then none else some (if cfg.usesDma then s.hc.ringBuf else
          s.datPkg.buf, d.len)) = _
        rw [if_pos hd, hring]

theorem Preparing.issue {b : IssuePc} (hr : cfg.rtems = true) (hd : cfg.usesDma = true)
    (hlen : d.len ≤ cfg.alignedDmaBufLen)
    (h : Preparing cfg k d m₀ cfg.version (.issue b) s) :
    Phase cfg k d dev m₀ (issueStep cfg k ok s b) := by
  have hphase : (∃ q, Preparing cfg k d m₀ cfg.version q (issueStep cfg k ok s b)) →
      Phase cfg k d dev m₀ (issueStep cfg k ok s b) := fun ⟨_, hq⟩ => .preparing hq
  cases b with
  | setReq =>
      refine hphase (h.issueSet [.current] rfl (by cases cfg.version <;> rfl) ?_ ?_ rfl rfl rfl)
      · simp [Fact.Holds]
      · exact fun f _ hadded hf => hf.setReq (List.ne_of_not_mem_cons hadded)
  | setCurcmd =>
      refine hphase ⟨_, h.advance rfl (by cases cfg.version <;> rfl) ?_ rfl rfl rfl⟩
      intro f _ hf
      cases f <;> exact hf
  | setError =>
      refine hphase ⟨_, h.advance rfl (by cases cfg.version <;> rfl) ?_ ?_ rfl rfl⟩
      · intro f _ hf
        cases f <;> exact hf
      · simp [SdifState.setErr]
  | package => exact hphase h.package
  | dmaPrepare d' => exact h.dmaPrepare hr hlen
  | command => exact hphase h.command
  | clrDto =>
      refine hphase (h.issueSet [.dtoClear] rfl (by cases cfg.version <;> rfl) ?_ ?_ rfl rfl rfl)
      · simp [Fact.Holds]
      · exact fun f _ hadded hf => hf.setDtoRcvd (List.ne_of_not_mem_cons hadded)
  | clrCmdDone =>
      refine hphase (h.issueSet [.doneClear] rfl (by cases cfg.version <;> rfl) ?_ ?_ rfl rfl rfl)
      · simp [Fact.Holds]
      · exact fun f _ hadded hf => hf.setCmdDone (List.ne_of_not_mem_cons hadded)
  | setPending =>
      exact hphase ⟨_, h.advance rfl (by cases cfg.version <;> rfl) (fun f _ hf => hf.setPending)
        rfl rfl rfl⟩
  | setExpect => exact hphase (h.setExpect hd)
  | start => exact h.start hd hlen
  | arm => exact absurd h.place Bool.false_ne_true

/-- **A step of the call, up to the start.** -/
theorem Preparing.callStep (hr : cfg.rtems = true) (hd : cfg.usesDma = true)
    (hlen : d.len ≤ cfg.alignedDmaBufLen) (hc : CallInv cfg s)
    (h : Preparing cfg k d m₀ cfg.version p s) (hs : callStep cfg k ok s = some s') :
    Phase cfg k d dev m₀ s' := by
  have hend : ∀ {q : CallPc}, q.settled = true → .unowed ∈ p.facts cfg.version →
      .untouched ∈ p.facts cfg.version → Ended cfg k d dev m₀ (s.goto k q) := by
    intro q hq hun hmem
    refine h.ended ?_ rfl (h.stale hc (Or.inl hun)) ?_ rfl
    · rwa [goto_pc]
    · intro x _
      exact congrFun (h.facts .untouched hmem) x
  unfold Sdif.callStep at hs
  rw [h.pc] at hs
  cases p with
  | new => cases hs
  | lock =>
      obtain ⟨-, ht⟩ := Option.ite_none_right_eq_some.mp hs
      cases ht
      exact .preparing (h.move (t := { s with lock := some k }) ⟨_, _, _, _, _, _, _, rfl⟩ rfl rfl)
  | busy =>
      cases hs
      unfold busyStep
      split
      · exact .preparing (h.move (t := s) ⟨_, _, _, _, _, _, _, rfl⟩ rfl rfl)
      · split <;> exact .ended (hend rfl (by simp [CallPc.facts]) (by simp [CallPc.facts]))
  | preRequest =>
      cases hs
      unfold preRequestStep
      split
      · split
        · exact .preparing (h.move (t := s) ⟨_, _, _, _, _, _, _, rfl⟩ rfl rfl)
        · exact .preparing (h.move (t := s) ⟨_, _, _, _, _, _, _, rfl⟩ rfl rfl)
      · exact .preparing (h.move (t := s) ⟨_, _, _, _, _, _, _, rfl⟩ rfl rfl)
  | blockCount b =>
      obtain ⟨q, hq⟩ := h.blockCount hs
      exact .preparing hq
  | filter err =>
      cases hs
      exact h.filter hc
  | mainLock =>
      obtain ⟨-, ht⟩ := Option.ite_none_right_eq_some.mp hs
      cases ht
      exact .preparing (h.move (t := { s with lock := some k }) ⟨_, _, _, _, _, _, _, rfl⟩ rfl
        (by cases cfg.version <;> rfl))
  | issue b =>
      cases hs
      exact h.issue hr hd hlen
  | unlock err => exact absurd h.place Bool.false_ne_true
  | returned err => cases hs

/-! ### The steps of the call, behind the start, and of the other calls -/

theorem settled_step {j : ℕ} (hj : (s.pc j).settled = true)
    (hs : callStep cfg j ok s = some s') :
    SameTransfer s s' ∧ (s'.pc j).settled = true ∧
      (s'.pc j).turnedAway = (s.pc j).turnedAway ∧ (s'.pc j).flying = (s.pc j).flying := by
  unfold callStep at hs
  split at hs <;> rename_i hpc <;> rw [hpc] at hj
  · cases hs
  · cases hj
  · cases hj
  · cases hj
  · cases hj
  · cases hj
  · cases hj
  · rename_i b
    cases b with
    | arm =>
        cases hs
        refine ⟨⟨_, _, _, _, _, _, _, rfl⟩, ?_⟩
        simp only [issueStep, goto_pc, hpc]
        exact ⟨rfl, rfl, rfl⟩
    | _ => cases hj
  · rename_i err
    cases hs
    refine ⟨⟨_, _, _, _, _, _, _, rfl⟩, ?_⟩
    simp only [SdifState.dropLock, goto_pc, hpc]
    cases err <;> exact ⟨rfl, rfl, rfl⟩
  · cases hs

theorem CallPc.flying_settled (h : p.flying = true) : p.settled = true := by
  cases p with
  | issue b => cases b <;> first | rfl | cases h
  | unlock err => rfl
  | returned err => rfl
  | _ => cases h

/-- **A step of a call** finds the request at the same stage, or moves it on. -/
theorem Phase.callStep {j : ℕ} (hr : cfg.rtems = true) (hd : cfg.usesDma = true)
    (hlen : d.len ≤ cfg.alignedDmaBufLen) (hc : CallInv cfg s)
    (hothers : ∀ i, i ≠ k → (s.pc i).settled = true) (h : Phase cfg k d dev m₀ s)
    (hs : callStep cfg j ok s = some s') : Phase cfg k d dev m₀ s' := by
  by_cases hj : j = k
  · subst hj
    rcases h with h | h | h
    · exact h.callStep hr hd hlen hc hs
    · obtain ⟨ht, -, -, hfly⟩ := settled_step (CallPc.flying_settled h.place) hs
      exact .flying (h.frame ht (hfly.trans h.place))
    · obtain ⟨ht, hset, haway, -⟩ := settled_step h.place hs
      exact .ended (h.frame ht hset haway)
  · obtain ⟨ht, -⟩ := settled_step (hothers j hj) hs
    exact h.frame ht ((callStep_spec hs).others k (Ne.symm hj))

end Phytium.Sdif
