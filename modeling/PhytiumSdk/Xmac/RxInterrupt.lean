import PhytiumSdk.Xmac.RxInvariant
import PhytiumSdk.Xmac.Transmit

/-!
# The receive interrupt

The interrupt handler with its accesses to the status register and the receive
ring, one a step, so that a frame can arrive between any two of them. A frame
sets `NEW` in its descriptor and `RXCOMP` in the status; the handler writes the
bits it has read back, which clears them, and looks at the ring after that. So
a frame the scan does not see has set `RXCOMP` again.

`phytium_xmac_v2.c` writes `RXCOMP` a second time, behind `recv`, and with it
clears the bit of a frame that has arrived since the scan. `phytium_xmac.c` has
no second write. `clean_tx` and `start_locked`, which the handler also calls,
use neither the status nor the receive ring.
-/

namespace Phytium.Xmac

open Lib Lib.Mask

/-- The bits of the interrupt status: `FXMAC_MSG_RXCOMP_INDEX` and the others
are the indices of different bits. -/
structure IntMasks where
  rxcomp : BitVec 32
  respErr : BitVec 32
  rxoverrun : BitVec 32
  rused : BitVec 32
  rxcomp_ne : rxcomp ≠ 0#32
  respErr_rxcomp : respErr &&& rxcomp = 0#32
  rxoverrun_rxcomp : rxoverrun &&& rxcomp = 0#32
  rused_rxcomp : rused &&& rxcomp = 0#32

/-- Bits as the headers could have them. -/
def sampleIntMasks : IntMasks where
  rxcomp := 1#32 <<< 1
  respErr := 1#32 <<< 11
  rxoverrun := 1#32 <<< 10
  rused := 1#32 <<< 2
  rxcomp_ne := by decide
  respErr_rxcomp := by decide
  rxoverrun_rxcomp := by decide
  rused_rxcomp := by decide

/-- `DEFAULT_NUM_RX_BUFS`, which `attach` stores in `sc->rxbufs`. -/
def defaultNumRxBufs : ℕ := 256

/-- Where the handler stands, with its local `istatus`, and within `recv` with
the chain of packets. -/
inductive IntrPc where
  /-- not executing -/
  | idle
  /-- before the status is read -/
  | read
  /-- before the bits read are written back -/
  | clear (istatus : BitVec 32)
  /-- `recv`, the test of its loop -/
  | scan (istatus : BitVec 32) (chain : List RxMbuf)
  /-- `recv`, the test of the loop in `fill_rqueue` -/
  | refill (istatus : BitVec 32) (chain : List RxMbuf)
  /-- `recv` without the lock, with the packets still to hand up -/
  | handUp (istatus : BitVec 32) (chain : List RxMbuf)
  /-- before `RXCOMP` is written back -/
  | ackRx (istatus : BitVec 32)
  | respErr (istatus : BitVec 32)
  | overrun (istatus : BitVec 32)
  | rused (istatus : BitVec 32)
  /-- the test of the loop in `fill_rqueue`, called for `RUSED` -/
  | rusedFill (istatus : BitVec 32)
  /-- before `RUSED` is written back -/
  | ackRused (istatus : BitVec 32)
deriving DecidableEq, Repr

structure IntrState where
  rx : RxState
  /-- the interrupt status register -/
  status : BitVec 32
  running : Bool
  pc : IntrPc

inductive IntrEvent where
  /-- the interrupt comes -/
  | intr
  /-- the handler takes one step; `a` is what `m_getcl` would return in it -/
  | handler (a : Option (BitVec 64))
  /-- a frame arrives -/
  | arrive (addr ctl : BitVec 32)
  /-- the hardware sets other bits of the status -/
  | raise (bits : BitVec 32)
  /-- `phytium_xmac_init_locked`, with the mbufs `m_getcl` returns -/
  | init (as : List (BitVec 64))
  /-- `SIOCSIFFLAGS` takes the interface down -/
  | down
  /-- `phytium_xmac_stop`, as `phytium_xmac_detach` calls it -/
  | stop
deriving DecidableEq

/-- Another function can take the lock. -/
def IntrPc.lockFree : IntrPc → Bool
  | .idle | .handUp _ _ => true
  | _ => false

/-- One pass of the loop in `fill_rqueue`, which goes on to `next` when it
ends. -/
def fillPass (a : Option (BitVec 64)) (next : IntrPc) (s : IntrState) : IntrState :=
  if s.rx.rxringQueued < defaultNumRxBufs then
    match a with
    | none => { s with pc := next }
    | some a => { s with rx := fillOne s.rx a }
  else { s with pc := next }

/-- A write of one bit to the status register. `phytium_xmac.c` has no such
write behind the first. -/
def ackBit (hw : XmacHw) (bit : BitVec 32) (s : IntrState) : IntrState :=
  if hw = .msg then { s with status := s.status &&& ~~~bit } else s

/-- One step of `phytium_xmac_msg_intr` and `phytium_xmac_intr`. -/
def handlerStep (I : IntMasks) (M : RxbufMasks) (hw : XmacHw) (a : Option (BitVec 64))
    (s : IntrState) : Option IntrState :=
  match s.pc with
  | .idle => none
  | .read => some { s with pc := .clear s.status }
  | .clear istatus =>
      some
        { s with
          status := s.status &&& ~~~istatus
          pc := if has istatus I.rxcomp then .scan istatus [] else .respErr istatus }
  | .scan istatus chain =>
      if received M s.rx then
        some { s with rx := (recvOne M s.rx chain).1, pc := .scan istatus (recvOne M s.rx chain).2 }
      else some { s with pc := .refill istatus chain }
  | .refill istatus chain => some (fillPass a (.handUp istatus chain) s)
  | .handUp istatus chain =>
      match chain with
      | m :: ms => some { s with rx := deliver s.rx [m], pc := .handUp istatus ms }
      | [] => some { s with pc := .ackRx istatus }
  | .ackRx istatus => some { ackBit hw I.rxcomp s with pc := .respErr istatus }
  | .respErr istatus =>
      some
        { (if has istatus I.respErr then ackBit hw I.respErr s else s) with
          pc := .overrun istatus }
  | .overrun istatus =>
      some
        { (if has istatus I.rxoverrun then ackBit hw I.rxoverrun s else s) with
          pc := .rused istatus }
  | .rused istatus =>
      some { s with pc := if has istatus I.rused then .rusedFill istatus else .idle }
  | .rusedFill istatus => some (fillPass a (.ackRused istatus) s)
  | .ackRused _ => some { ackBit hw I.rused s with pc := .idle }

def intrStep (I : IntMasks) (M : RxbufMasks) (hw : XmacHw) (s : IntrState) :
    IntrEvent → Option IntrState
  | .intr =>
      if s.pc = .idle then some { s with pc := if s.running then .read else .idle } else none
  | .handler a => if aligned a.toList then handlerStep I M hw a s else none
  | .arrive addr ctl =>
      (hardwareReceive M s.rx addr ctl).map fun rx =>
        { s with rx := rx, status := s.status ||| I.rxcomp }
  | .raise bits => some { s with status := s.status ||| bits }
  | .init as =>
      if s.pc.lockFree ∧ aligned as then
        some (if s.running then s
          else { s with rx := fillRqueue defaultNumRxBufs as s.rx, running := true })
      else none
  | .down =>
      if s.pc.lockFree then
        some (if s.running then { s with rx := stopRx M s.rx, running := false } else s)
      else none
  | .stop => if s.pc.lockFree then some { s with rx := stopRx M s.rx } else none

/-- The driver with its hardware from `phytium_xmac_setup_descs` on. -/
def intrSystem (I : IntMasks) (M : RxbufMasks) (hw : XmacHw) : System IntrState IntrEvent where
  init := fun s => ∃ rxcsum status, s = ⟨setupRx M rxcsum, status, false, .idle⟩
  step := intrStep I M hw

/-- No frame waits without an interrupt. -/
def RxNoticed (I : IntMasks) (M : RxbufMasks) (s : IntrState) : Prop :=
  s.running = true → s.pc = .idle → has s.status I.rxcomp = false → received M s.rx = false

instance (I : IntMasks) (M : RxbufMasks) (s : IntrState) : Decidable (RxNoticed I M s) := by
  unfold RxNoticed
  infer_instance

/-- When `RXCOMP` is written behind `recv`, no frame has been received into the
descriptor at the tail pointer since the scan. -/
def intrOk (M : RxbufMasks) (hw : XmacHw) (s : IntrState) : IntrEvent → Prop
  | .handler _ =>
      match s.pc with
      | .ackRx _ => hw = .msg → received M s.rx = false
      | _ => True
  | _ => True

instance (M : RxbufMasks) (hw : XmacHw) (s : IntrState) (e : IntrEvent) :
    Decidable (intrOk M hw s e) := by
  unfold intrOk
  split
  · split <;> infer_instance
  · infer_instance

variable {I : IntMasks} {M : RxbufMasks} {hw : XmacHw} {s s' : IntrState} {rx : RxState}
  {chain : List RxMbuf} {rxbufs : ℕ} {a : BitVec 64}

/-! ## The descriptor at the tail pointer -/

theorem fillOne_new (ha : a &&& 3#64 = 0#64) :
    has ((fillOne rx a).rxring rx.rxringHdPtr).addr M.new = false := by
  have hlow : has (a.setWidth 32) M.new = false :=
    has_low_bits (low_bits ha) (by rw [M.new_eq]; decide)
  have hwrap : has (1#32 <<< 1) M.new = false := by
    rw [M.new_eq]
    decide
  unfold fillOne
  dsimp only
  rw [Function.update_self]
  dsimp only
  split
  · rw [has_or, hlow, hwrap]
    rfl
  · exact hlow

/-- A new buffer brings no frame: it goes behind the window, or becomes the
tail itself, with `NEW` clear. -/
theorem received_fillOne (h : RxInv M rxbufs rx chain) (ha : a &&& 3#64 = 0#64)
    (hr : received M (fillOne rx a) = true) : received M rx = true := by
  rw [received, Bool.and_eq_true, decide_eq_true_iff] at hr ⊢
  obtain ⟨-, hnew⟩ := hr
  rw [show (fillOne rx a).rxringTlPtr = rx.rxringTlPtr from rfl] at hnew
  have hne : rx.rxringTlPtr ≠ rx.rxringHdPtr := by
    intro he
    rw [he, fillOne_new ha] at hnew
    cases hnew
  constructor
  · apply Nat.pos_of_ne_zero
    intro hz
    have hhead := h.head
    rw [hz, CircularWindow.behind, Nat.add_zero, if_pos h.tail_lt] at hhead
    exact hne hhead.symm
  · rw [show (fillOne rx a).rxring rx.rxringTlPtr = rx.rxring rx.rxringTlPtr from
      Function.update_of_ne hne _ _] at hnew
    exact hnew

theorem received_fillRqueue {as : List (BitVec 64)} (hmax : rxbufs ≤ 511)
    (h : RxInv M rxbufs rx chain) (has : aligned as = true)
    (hr : received M (fillRqueue rxbufs as rx) = true) : received M rx = true := by
  induction as generalizing rx with
  | nil => exact hr
  | cons a as ih =>
      rw [aligned, List.all_cons, Bool.and_eq_true, beq_iff_eq] at has
      rw [fillRqueue] at hr
      split at hr
      · rename_i hq
        exact received_fillOne h has.1 (ih (h.fillOne hmax hq has.1) has.2 hr)
      · exact hr

/-! ## Every run -/

/-- What `recv` holds. -/
def IntrPc.held : IntrPc → List RxMbuf
  | .scan _ chain | .refill _ chain | .handUp _ chain => chain
  | _ => []

/-- The handler is between the write that clears the bits and the end of the
scan. -/
def IntrPc.scanning : IntrPc → Bool
  | .scan _ _ => true
  | _ => false

/-- The ring is in order, and a received frame at the tail has `RXCOMP` set,
unless the handler is about to look for it. -/
structure IntrInv (I : IntMasks) (M : RxbufMasks) (s : IntrState) : Prop where
  ring : RxInv M defaultNumRxBufs s.rx s.pc.held
  noticed : s.pc.scanning = false → received M s.rx = true → has s.status I.rxcomp = true

/-- A step that brings no frame and clears no `RXCOMP`. -/
theorem IntrInv.of_le (h : IntrInv I M s) (hring : RxInv M defaultNumRxBufs s'.rx s'.pc.held)
    (hscan : s.pc.scanning = false) (hr : received M s'.rx = true → received M s.rx = true)
    (hst : has s.status I.rxcomp = true → has s'.status I.rxcomp = true) : IntrInv I M s' :=
  ⟨hring, fun _ hrec => hst (h.noticed hscan (hr hrec))⟩

theorem ackBit_frame (hw : XmacHw) (bit : BitVec 32) (s : IntrState) :
    (ackBit hw bit s).rx = s.rx ∧ (ackBit hw bit s).running = s.running := by
  unfold ackBit
  split <;> exact ⟨rfl, rfl⟩

theorem ackBit_rxcomp {bit : BitVec 32} (hb : bit &&& I.rxcomp = 0#32) :
    has (ackBit hw bit s).status I.rxcomp = has s.status I.rxcomp := by
  unfold ackBit
  split
  · exact has_congr (and_not_and_of_disjoint hb)
  · rfl

theorem defaultNumRxBufs_le : defaultNumRxBufs ≤ 511 := by
  decide

theorem IntrInv.fillPass {next : IntrPc} {b : Option (BitVec 64)} (h : IntrInv I M s)
    (hb : aligned b.toList = true) (hheld : next.held = s.pc.held)
    (hscan : s.pc.scanning = false) : IntrInv I M (fillPass b next s) := by
  have hnext : IntrInv I M { s with pc := next } := by
    refine h.of_le ?_ hscan id id
    show RxInv M defaultNumRxBufs s.rx next.held
    rw [hheld]
    exact h.ring
  unfold Xmac.fillPass
  split
  · rename_i hq
    cases b with
    | none => exact hnext
    | some a =>
        have ha : a &&& 3#64 = 0#64 := by
          simpa [aligned] using hb
        refine h.of_le ?_ hscan ?_ id
        · exact h.ring.fillOne defaultNumRxBufs_le hq ha
        · exact received_fillOne h.ring ha
  · exact hnext

/-- A write of another bit, on the way from one place of the handler to the
next. -/
theorem IntrInv.ackBit {bit : BitVec 32} {next : IntrPc} (h : IntrInv I M s)
    (hb : bit &&& I.rxcomp = 0#32) (hscan : s.pc.scanning = false) (hheld : s.pc.held = [])
    (hnext : next.held = []) : IntrInv I M { ackBit hw bit s with pc := next } := by
  have hring := h.ring
  rw [hheld] at hring
  obtain ⟨hrx, -⟩ := ackBit_frame hw bit s
  refine h.of_le ?_ hscan ?_ ?_
  · show RxInv M defaultNumRxBufs (Xmac.ackBit hw bit s).rx next.held
    rw [hrx, hnext]
    exact hring
  · show received M (Xmac.ackBit hw bit s).rx = true → _
    rw [hrx]
    exact id
  · show _ → has (Xmac.ackBit hw bit s).status I.rxcomp = true
    rw [ackBit_rxcomp hb]
    exact id

theorem IntrInv.goto {next : IntrPc} (h : IntrInv I M s) (hscan : s.pc.scanning = false)
    (hheld : next.held = s.pc.held) : IntrInv I M { s with pc := next } := by
  refine h.of_le ?_ hscan id id
  show RxInv M defaultNumRxBufs s.rx next.held
  rw [hheld]
  exact h.ring

/-- The bits are cleared. If `RXCOMP` is among them, whatever has come the scan
will find; if not, nothing is lost. -/
theorem IntrInv.clear {istatus : BitVec 32} (h : IntrInv I M s) (hpc : s.pc = .clear istatus) :
    IntrInv I M
      { s with
        status := s.status &&& ~~~istatus
        pc := if has istatus I.rxcomp then .scan istatus [] else .respErr istatus } := by
  have hring := h.ring
  rw [hpc] at hring
  split
  · exact ⟨hring, fun hscan => Bool.noConfusion hscan⟩
  · rename_i hbit
    rw [Bool.not_eq_true, has_eq_false_iff] at hbit
    refine h.of_le hring (by rw [hpc]; rfl) id ?_
    show _ → has (s.status &&& ~~~istatus) I.rxcomp = true
    rw [has_congr (and_not_and_of_disjoint hbit)]
    exact id

/-- One pass of the loop, or its end. -/
theorem IntrInv.scan {istatus : BitVec 32} (h : IntrInv I M s)
    (hpc : s.pc = .scan istatus chain) :
    IntrInv I M
      (if received M s.rx then
        { s with rx := (recvOne M s.rx chain).1, pc := .scan istatus (recvOne M s.rx chain).2 }
      else { s with pc := .refill istatus chain }) := by
  have hring := h.ring
  rw [hpc] at hring
  split
  · rename_i hr
    exact ⟨hring.recvOne defaultNumRxBufs_le hr, fun hscan => Bool.noConfusion hscan⟩
  · rename_i hr
    exact ⟨hring, fun _ hrec => absurd hrec hr⟩

/-- **One step of the handler.** The second write of `RXCOMP` is the one that
needs the condition. -/
theorem IntrInv.handler {b : Option (BitVec 64)} (h : IntrInv I M s)
    (hb : aligned b.toList = true) (hok : intrOk M hw s (.handler b))
    (hs : handlerStep I M hw b s = some s') : IntrInv I M s' := by
  unfold handlerStep at hs
  split at hs <;> rename_i hpc
  · cases hs
  · cases hs
    exact h.goto (by rw [hpc]; rfl) (by rw [hpc]; rfl)
  · cases hs
    exact h.clear hpc
  · rw [← apply_ite some] at hs
    cases hs
    exact h.scan hpc
  · cases hs
    exact h.fillPass hb (by rw [hpc]; rfl) (by rw [hpc]; rfl)
  · rename_i istatus chain
    have hring := h.ring
    rw [hpc] at hring
    cases chain with
    | nil =>
        cases hs
        exact h.goto (by rw [hpc]; rfl) (by rw [hpc]; rfl)
    | cons m ms =>
        cases hs
        refine h.of_le ?_ (by rw [hpc]; rfl) id id
        exact RxInv.deliver hring
  · cases hs
    have hring := h.ring
    rw [hpc] at hring
    by_cases hw2 : hw = .msg
    · have hnone : received M s.rx = false := by
        rw [intrOk, hpc] at hok
        exact hok hw2
      rw [Xmac.ackBit, if_pos hw2]
      exact ⟨hring, fun _ hrec => absurd (hnone.symm.trans hrec) Bool.false_ne_true⟩
    · rw [Xmac.ackBit, if_neg hw2]
      exact h.goto (by rw [hpc]; rfl) (by rw [hpc]; rfl)
  · cases hs
    split
    · exact h.ackBit I.respErr_rxcomp (by rw [hpc]; rfl) (by rw [hpc]; rfl) rfl
    · exact h.goto (by rw [hpc]; rfl) (by rw [hpc]; rfl)
  · cases hs
    split
    · exact h.ackBit I.rxoverrun_rxcomp (by rw [hpc]; rfl) (by rw [hpc]; rfl) rfl
    · exact h.goto (by rw [hpc]; rfl) (by rw [hpc]; rfl)
  · cases hs
    split
    · exact h.goto (by rw [hpc]; rfl) (by rw [hpc]; rfl)
    · exact h.goto (by rw [hpc]; rfl) (by rw [hpc]; rfl)
  · cases hs
    exact h.fillPass hb (by rw [hpc]; rfl) (by rw [hpc]; rfl)
  · cases hs
    exact h.ackBit I.rused_rxcomp (by rw [hpc]; rfl) (by rw [hpc]; rfl) rfl

theorem lockFree_scanning {pc : IntrPc} (h : pc.lockFree = true) : pc.scanning = false := by
  cases pc with
  | scan istatus chain => cases h
  | _ => rfl

theorem intrStep_inv {e : IntrEvent} (h : IntrInv I M s) (hok : intrOk M hw s e)
    (hs : intrStep I M hw s e = some s') : IntrInv I M s' := by
  cases e with
  | intr =>
      obtain ⟨hpc, ht⟩ := Option.ite_none_right_eq_some.mp hs
      cases ht
      split
      · exact h.goto (by rw [hpc]; rfl) (by rw [hpc]; rfl)
      · exact h.goto (by rw [hpc]; rfl) (by rw [hpc])
  | handler b =>
      obtain ⟨hb, ht⟩ := Option.ite_none_right_eq_some.mp hs
      exact h.handler hb hok ht
  | arrive addr ctl =>
      obtain ⟨rx, hrx, rfl⟩ := Option.map_eq_some_iff.mp hs
      refine ⟨h.ring.hardwareReceive hrx, fun _ _ => ?_⟩
      show has (s.status ||| I.rxcomp) I.rxcomp = true
      rw [has_or, has_self I.rxcomp_ne, Bool.or_true]
  | raise bits =>
      cases hs
      refine ⟨h.ring, fun hscan hrec => ?_⟩
      show has (s.status ||| bits) I.rxcomp = true
      rw [has_or, h.noticed hscan hrec, Bool.true_or]
  | init as =>
      obtain ⟨⟨hfree, ha⟩, ht⟩ := Option.ite_none_right_eq_some.mp hs
      cases ht
      split
      · exact h
      · refine h.of_le (h.ring.fillRqueue defaultNumRxBufs_le ha) (lockFree_scanning hfree) ?_ id
        exact received_fillRqueue defaultNumRxBufs_le h.ring ha
  | down =>
      obtain ⟨-, ht⟩ := Option.ite_none_right_eq_some.mp hs
      cases ht
      split
      · exact ⟨h.ring.stopRx, fun _ hrec => Bool.noConfusion hrec⟩
      · exact h
  | stop =>
      obtain ⟨-, ht⟩ := Option.ite_none_right_eq_some.mp hs
      cases ht
      exact ⟨h.ring.stopRx, fun _ hrec => Bool.noConfusion hrec⟩

theorem intr_reachable_inv (h : ((intrSystem I M hw).restrict (intrOk M hw)).Reachable s) :
    IntrInv I M s := by
  apply h.restrict_invariant
  · rintro s ⟨rxcsum, status, rfl⟩
    exact ⟨setupRx_inv, fun _ hrec => Bool.noConfusion hrec⟩
  · intro s e s' _ hi hok hs
    exact intrStep_inv hi hok hs

theorem IntrInv.rxNoticed (h : IntrInv I M s) : RxNoticed I M s := by
  intro _ hpc hclear
  by_contra hrec
  rw [Bool.not_eq_false] at hrec
  have hset := h.noticed (by rw [hpc]; rfl) hrec
  rw [hclear] at hset
  cases hset

/-- `phytium_xmac.c` loses no receive interrupt: its handler clears `RXCOMP` only
before it looks at the ring. -/
theorem rx_noticed_of_one_write (hw1 : hw ≠ .msg) (h : (intrSystem I M hw).Reachable s) :
    RxNoticed I M s := by
  have hinv : IntrInv I M s := by
    apply h.invariant
    · rintro s ⟨rxcsum, status, rfl⟩
      exact ⟨setupRx_inv, fun _ hrec => Bool.noConfusion hrec⟩
    · intro s e s' hi hs
      refine intrStep_inv hi ?_ hs
      unfold intrOk
      split
      · split
        · exact fun hw2 => absurd hw2 hw1
        · trivial
      · trivial
  exact hinv.rxNoticed

/-! ## The frame behind the scan -/

/-- The handler has gone on, and nothing has become of the ring, the flag or
`RXCOMP`. -/
structure Untouched (I : IntMasks) (s s' : IntrState) : Prop where
  rx : s'.rx = s.rx
  running : s'.running = s.running
  rxcomp : has s'.status I.rxcomp = has s.status I.rxcomp

/-- Left to itself the handler is done some time, with nothing done to the
frames. -/
def Finishes (I : IntMasks) (M : RxbufMasks) (hw : XmacHw) (s : IntrState) : Prop :=
  ∃ n u, (intrSystem I M hw).run s (List.replicate n (.handler none)) = some u ∧
    u.pc = .idle ∧ Untouched I s u

theorem Finishes.of_idle (h : s.pc = .idle) : Finishes I M hw s :=
  ⟨0, s, rfl, h, rfl, rfl, rfl⟩

theorem Finishes.step (h : Finishes I M hw s') (hs : handlerStep I M hw none s = some s')
    (hk : Untouched I s s') : Finishes I M hw s := by
  obtain ⟨n, u, hrun, hpc, hu⟩ := h
  refine ⟨n + 1, u, ?_, hpc, hu.rx.trans hk.rx, hu.running.trans hk.running,
    hu.rxcomp.trans hk.rxcomp⟩
  have hstep : (intrSystem I M hw).step s (.handler none) = some s' := hs
  rw [List.replicate_succ, System.run_cons, hstep]
  exact hrun

theorem Untouched.ackBit {bit : BitVec 32} (next : IntrPc) (hb : bit &&& I.rxcomp = 0#32) :
    Untouched I s { ackBit hw bit s with pc := next } := by
  obtain ⟨hrx, hrun⟩ := ackBit_frame hw bit s
  exact ⟨hrx, hrun, ackBit_rxcomp hb⟩

theorem finishes_rused {istatus : BitVec 32} (hpc : s.pc = .rused istatus) :
    Finishes I M hw s := by
  have hack (t : IntrState) (ht : t.pc = .ackRused istatus) : Finishes I M hw t := by
    refine Finishes.step (.of_idle rfl) (by rw [handlerStep, ht]) ?_
    exact .ackBit .idle I.rused_rxcomp
  have hfill (t : IntrState) (ht : t.pc = .rusedFill istatus) : Finishes I M hw t := by
    refine Finishes.step (hack { t with pc := .ackRused istatus } rfl) ?_ ⟨rfl, rfl, rfl⟩
    rw [handlerStep, ht]
    unfold fillPass
    dsimp only
    split <;> rfl
  by_cases hbit : has istatus I.rused = true
  · refine Finishes.step (hfill { s with pc := .rusedFill istatus } rfl) ?_ ⟨rfl, rfl, rfl⟩
    rw [handlerStep, hpc]
    dsimp only
    rw [if_pos hbit]
  · have hidle : Finishes I M hw { s with pc := .idle } := .of_idle rfl
    refine Finishes.step hidle ?_ ⟨rfl, rfl, rfl⟩
    rw [handlerStep, hpc]
    dsimp only
    rw [if_neg hbit]

theorem finishes_respErr {istatus : BitVec 32} (hpc : s.pc = .respErr istatus) :
    Finishes I M hw s := by
  have hoverrun (t : IntrState) (ht : t.pc = .overrun istatus) : Finishes I M hw t := by
    refine Finishes.step (finishes_rused rfl) (by rw [handlerStep, ht]) ?_
    split
    · exact .ackBit _ I.rxoverrun_rxcomp
    · exact ⟨rfl, rfl, rfl⟩
  refine Finishes.step (hoverrun _ rfl) (by rw [handlerStep, hpc]) ?_
  split
  · exact .ackBit _ I.respErr_rxcomp
  · exact ⟨rfl, rfl, rfl⟩

/-- A frame at the tail when `RXCOMP` is written behind `recv` is left there: if
no other arrives before the handler is done, nothing tells of it. -/
theorem stalls {istatus : BitVec 32} (hpc : s.pc = .ackRx istatus) (hrun : s.running = true)
    (hrec : received M s.rx = true) :
    ∃ n u, (intrSystem I M .msg).run s (List.replicate n (.handler none)) = some u ∧
      ¬ RxNoticed I M u := by
  have hclear : has (s.status &&& ~~~I.rxcomp) I.rxcomp = false := has_clear _ _
  obtain ⟨n, u, hs, hidle, hu⟩ : Finishes I M .msg
      { s with status := s.status &&& ~~~I.rxcomp, pc := .respErr istatus } :=
    finishes_respErr rfl
  refine ⟨n + 1, u, ?_, ?_⟩
  · have hstep : (intrSystem I M .msg).step s (.handler none) =
        some { s with status := s.status &&& ~~~I.rxcomp, pc := .respErr istatus } := by
      show handlerStep I M .msg none s = _
      rw [handlerStep, hpc]
      rfl
    rw [List.replicate_succ, System.run_cons, hstep]
    exact hs
  · intro h
    have hnone := h (hu.running.trans hrun) hidle (hu.rxcomp.trans hclear)
    rw [hu.rx] at hnone
    exact absurd (hnone.symm.trans hrec) Bool.false_ne_true

/-- **No receive interrupt is lost** in a run in which no frame is at the tail
when the handler writes `RXCOMP` back behind `recv`. Where one is, the handler,
left to itself, ends with the frame at the tail and `RXCOMP` clear. -/
theorem rx_interrupt_kept (h : ((intrSystem I M .msg).restrict (intrOk M .msg)).Reachable s) :
    RxNoticed I M s ∧
    ∀ e, s.running = true → ¬ intrOk M .msg s e →
      ∃ n u, (intrSystem I M .msg).run s (List.replicate n (.handler none)) = some u ∧
        ¬ RxNoticed I M u := by
  constructor
  · exact (intr_reachable_inv h).rxNoticed
  · intro e hrun hok
    cases e with
    | handler b =>
        cases hpc : s.pc with
        | ackRx istatus =>
            rw [intrOk, hpc] at hok
            obtain ⟨-, hrec⟩ := Classical.not_imp.mp hok
            exact stalls hpc hrun (Bool.eq_true_of_not_eq_false hrec)
        | _ =>
            rw [intrOk, hpc] at hok
            exact absurd trivial hok
    | _ => exact absurd trivial hok

/-- A frame is received and delivered. -/
def quietIntrRun : List IntrEvent :=
  [.init [0x1000#64, 0x2000#64], .arrive 0x1001#32 (3#32 <<< 14 ||| 60#32), .intr] ++
  List.replicate 11 (.handler none)

/-- The next frame arrives while the first is handed up. -/
def lateFrameRun : List IntrEvent :=
  [.init [0x1000#64, 0x2000#64], .arrive 0x1001#32 (3#32 <<< 14 ||| 60#32), .intr] ++
  List.replicate 5 (.handler none) ++ [.arrive 0x2001#32 (3#32 <<< 14 ||| 60#32)] ++
  List.replicate 6 (.handler none)

theorem rx_interrupt_kept_quiet :
    ∃ s, ((intrSystem sampleIntMasks sampleRxMasks .msg).restrict (intrOk sampleRxMasks .msg)).run
        ⟨setupRx sampleRxMasks true, 0#32, false, .idle⟩ quietIntrRun = some s ∧
      s.running = true ∧ s.pc = .idle ∧ RxNoticed sampleIntMasks sampleRxMasks s := by
  have hrun : (((intrSystem sampleIntMasks sampleRxMasks .msg).restrict
      (intrOk sampleRxMasks .msg)).run ⟨setupRx sampleRxMasks true, 0#32, false, .idle⟩
        quietIntrRun).map (fun s => (s.running, s.pc)) = some (true, .idle) := by
    decide
  obtain ⟨s, hs, hq⟩ := Option.map_eq_some_iff.mp hrun
  rw [Prod.mk.injEq] at hq
  exact ⟨s, hs, hq.1, hq.2, (rx_interrupt_kept
    (System.reachable_of_run _ ⟨true, 0#32, rfl⟩ hs)).1⟩

theorem rx_interrupt_lost :
    ¬ ∀ s, (intrSystem sampleIntMasks sampleRxMasks .msg).Reachable s →
      RxNoticed sampleIntMasks sampleRxMasks s := by
  intro h
  have hrun : ((intrSystem sampleIntMasks sampleRxMasks .msg).run
      ⟨setupRx sampleRxMasks true, 0#32, false, .idle⟩ lateFrameRun).map
        (fun s => (s.pc, decide (RxNoticed sampleIntMasks sampleRxMasks s))) =
        some (.idle, false) := by
    decide
  obtain ⟨s, hs, hq⟩ := Option.map_eq_some_iff.mp hrun
  rw [Prod.mk.injEq] at hq
  exact decide_eq_false_iff_not.mp hq.2 (h s (System.reachable_of_run _ ⟨true, 0#32, rfl⟩ hs))

end Phytium.Xmac
