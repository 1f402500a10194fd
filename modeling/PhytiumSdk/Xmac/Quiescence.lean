import PhytiumSdk.Xmac.Receive
import PhytiumSdk.Xmac.Transmit

/-!
# A stopped interface

Both rings, the tick callout and the functions that use them, at the
granularity of the lock. Three functions drop the lock before they are done:
the interrupt handler while `recv` hands packets up, and the tick and
`init_locked` when the MII layer calls v1's `mediachange`. `suspended` lists
those that have.

`start_locked` does not look at `RUNNING`, and neither does what the three do
after they have taken the lock again. As long as none of them finds anything to
do, a stopped interface stays empty.
-/

namespace Phytium.Xmac

open Lib

/-- A function that has dropped the lock and will take it again. -/
inductive Suspended where
  /-- `phytium_xmac_intr`, with the packets to deliver and the `RXUSED` bit -/
  | intr (chain : List RxMbuf) (rxused : Bool)
  /-- `phytium_xmac_tick` in `mediachange` -/
  | tick
  /-- `phytium_xmac_init_locked` in `mediachange` -/
  | init
deriving DecidableEq

structure XmacState where
  tx : TxState
  rx : RxState
  tickArmed : Bool
  /-- `phytium_xmac_stop` has run, and `init_locked` not since -/
  stopped : Bool
  suspended : List Suspended

/-- What the environment gives to one locked section: the mbufs that
`m_getcl` can provide, and what `m_defrag` returns at each access of
`clean_tx` and of `start_locked`. -/
structure Supply where
  bufs : List (BitVec 64)
  clean : List (Option MbufChain)
  start : List (Option MbufChain)
deriving DecidableEq

inductive XmacEvent where
  | enqueue (m : Mbuf)
  /-- `phytium_xmac_start` -/
  | start (supply : Supply)
  /-- `phytium_xmac_intr`, with two bits of the interrupt status -/
  | intr (rxcompl rxused : Bool) (supply : Supply)
  /-- the `i`-th suspended function goes on -/
  | resume (i : ℕ) (supply : Supply)
  /-- `phytium_xmac_tick`, which may find the media changed -/
  | tick (mediaChanged : Bool)
  /-- `phytium_xmac_init_locked`, from `ioctl` or `phytium_xmac_init` -/
  | init (mediaChanged : Bool) (supply : Supply)
  /-- `SIOCSIFFLAGS` takes the interface down -/
  | down
  /-- `phytium_xmac_detach` calls `phytium_xmac_stop` -/
  | detach
  /-- the hardware stores a control word of the transmit ring -/
  | txHardware (i : ℕ) (ctl : BitVec 32)
  /-- the hardware fills a receive descriptor -/
  | rxHardware (addr ctl : BitVec 32)
deriving DecidableEq

/-- What does not change. `phytium_xmac_v2.c` keeps the lock in
`mediachange`. -/
structure RingConfig where
  txMasks : TxbufMasks
  rxMasks : RxbufMasks
  hw : XmacHw
  rxbufs : ℕ

/-- `mediachange` drops the lock. -/
def RingConfig.dropsLock (R : RingConfig) : Bool := decide (R.hw ≠ .msg)

variable (R : RingConfig)

/-- The driver runs from the point it stands at until it leaves the function;
`ds` has one entry for each access. -/
def runTx (ds : List (Option MbufChain)) (s : TxState) : Option TxState :=
  (ds.foldlM (fun s d => driverStep R.txMasks R.hw d s) s).filter fun s => decide (s.pc = .idle)

/-- `phytium_xmac_start_locked`. -/
def startLocked (ds : List (Option MbufChain)) (s : TxState) : Option TxState :=
  runTx R ds { s with pc := if s.oactive then .idle else .space }

/-- `phytium_xmac_clean_tx`. -/
def cleanTx (ds : List (Option MbufChain)) (s : TxState) : Option TxState :=
  runTx R ds { s with pc := .cleanTest .intr }

/-- `phytium_xmac_intr` behind the receiving part. -/
def intrTail (rxused : Bool) (supply : Supply) (s : XmacState) : Option XmacState :=
  (cleanTx R supply.clean s.tx).bind fun tx =>
    let rx := if rxused then fillRqueue R.rxbufs supply.bufs s.rx else s.rx
    if tx.sendq = [] then some { s with tx := tx, rx := rx }
    else (startLocked R supply.start tx).map fun tx => { s with tx := tx, rx := rx }

/-- `phytium_xmac_intr` up to the point where it drops the lock, or to its
end. -/
def intr (rxcompl rxused : Bool) (supply : Supply) (s : XmacState) : Option XmacState :=
  if s.tx.running then
    if rxcompl then
      let r := recvLocked R.rxMasks R.rxbufs supply.bufs s.rx
      some { s with rx := r.1, suspended := s.suspended ++ [.intr r.2 rxused] }
    else intrTail R rxused supply s
  else some s

/-- `phytium_xmac_stop`. -/
def stop (s : XmacState) : XmacState :=
  { s with
    tx := stopTx R.txMasks s.tx
    rx := stopRx R.rxMasks s.rx
    tickArmed := false
    stopped := true }

/-- `phytium_xmac_init_locked`. -/
def initLocked (mediaChanged : Bool) (supply : Supply) (s : XmacState) : XmacState :=
  if s.tx.running then s
  else if mediaChanged && R.dropsLock then
    { s with
      tx := initTx s.tx
      rx := fillRqueue R.rxbufs supply.bufs s.rx
      stopped := false
      suspended := s.suspended ++ [.init] }
  else
    { s with
      tx := initTx s.tx
      rx := fillRqueue R.rxbufs supply.bufs s.rx
      stopped := false
      tickArmed := true }

/-- `phytium_xmac_tick`, once the callout has fired. -/
def tick (mediaChanged : Bool) (s : XmacState) : XmacState :=
  if mediaChanged && R.dropsLock then
    { s with tickArmed := false, suspended := s.suspended ++ [.tick] }
  else { s with tickArmed := true }

/-- The rest of a function that had dropped the lock. -/
def resume (supply : Supply) (s : XmacState) : Suspended → Option XmacState
  | .intr chain rxused => intrTail R rxused supply { s with rx := deliver s.rx chain }
  | .tick => some { s with tickArmed := true }
  | .init => some { s with tickArmed := true }

def xmacStep (s : XmacState) : XmacEvent → Option XmacState
  | .enqueue m => some { s with tx := { s.tx with sendq := s.tx.sendq ++ [m] } }
  | .start supply => (startLocked R supply.start s.tx).map fun tx => { s with tx := tx }
  | .intr rxcompl rxused supply => intr R rxcompl rxused supply s
  | .resume i supply =>
      s.suspended[i]?.bind fun f =>
        resume R supply { s with suspended := s.suspended.eraseIdx i } f
  | .tick mediaChanged => if s.tickArmed then some (tick R mediaChanged s) else none
  | .init mediaChanged supply => some (initLocked R mediaChanged supply s)
  | .down =>
      some (if s.tx.running then stop R { s with tx := { s.tx with running := false } } else s)
  | .detach => some (stop R s)
  | .txHardware i ctl =>
      some { s with tx := { s.tx with txring := setCtl s.tx.txring i ctl } }
  | .rxHardware addr ctl =>
      (hardwareReceive R.rxMasks s.rx addr ctl).map fun rx => { s with rx := rx }

/-- Both rings and the callout, from `phytium_xmac_attach` on. Every state is
one with the lock free. -/
def xmacSystem : System XmacState XmacEvent where
  init := fun s =>
    ∃ rxcsum, s = ⟨setupDescs R.txMasks R.hw, setupRx R.rxMasks rxcsum, false, false, []⟩
  step := xmacStep R

/-- Neither ring holds an mbuf and the callout is not armed. -/
structure Quiet (s : XmacState) : Prop where
  txringM : ∀ i, s.tx.txringM i = none
  txringQueued : s.tx.txringQueued = 0
  rxringM : ∀ i, s.rx.rxringM i = none
  rxringQueued : s.rx.rxringQueued = 0
  tickArmed : s.tickArmed = false

/-! ## The condition -/

/-- `start_locked` finds nothing to do. -/
def NothingToStart (s : XmacState) : Prop := s.tx.oactive = true ∨ s.tx.sendq = []

/-- The rest of the interrupt handler finds nothing to do. -/
def TailIdle (rxused : Bool) (supply : Supply) (s : XmacState) : Prop :=
  (rxused = false ∨ supply.bufs = []) ∧ NothingToStart s

/-- A suspended function goes on without harm. -/
def ResumeIdle (supply : Supply) (s : XmacState) : Option Suspended → Prop
  | some (.intr _ rxused) => TailIdle rxused supply s
  | some .tick => False
  | some .init => False
  | none => True

/-- While the interface is stopped, whoever comes without looking at `RUNNING`
finds nothing to do, and no function that will arm the callout goes on. -/
def quietOk (s : XmacState) : XmacEvent → Prop
  | .start _ => s.stopped = true → NothingToStart s
  | .intr rxcompl rxused supply =>
      s.stopped = true → s.tx.running = true →
        if rxcompl then supply.bufs = [] else TailIdle rxused supply s
  | .resume i supply => s.stopped = true → ResumeIdle supply s s.suspended[i]?
  | _ => True

instance (s : XmacState) : Decidable (NothingToStart s) :=
  inferInstanceAs (Decidable (_ ∨ _))

instance (rxused : Bool) (supply : Supply) (s : XmacState) :
    Decidable (TailIdle rxused supply s) :=
  inferInstanceAs (Decidable (_ ∧ _))

instance (supply : Supply) (s : XmacState) : ∀ f, Decidable (ResumeIdle supply s f)
  | some (.intr _ rxused) => inferInstanceAs (Decidable (TailIdle rxused supply s))
  | some .tick => inferInstanceAs (Decidable False)
  | some .init => inferInstanceAs (Decidable False)
  | none => inferInstanceAs (Decidable True)

instance (s : XmacState) (e : XmacEvent) : Decidable (quietOk s e) := by
  cases e <;>
    · unfold quietOk
      infer_instance

variable {R} {s s' : XmacState} {t t' : TxState}

/-! ## The transmit functions on an empty ring -/

/-- An empty ring, at a point where the driver has not taken a packet. -/
structure TxEmpty (t : TxState) : Prop where
  slots : ∀ i, t.txringM i = none
  queued : t.txringQueued = 0
  pc : t.pc = .idle ∨ (t.pc = .space ∨ t.pc = .dequeue) ∧ t.sendq = [] ∨
    t.pc = .cleanTest .intr

theorem TxEmpty.driverStep {d : Option MbufChain} (h : TxEmpty t)
    (hs : driverStep R.txMasks R.hw d t = some t') : TxEmpty t' ∧ t'.oactive = t.oactive ∧
      t'.sendq = t.sendq := by
  obtain ⟨hm, hq, hpc | ⟨hpc | hpc, hsend⟩ | hpc⟩ := h
  · rw [Xmac.driverStep, hpc] at hs
    cases hs
  · have hsp : noSpace t = false := by
      rw [noSpace, hq]
      rfl
    rw [Xmac.driverStep, hpc] at hs
    dsimp only at hs
    rw [hsp] at hs
    cases hs
    exact ⟨⟨hm, hq, Or.inr (Or.inl ⟨Or.inr rfl, hsend⟩)⟩, rfl, rfl⟩
  · rw [Xmac.driverStep, hpc] at hs
    cases hs
    have hret : dequeueStep d t = { t with pc := .idle } := by
      unfold dequeueStep
      split
      · rfl
      · rename_i hcons
        exact absurd (hsend.symm.trans hcons) (List.cons_ne_nil _ _).symm
    rw [hret]
    exact ⟨⟨hm, hq, Or.inl rfl⟩, rfl, rfl⟩
  · rw [Xmac.driverStep, hpc] at hs
    cases hs
    rw [cleanTestStep, if_neg]
    · exact ⟨⟨hm, hq, Or.inl rfl⟩, rfl, rfl⟩
    · rw [hq]
      intro hn
      exact absurd hn.1 (lt_irrefl _)

theorem TxEmpty.run : ∀ {ds : List (Option MbufChain)} {t t' : TxState}, TxEmpty t →
    ds.foldlM (fun t d => Xmac.driverStep R.txMasks R.hw d t) t = some t' →
    TxEmpty t' ∧ t'.oactive = t.oactive ∧ t'.sendq = t.sendq
  | [], _, _, h, hr => by
      cases hr
      exact ⟨h, rfl, rfl⟩
  | d :: ds, t, t', h, hr => by
      rw [List.foldlM_cons, Option.bind_eq_bind, Option.bind_eq_some_iff] at hr
      obtain ⟨u, hu, hr⟩ := hr
      obtain ⟨hue, huo, hus⟩ := h.driverStep hu
      obtain ⟨hte, hto, hts⟩ := TxEmpty.run hue hr
      exact ⟨hte, hto.trans huo, hts.trans hus⟩

theorem TxEmpty.runTx {ds : List (Option MbufChain)} (h : TxEmpty t)
    (hr : runTx R ds t = some t') : TxEmpty t' ∧ t'.oactive = t.oactive ∧ t'.sendq = t.sendq := by
  rw [Xmac.runTx, Option.filter_eq_some_iff] at hr
  exact h.run hr.1

/-- `start_locked` with nothing to do leaves the ring empty. -/
theorem startLocked_empty {ds : List (Option MbufChain)} (hm : ∀ i, t.txringM i = none)
    (hq : t.txringQueued = 0) (hidle : t.oactive = true ∨ t.sendq = [])
    (hr : startLocked R ds t = some t') :
    (∀ i, t'.txringM i = none) ∧ t'.txringQueued = 0 := by
  have hempty : TxEmpty { t with pc := if t.oactive then .idle else .space } := by
    refine ⟨hm, hq, ?_⟩
    by_cases ho : t.oactive = true
    · left
      exact if_pos ho
    · right
      left
      exact ⟨Or.inl (if_neg ho), hidle.resolve_left ho⟩
  obtain ⟨h, -, -⟩ := hempty.runTx hr
  exact ⟨h.slots, h.queued⟩

theorem cleanTx_empty {ds : List (Option MbufChain)} (hm : ∀ i, t.txringM i = none)
    (hq : t.txringQueued = 0) (hr : cleanTx R ds t = some t') :
    (∀ i, t'.txringM i = none) ∧ t'.txringQueued = 0 ∧ t'.oactive = t.oactive ∧
    t'.sendq = t.sendq := by
  have hempty : TxEmpty { t with pc := .cleanTest .intr } := ⟨hm, hq, Or.inr (Or.inr rfl)⟩
  obtain ⟨h, ho, hs⟩ := hempty.runTx hr
  exact ⟨h.slots, h.queued, ho, hs⟩

/-! ## Every run -/

theorem fillRqueue_nil (rxbufs : ℕ) (rx : RxState) : fillRqueue rxbufs [] rx = rx := rfl

theorem quiet_stop (s : XmacState) : Quiet (stop R s) :=
  ⟨fun _ => rfl, rfl, fun _ => rfl, rfl, rfl⟩

theorem Quiet.intrTail {rxused : Bool} {supply : Supply} (h : Quiet s)
    (hidle : TailIdle rxused supply s) (hs : intrTail R rxused supply s = some s') : Quiet s' := by
  obtain ⟨hrx, hstart⟩ := hidle
  rw [Xmac.intrTail, Option.bind_eq_some_iff] at hs
  obtain ⟨tx, htx, hs⟩ := hs
  obtain ⟨hm, hq, ho, hsend⟩ := cleanTx_empty h.txringM h.txringQueued htx
  have hfill : (if rxused then fillRqueue R.rxbufs supply.bufs s.rx else s.rx) = s.rx := by
    rcases hrx with hrx | hrx
    · rw [hrx]
      rfl
    · rw [hrx, fillRqueue_nil, ite_self]
  dsimp only at hs
  rw [hfill] at hs
  split at hs
  · cases hs
    exact ⟨hm, hq, h.rxringM, h.rxringQueued, h.tickArmed⟩
  · obtain ⟨tx', htx', rfl⟩ := Option.map_eq_some_iff.mp hs
    have hidle' : tx.oactive = true ∨ tx.sendq = [] := by
      rw [ho, hsend]
      exact hstart
    obtain ⟨hm', hq'⟩ := startLocked_empty hm hq hidle' htx'
    exact ⟨hm', hq', h.rxringM, h.rxringQueued, h.tickArmed⟩

/-- Receiving from an empty ring, with no mbuf to refill it, does nothing. -/
theorem recvLocked_empty {rx : RxState} (hq : rx.rxringQueued = 0) :
    recvLocked R.rxMasks R.rxbufs [] rx = (rx, []) := by
  rw [recvLocked, hq]
  rfl

/-- `stopped` means quiet. -/
def StoppedQuiet (s : XmacState) : Prop := s.stopped = true → Quiet s

theorem intrTail_stopped {rxused : Bool} {supply : Supply}
    (hs : intrTail R rxused supply s = some s') : s'.stopped = s.stopped := by
  rw [Xmac.intrTail, Option.bind_eq_some_iff] at hs
  obtain ⟨tx, -, hs⟩ := hs
  dsimp only at hs
  split at hs
  · cases hs
    rfl
  · obtain ⟨tx', -, rfl⟩ := Option.map_eq_some_iff.mp hs
    rfl

theorem StoppedQuiet.intr {rxcompl rxused : Bool} {supply : Supply} (h : StoppedQuiet s)
    (hok : quietOk s (.intr rxcompl rxused supply))
    (hs : intr R rxcompl rxused supply s = some s') : StoppedQuiet s' := by
  unfold Xmac.intr at hs
  split at hs
  · rename_i hrun
    split at hs
    · rename_i hc
      cases hs
      intro hst
      have hq := h hst
      have hbufs : supply.bufs = [] := by
        have hok' := hok hst hrun
        rwa [if_pos hc] at hok'
      rw [hbufs, recvLocked_empty hq.rxringQueued]
      exact ⟨hq.txringM, hq.txringQueued, hq.rxringM, hq.rxringQueued, hq.tickArmed⟩
    · rename_i hc
      intro hst
      rw [intrTail_stopped hs] at hst
      have hok' := hok hst hrun
      rw [if_neg hc] at hok'
      exact (h hst).intrTail hok' hs
  · cases hs
    exact h

theorem StoppedQuiet.resume {i : ℕ} {supply : Supply} (h : StoppedQuiet s)
    (hok : quietOk s (.resume i supply)) (hs : xmacStep R s (.resume i supply) = some s') :
    StoppedQuiet s' := by
  obtain ⟨f, hf, hs⟩ := Option.bind_eq_some_iff.mp hs
  simp only [quietOk, hf, ResumeIdle] at hok
  cases f with
  | intr chain rxused =>
      intro hst
      rw [intrTail_stopped hs] at hst
      have hq := h hst
      have hq' : Quiet { s with suspended := s.suspended.eraseIdx i, rx := deliver s.rx chain } :=
        ⟨hq.txringM, hq.txringQueued, hq.rxringM, hq.rxringQueued, hq.tickArmed⟩
      exact hq'.intrTail (hok hst) hs
  | tick =>
      cases hs
      intro hst
      exact (hok hst).elim
  | init =>
      cases hs
      intro hst
      exact (hok hst).elim

theorem xmacStep_quiet {e : XmacEvent} (h : StoppedQuiet s) (hok : quietOk s e)
    (hs : xmacStep R s e = some s') : StoppedQuiet s' := by
  cases e with
  | enqueue m =>
      cases hs
      intro hst
      have hq := h hst
      exact ⟨hq.txringM, hq.txringQueued, hq.rxringM, hq.rxringQueued, hq.tickArmed⟩
  | start supply =>
      obtain ⟨tx, htx, rfl⟩ := Option.map_eq_some_iff.mp hs
      intro hst
      have hq := h hst
      obtain ⟨hm, hz⟩ := startLocked_empty hq.txringM hq.txringQueued (hok hst) htx
      exact ⟨hm, hz, hq.rxringM, hq.rxringQueued, hq.tickArmed⟩
  | intr rxcompl rxused supply => exact h.intr hok hs
  | resume i supply => exact h.resume hok hs
  | tick mediaChanged =>
      obtain ⟨harmed, ht⟩ := Option.ite_none_right_eq_some.mp hs
      cases ht
      intro hst
      -- the callout of a stopped interface does not fire
      have hst' : s.stopped = true := by
        unfold Xmac.tick at hst
        split at hst <;> exact hst
      exact absurd (harmed.symm.trans (h hst').tickArmed) (by decide)
  | init mediaChanged supply =>
      cases hs
      unfold initLocked
      split
      · exact h
      · split <;> exact fun hst => Bool.noConfusion hst
  | down =>
      cases hs
      split
      · intro _
        exact quiet_stop _
      · exact h
  | detach =>
      cases hs
      intro _
      exact quiet_stop _
  | txHardware i ctl =>
      cases hs
      intro hst
      have hq := h hst
      exact ⟨hq.txringM, hq.txringQueued, hq.rxringM, hq.rxringQueued, hq.tickArmed⟩
  | rxHardware addr ctl =>
      obtain ⟨rx, hrx, rfl⟩ := Option.map_eq_some_iff.mp hs
      obtain ⟨-, ht⟩ := Option.ite_none_right_eq_some.mp hrx
      cases ht
      intro hst
      have hq := h hst
      exact ⟨hq.txringM, hq.txringQueued, hq.rxringM, hq.rxringQueued, hq.tickArmed⟩

/-- **Quiescence.** In every run whose steps meet `quietOk`, from a stop to the
next start both rings are empty and the callout is not armed. -/
theorem stopped_quiet_of_ok (h : ((xmacSystem R).restrict quietOk).Reachable s)
    (hst : s.stopped = true) : Quiet s := by
  have hinv : StoppedQuiet s := by
    apply h.restrict_invariant
    · rintro s ⟨rxcsum, rfl⟩ hn
      cases hn
    · intro s e s' _ hi hok (hs : xmacStep R s e = some s')
      exact xmacStep_quiet hi hok hs
  exact hinv hst

/-- The boards' first MAC, with masks as the headers could have them. -/
def sampleRings : RingConfig where
  txMasks := sampleTxMasks
  rxMasks := sampleRxMasks
  hw := .version1
  rxbufs := 2

/-- The interface goes up and down again and `phytium_xmac_start` finds an
empty send queue. -/
def downThenStartRun : List XmacEvent :=
  [.init false ⟨[0x1000#64], [], []⟩, .down, .start ⟨[], [], [none, none]⟩]

theorem quiet_down_then_start :
    ∃ s, ((xmacSystem sampleRings).restrict quietOk).run
        ⟨setupDescs sampleTxMasks .version1, setupRx sampleRxMasks true, false, false, []⟩
        downThenStartRun = some s ∧ s.stopped = true ∧ Quiet s := by
  have hrun : (((xmacSystem sampleRings).restrict quietOk).run
      ⟨setupDescs sampleTxMasks .version1, setupRx sampleRxMasks true, false, false, []⟩
      downThenStartRun).map (fun s => s.stopped) = some true := by
    decide
  obtain ⟨s, hs, hst⟩ := Option.map_eq_some_iff.mp hrun
  exact ⟨s, hs, hst, stopped_quiet_of_ok (System.reachable_of_run _ ⟨true, rfl⟩ hs) hst⟩

/-- A packet of one segment. -/
def smallPacket : Mbuf := ⟨0, ⟨⟨0x2000#64, 60⟩, []⟩⟩

/-- `phytium_xmac_start` puts a packet into the ring of a stopped interface. -/
theorem not_quiet_start_while_down :
    ¬ ∀ s, (xmacSystem sampleRings).Reachable s → s.stopped = true → Quiet s := by
  intro h
  have hrun : ((xmacSystem sampleRings).run
      ⟨setupDescs sampleTxMasks .version1, setupRx sampleRxMasks true, false, false, []⟩
      [.init false ⟨[0x1000#64], [], []⟩, .down, .enqueue smallPacket,
        .start ⟨[], [], List.replicate 8 none⟩]).map
        (fun s => (s.stopped, s.tx.txringQueued)) = some (true, 1) := by
    decide
  obtain ⟨s, hs, hq⟩ := Option.map_eq_some_iff.mp hrun
  rw [Prod.mk.injEq] at hq
  have hquiet := h s (System.reachable_of_run _ ⟨true, rfl⟩ hs) hq.1
  exact absurd (hquiet.txringQueued.symm.trans hq.2) (by decide)

end Phytium.Xmac
