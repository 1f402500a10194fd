import PhytiumSdk.Xmac.RxStream

/-!
# XMAC receive: every run

The driver with its hardware and the buffers simulates an inbox, event by event.
From that comes the account of the frames (`rx_stream`), that none is left when
the driver is at rest (`rx_stream_complete`), and that one interrupt is enough
for that (`rx_drain`).
-/

namespace Phytium.Xmac

open Lib Lib.Mask

variable {α : Type} {I : IntMasks} {M : RxbufMasks} {hw : XmacHw} {s s' : StreamState α}
  {box : Inbox (Frame α)}

/-- What a step does to the frames. -/
def inboxEvents (M : RxbufMasks) (s : StreamState α) : StreamEvent α → List (InboxEvent (Frame α))
  | .frame _ ctl data => [.arrive ⟨ctl, data⟩]
  | .driver (.handler _) =>
      match s.intr.pc with
      | .scan _ _ => if received M s.intr.rx then [.take] else []
      | .handUp _ (_ :: _) => [.handUp]
      | _ => []
  | .driver .down => if s.intr.running then [.flush] else []
  | .driver .stop => [.flush]
  | _ => []

structure StreamRel (M : RxbufMasks) (s : StreamState α) (box : Inbox (Frame α)) : Prop where
  boxed : Boxed M s.intr.rx s.intr.pc.held s.mem box
  input : s.input = box.up.map (packetFor M s.intr.rx.rxcsum)

/-! ## One step -/

theorem recvOne_rxcsum (M : RxbufMasks) (rx : RxState) (chain : List RxMbuf) :
    (recvOne M rx chain).1.rxcsum = rx.rxcsum := by
  unfold recvOne
  dsimp only
  split
  · rfl
  · split <;> rfl

theorem fillRqueue_rxcsum (rxbufs : ℕ) (as : List (BitVec 64)) (rx : RxState) :
    (fillRqueue rxbufs as rx).rxcsum = rx.rxcsum := by
  induction as generalizing rx with
  | nil => rfl
  | cons a as ih =>
      rw [fillRqueue]
      split
      · exact ih (fillOne rx a)
      · rfl

/-- The handler goes on, and nothing becomes of the frames. -/
theorem StreamRel.goto (h : StreamRel M s box) {intr : IntrState} (hrx : intr.rx = s.intr.rx)
    (hheld : intr.pc.held = s.intr.pc.held) :
    StreamRel M { s with intr := intr, input := s.input ++ [] } box := by
  refine ⟨?_, ?_⟩
  · show Boxed M intr.rx intr.pc.held s.mem box
    rw [hrx, hheld]
    exact h.boxed
  · show s.input ++ [] = box.up.map (packetFor M intr.rx.rxcsum)
    rw [List.append_nil, hrx]
    exact h.input

theorem StreamRel.fillPass (h : StreamRel M s box) {b : Option (BitVec 64)} {next : IntrPc}
    (hb : aligned b.toList = true)
    (hfresh : ∀ a, b = some a → a ∉ liveAddrs s.intr.rx s.intr.pc.held)
    (hheld : next.held = s.intr.pc.held) :
    StreamRel M { s with intr := fillPass b next s.intr, input := s.input ++ [] } box := by
  unfold Xmac.fillPass
  split
  · rename_i hq
    rcases b with _ | a
    · exact h.goto rfl hheld
    · have ha : a &&& 3#64 = 0#64 := by
        simpa [aligned] using hb
      refine ⟨h.boxed.fillOne hq ha (hfresh a rfl), ?_⟩
      rw [List.append_nil]
      exact h.input
  · exact h.goto rfl hheld

/-- **One step of the handler.** -/
theorem StreamRel.handler {b : Option (BitVec 64)} {intr : IntrState} (h : StreamRel M s box)
    (hb : aligned b.toList = true)
    (hfresh : ∀ a, b = some a → a ∉ liveAddrs s.intr.rx s.intr.pc.held)
    (hs : handlerStep I M hw b s.intr = some intr) :
    ∃ box', (Inbox.system (goodFrame M)).run box (inboxEvents M s (.driver (.handler b))) =
        some box' ∧
      StreamRel M { s with intr := intr, input := s.input ++ handedUp s (.handler b) } box' := by
  unfold handlerStep at hs
  unfold inboxEvents handedUp
  split at hs <;> rename_i hpc <;> simp only [hpc]
  · cases hs
  · cases hs
    exact ⟨box, rfl, h.goto rfl (by rw [hpc]; rfl)⟩
  · cases hs
    refine ⟨box, rfl, h.goto rfl ?_⟩
    rw [hpc]
    dsimp only
    split <;> rfl
  · rename_i istatus chain
    have hboxed := h.boxed
    rw [hpc] at hboxed
    by_cases hr : received M s.intr.rx = true
    · rw [if_pos hr] at hs ⊢
      cases hs
      obtain ⟨box', htake, hup, hboxed'⟩ := hboxed.recvOne hr
      refine ⟨box', ?_, hboxed', ?_⟩
      · have hstep : (Inbox.system (goodFrame M)).step box .take = some box' := htake
        rw [System.run_cons, hstep]
        rfl
      · rw [List.append_nil, hup, recvOne_rxcsum]
        exact h.input
    · rw [if_neg hr] at hs ⊢
      cases hs
      exact ⟨box, rfl, h.goto rfl (by rw [hpc]; rfl)⟩
  · cases hs
    exact ⟨box, rfl, h.fillPass hb hfresh (by rw [hpc]; rfl)⟩
  · rename_i istatus chain
    have hboxed := h.boxed
    rw [hpc] at hboxed
    rcases chain with _ | ⟨m, ms⟩
    · cases hs
      exact ⟨box, rfl, h.goto rfl (by rw [hpc]; rfl)⟩
    · cases hs
      obtain ⟨f, r, hheld, hf, hboxed'⟩ := hboxed.deliver
      refine ⟨{ box with held := r, up := box.up ++ [f] }, ?_, hboxed', ?_⟩
      · have hstep : (Inbox.system (goodFrame M)).step box .handUp =
            some { box with held := r, up := box.up ++ [f] } := Inbox.step_handUp (goodFrame M) hheld
        rw [System.run_cons, hstep]
        rfl
      · show s.input ++ [packetOf s.mem m] = (box.up ++ [f]).map (packetFor M s.intr.rx.rxcsum)
        rw [h.input, hf, List.map_append, List.map_singleton]
  · cases hs
    exact ⟨box, rfl, h.goto (ackBit_frame hw I.rxcomp s.intr).1 (by rw [hpc]; rfl)⟩
  · cases hs
    refine ⟨box, rfl, h.goto ?_ (by rw [hpc]; rfl)⟩
    split
    · exact (ackBit_frame hw I.respErr s.intr).1
    · rfl
  · cases hs
    refine ⟨box, rfl, h.goto ?_ (by rw [hpc]; rfl)⟩
    split
    · exact (ackBit_frame hw I.rxoverrun s.intr).1
    · rfl
  · cases hs
    refine ⟨box, rfl, h.goto rfl ?_⟩
    rw [hpc]
    dsimp only
    split <;> rfl
  · cases hs
    exact ⟨box, rfl, h.fillPass hb hfresh (by rw [hpc]; rfl)⟩
  · cases hs
    exact ⟨box, rfl, h.goto (ackBit_frame hw I.rused s.intr).1 (by rw [hpc]; rfl)⟩

/-- The interface is stopped, whatever else becomes of the state. -/
theorem StreamRel.stopRx (h : StreamRel M s box) {intr : IntrState}
    (hrx : intr.rx = stopRx M s.intr.rx) (hpc : intr.pc = s.intr.pc) :
    StreamRel M { s with intr := intr, input := s.input ++ [] } { box with waiting := [] } := by
  refine ⟨?_, ?_⟩
  · show Boxed M intr.rx intr.pc.held s.mem { box with waiting := [] }
    rw [hrx, hpc]
    exact h.boxed.stopRx
  · show s.input ++ [] = box.up.map (packetFor M intr.rx.rxcsum)
    rw [List.append_nil, hrx]
    exact h.input

/-- **One event** is what it does to the frames. -/
theorem streamStep_rel {e : StreamEvent α} (h : StreamRel M s box) (hok : streamOk s e)
    (hs : streamStep I M hw s e = some s') :
    ∃ box', (Inbox.system (goodFrame M)).run box (inboxEvents M s e) = some box' ∧
      StreamRel M s' box' := by
  cases e with
  | frame addr ctl data =>
      obtain ⟨intr, hintr, rfl⟩ := Option.map_eq_some_iff.mp hs
      obtain ⟨rx, hrx, rfl⟩ := Option.map_eq_some_iff.mp hintr
      have hcsum : rx.rxcsum = s.intr.rx.rxcsum := by
        obtain ⟨-, ht⟩ := Option.ite_none_right_eq_some.mp hrx
        cases ht
        rfl
      refine ⟨_, rfl, h.boxed.hardwareReceive data hrx, ?_⟩
      show s.input = box.up.map (packetFor M rx.rxcsum)
      rw [hcsum]
      exact h.input
  | write a data =>
      cases hs
      exact ⟨box, rfl, h.boxed.write hok data, h.input⟩
  | driver e =>
      cases e with
      | arrive addr ctl => cases hs
      | handler b =>
          obtain ⟨intr, hintr, rfl⟩ := Option.map_eq_some_iff.mp hs
          obtain ⟨hb, hstep⟩ := Option.ite_none_right_eq_some.mp hintr
          refine h.handler hb ?_ hstep
          rintro a rfl
          exact hok
      | intr =>
          obtain ⟨intr, hintr, rfl⟩ := Option.map_eq_some_iff.mp hs
          obtain ⟨hpc, ht⟩ := Option.ite_none_right_eq_some.mp hintr
          cases ht
          refine ⟨box, rfl, h.goto rfl ?_⟩
          rw [hpc]
          dsimp only
          split <;> rfl
      | raise bits =>
          cases hs
          exact ⟨box, rfl, h.goto rfl rfl⟩
      | init as =>
          obtain ⟨intr, hintr, rfl⟩ := Option.map_eq_some_iff.mp hs
          obtain ⟨⟨-, ha⟩, ht⟩ := Option.ite_none_right_eq_some.mp hintr
          cases ht
          split
          · exact ⟨box, rfl, h.goto rfl rfl⟩
          · refine ⟨box, rfl, h.boxed.fillRqueue ha hok, ?_⟩
            show s.input ++ [] = _
            rw [List.append_nil, fillRqueue_rxcsum]
            exact h.input
      | down =>
          obtain ⟨intr, hintr, rfl⟩ := Option.map_eq_some_iff.mp hs
          obtain ⟨-, ht⟩ := Option.ite_none_right_eq_some.mp hintr
          cases ht
          unfold inboxEvents
          dsimp only
          split
          · exact ⟨_, rfl, h.stopRx rfl rfl⟩
          · exact ⟨box, rfl, h.goto rfl rfl⟩
      | stop =>
          obtain ⟨intr, hintr, rfl⟩ := Option.map_eq_some_iff.mp hs
          obtain ⟨-, ht⟩ := Option.ite_none_right_eq_some.mp hintr
          cases ht
          exact ⟨_, rfl, h.stopRx rfl rfl⟩

/-! ## Every run -/

theorem stream_simulates (I : IntMasks) (M : RxbufMasks) (hw : XmacHw) :
    System.Simulates ((streamSystem (α := α) I M hw).restrict streamOk)
      (Inbox.system (goodFrame M)) (inboxEvents M) (StreamRel M) where
  init := by
    rintro ⟨intr, mem, input⟩ ⟨⟨rxcsum, status, hintr⟩, hinput⟩
    dsimp only at hintr hinput
    subst hintr hinput
    exact ⟨_, rfl, boxed_setupRx M rxcsum mem, rfl⟩
  step := by
    intro s e s' box hrel hs
    obtain ⟨hok, hstep⟩ := System.restrict_step.mp hs
    exact streamStep_rel hrel hok hstep

/-- The frames that arrive in a run. -/
def arrived (es : List (StreamEvent α)) : List (Frame α) :=
  es.filterMap fun
    | .frame _ ctl data => some ⟨ctl, data⟩
    | _ => none

/-- The interface is stopped or taken down. -/
def StreamEvent.stops : StreamEvent α → Bool
  | .driver .down | .driver .stop => true
  | _ => false

theorem arrived_trace {s t : StreamState α} {es : List (StreamEvent α)}
    (hr : ((streamSystem I M hw).restrict streamOk).run s es = some t) :
    (System.trace ((streamSystem I M hw).restrict streamOk) (inboxEvents M) s es).filterMap
      Inbox.brought = arrived es := by
  refine System.filterMap_trace ?_ hr
  intro u e u' _
  cases e with
  | frame addr ctl data => rfl
  | write a data => rfl
  | driver e =>
      unfold inboxEvents
      cases e with
      | handler b =>
          dsimp only
          split
          · split <;> rfl
          · rfl
          · rfl
      | down =>
          dsimp only
          split <;> rfl
      | _ => rfl

theorem flush_not_mem_trace {s : StreamState α} {es : List (StreamEvent α)}
    (h : ∀ e ∈ es, e.stops = false) :
    .flush ∉ System.trace ((streamSystem I M hw).restrict streamOk) (inboxEvents M) s es := by
  intro hmem
  obtain ⟨e, he, t, hflush⟩ := System.mem_trace hmem
  have hno := h e he
  unfold inboxEvents at hflush
  split at hflush
  · simp at hflush
  · split at hflush
    · split at hflush <;> simp at hflush
    · simp at hflush
    · cases hflush
  · cases hno
  · cases hno
  · cases hflush

/-- The frames whose packets are still to be handed up are those that wait in
the ring; a run is accounted for by what was kept. -/
theorem stream_accounts {s₀ s : StreamState α} {es : List (StreamEvent α)}
    (h₀ : (streamSystem I M hw).init s₀)
    (hr : ((streamSystem I M hw).restrict streamOk).run s₀ es = some s) :
    ∃ box kept, StreamRel M s box ∧ kept.Sublist (arrived es) ∧
      (∀ es₁ es₂, es = es₁ ++ es₂ → (∀ e ∈ es₂, e.stops = false) → arrived es₂ <:+ kept) ∧
      box.up ++ box.held ++ box.waiting.filter (goodFrame M) = kept.filter (goodFrame M) := by
  have hsim := stream_simulates (α := α) I M hw
  obtain ⟨_, rfl, hrel₀⟩ := hsim.init s₀ h₀
  obtain ⟨box, hbox, hrel⟩ := hsim.run hrel₀ hr
  obtain ⟨kept, hkept⟩ := Inbox.run_accounts hbox
  refine ⟨box, kept, hrel, ?_, ?_, hkept.places⟩
  · rw [← arrived_trace hr]
    exact hkept.sublist
  · rintro es₁ es₂ rfl hstops
    rw [System.run_append, Option.bind_eq_some_iff] at hr
    obtain ⟨u, hu, hr⟩ := hr
    rw [← arrived_trace hr]
    exact hkept.recent _ _ (System.trace_append hu es₂) (flush_not_mem_trace hstops)

/-- **What the stack is given.** In every run it is given good frames that have
arrived, in the order of their arrival and each once, with their lengths,
checksum status and contents; and of those that arrived since the interface was
last stopped it misses none it has been given a later one of. -/
theorem rx_stream {s₀ s : StreamState α} {es : List (StreamEvent α)}
    (h₀ : (streamSystem I M hw).init s₀)
    (hr : ((streamSystem I M hw).restrict streamOk).run s₀ es = some s) :
    ∃ kept, kept.Sublist (arrived es) ∧
      (∀ es₁ es₂, es = es₁ ++ es₂ → (∀ e ∈ es₂, e.stops = false) → arrived es₂ <:+ kept) ∧
      s.input <+: (kept.filter (goodFrame M)).map (packetFor M s.intr.rx.rxcsum) := by
  obtain ⟨box, kept, hrel, hsub, hrecent, hplaces⟩ := stream_accounts h₀ hr
  refine ⟨kept, hsub, hrecent, ?_⟩
  rw [hrel.input, ← hplaces, List.append_assoc, List.map_append]
  exact List.prefix_append _ _

/-- A good and a broken frame, and the interrupt. -/
def twoFrameStream : List (StreamEvent ℕ) :=
  [.driver (.init [0x1000#64, 0x2000#64]), .frame 0x1001#32 (3#32 <<< 14 ||| 60#32) 7,
    .write 0x3000#64 9, .frame 0x2001#32 (1#32 <<< 13) 8]

/-- The driver before its first frame. -/
def streamStart : StreamState ℕ :=
  ⟨⟨setupRx sampleRxMasks true, 0#32, false, .idle⟩, fun _ => 0, []⟩

theorem streamStart_init (hw : XmacHw) :
    (streamSystem (α := ℕ) sampleIntMasks sampleRxMasks hw).init streamStart :=
  ⟨⟨true, 0#32, rfl⟩, rfl⟩

theorem rx_stream_two_frames : ∃ s,
    ((streamSystem sampleIntMasks sampleRxMasks .version1).restrict streamOk).run streamStart
      (twoFrameStream ++ .driver .intr ::
        List.replicate 12 (.driver (.handler none))) = some s ∧
    s.input.map Packet.data = [7] ∧
    ∃ kept : List (Frame ℕ), kept.Sublist (arrived twoFrameStream) ∧
      s.input <+: (kept.filter (goodFrame sampleRxMasks)).map
        (packetFor sampleRxMasks s.intr.rx.rxcsum) := by
  have hrun : (((streamSystem sampleIntMasks sampleRxMasks .version1).restrict streamOk).run
      streamStart (twoFrameStream ++ .driver .intr ::
        List.replicate 12 (.driver (.handler none)))).map (fun s => s.input.map Packet.data) =
      some [7] := by
    decide
  obtain ⟨s, hs, hinput⟩ := Option.map_eq_some_iff.mp hrun
  obtain ⟨kept, hsub, -, hpre⟩ := rx_stream (streamStart_init .version1) hs
  exact ⟨s, hs, hinput, kept, hsub, hpre⟩

/-! ## The driver at rest -/

/-- Nothing waits and nothing is held: the stack has it all. -/
theorem stream_at_rest {s₀ s : StreamState α} {es₁ es₂ : List (StreamEvent α)}
    (h₀ : (streamSystem I M hw).init s₀)
    (hr : ((streamSystem I M hw).restrict streamOk).run s₀ (es₁ ++ es₂) = some s)
    (hstops : ∀ e ∈ es₂, e.stops = false) (hidle : s.intr.pc = .idle)
    (hnone : received M s.intr.rx = false) :
    ((arrived es₂).filter (goodFrame M)).map (packetFor M s.intr.rx.rxcsum) <:+ s.input := by
  obtain ⟨box, kept, hrel, -, hrecent, hplaces⟩ := stream_accounts h₀ hr
  have hwaiting : box.waiting = [] := by
    by_contra hw
    have hrec := hrel.boxed.received_iff.mpr hw
    rw [hnone] at hrec
    cases hrec
  have hheld : box.held = [] := by
    have hmap := hrel.boxed.held
    rw [hidle] at hmap
    exact List.map_eq_nil_iff.mp hmap.symm
  rw [hwaiting, hheld, List.filter_nil, List.append_nil, List.append_nil] at hplaces
  rw [hrel.input, hplaces]
  obtain ⟨early, hearly⟩ := hrecent es₁ es₂ rfl hstops
  rw [← hearly, List.filter_append, List.map_append]
  exact List.suffix_append _ _

theorem streamStep_driver {e : IntrEvent}
    (hs : (streamSystem I M hw).step s (.driver e) = some s') :
    intrStep I M hw s.intr e = some s'.intr ∧ s'.mem = s.mem ∧
      s'.input = s.input ++ handedUp s e := by
  cases e with
  | arrive addr ctl => cases hs
  | raise bits =>
      cases hs
      exact ⟨rfl, rfl, rfl⟩
  | _ =>
      obtain ⟨intr, hintr, rfl⟩ := Option.map_eq_some_iff.mp hs
      exact ⟨hintr, rfl, rfl⟩

theorem stream_reachable {s₀ s : StreamState α} {es : List (StreamEvent α)}
    (h₀ : (streamSystem I M hw).init s₀)
    (hr : ((streamSystem I M hw).restrict streamOk).run s₀ es = some s) :
    ((streamSystem I M hw).restrict streamOk).Reachable s :=
  System.Reachable.run (.init h₀) hr

/-- The buffers left out, it is the driver with its interrupt. -/
theorem stream_reachable_intr {s : StreamState α}
    (h : ((streamSystem I M hw).restrict streamOk).Reachable s) :
    (intrSystem I M hw).Reachable s.intr := by
  have hsim : System.Simulates ((streamSystem (α := α) I M hw).restrict streamOk)
      (intrSystem I M hw)
      (fun _ e => match e with
        | .frame addr ctl _ => [.arrive addr ctl]
        | .driver e => [e]
        | .write _ _ => [])
      (fun s intr => s.intr = intr) := by
    constructor
    · intro s hs
      exact ⟨s.intr, hs.1, rfl⟩
    · rintro s e s' _ rfl hs
      obtain ⟨-, hstep⟩ := System.restrict_step.mp hs
      refine ⟨s'.intr, ?_, rfl⟩
      cases e with
      | frame addr ctl data =>
          obtain ⟨intr, hintr, rfl⟩ := Option.map_eq_some_iff.mp hstep
          exact congrArg (Option.bind · some) hintr
      | write a data =>
          cases hstep
          rfl
      | driver e =>
          exact congrArg (Option.bind · some) (streamStep_driver hstep).1
  obtain ⟨intr, hreach, rfl⟩ := hsim.reachable h
  exact hreach

/-- **The stack has everything** when the driver of `phytium_xmac.c` is at rest
and no interrupt is pending: every good frame that has arrived since the
interface was last stopped. -/
theorem rx_stream_complete (hw1 : hw ≠ .msg) {s₀ s : StreamState α}
    {es₁ es₂ : List (StreamEvent α)} (h₀ : (streamSystem I M hw).init s₀)
    (hr : ((streamSystem I M hw).restrict streamOk).run s₀ (es₁ ++ es₂) = some s)
    (hstops : ∀ e ∈ es₂, e.stops = false) (hrun : s.intr.running = true)
    (hidle : s.intr.pc = .idle) (hclear : has s.intr.status I.rxcomp = false) :
    ((arrived es₂).filter (goodFrame M)).map (packetFor M s.intr.rx.rxcsum) <:+ s.input := by
  have hreach := stream_reachable_intr (stream_reachable h₀ hr)
  exact stream_at_rest h₀ hr hstops hidle (rx_noticed_of_one_write hw1 hreach hrun hidle hclear)

theorem rx_stream_complete_two_frames : ∃ s,
    ((streamSystem sampleIntMasks sampleRxMasks .version1).restrict streamOk).run streamStart
      (twoFrameStream ++ .driver .intr ::
        List.replicate 12 (.driver (.handler none))) = some s ∧
    ((arrived twoFrameStream).filter (goodFrame sampleRxMasks)).map
      (packetFor sampleRxMasks s.intr.rx.rxcsum) <:+ s.input := by
  have hrun : (((streamSystem sampleIntMasks sampleRxMasks .version1).restrict streamOk).run
      streamStart ([] ++ (twoFrameStream ++ .driver .intr ::
        List.replicate 12 (.driver (.handler none))))).map
        (fun s => (s.intr.running, s.intr.pc, has s.intr.status sampleIntMasks.rxcomp)) =
      some (true, .idle, false) := by
    decide
  obtain ⟨s, hs, hq⟩ := Option.map_eq_some_iff.mp hrun
  simp only [Prod.mk.injEq] at hq
  obtain ⟨hrunning, hidle, hclear⟩ := hq
  have h := rx_stream_complete (by decide) (streamStart_init .version1) hs (by decide)
    hrunning hidle hclear
  exact ⟨s, hs, h⟩

/-! ## One interrupt -/

/-- How far the handler has still to go: the chain and the ring, and what it can
put into the ring. -/
def handlerRank (t : IntrState) : ℕ :=
  match t.pc with
  | .idle => 0
  | .ackRused _ => 1
  | .rusedFill _ => 2 + (256 - t.rx.rxringQueued)
  | .rused _ => 259
  | .overrun _ => 260
  | .respErr _ => 261
  | .ackRx _ => 262
  | .handUp _ chain => 263 + chain.length
  | .refill _ chain => 264 + chain.length + (256 - t.rx.rxringQueued)
  | .scan _ chain => 521 + chain.length + 2 * t.rx.rxringQueued
  | .clear _ => 522 + 2 * t.rx.rxringQueued
  | .read => 523 + 2 * t.rx.rxringQueued

theorem recvOne_shrinks (M : RxbufMasks) (rx : RxState) (chain : List RxMbuf) :
    (recvOne M rx chain).1.rxringQueued = rx.rxringQueued - 1 ∧
      (recvOne M rx chain).2.length ≤ chain.length + 1 := by
  unfold recvOne
  dsimp only
  split
  · exact ⟨rfl, Nat.le_succ _⟩
  · split
    · exact ⟨rfl, Nat.le_succ _⟩
    · exact ⟨rfl, by simp⟩

theorem fillPass_cases (b : Option (BitVec 64)) (next : IntrPc) (t : IntrState) :
    fillPass b next t = { t with pc := next } ∨
      ∃ a, b = some a ∧ t.rx.rxringQueued < 256 ∧
        fillPass b next t = { t with rx := fillOne t.rx a } := by
  unfold fillPass
  split
  · rename_i hq
    rcases b with _ | a
    · exact Or.inl rfl
    · exact Or.inr ⟨a, rfl, hq, rfl⟩
  · exact Or.inl rfl

theorem handlerStep_rank {b : Option (BitVec 64)} {t t' : IntrState}
    (hs : handlerStep I M hw b t = some t') : handlerRank t' < handlerRank t := by
  unfold handlerStep at hs
  unfold handlerRank
  split at hs <;> rename_i hpc <;> simp only [hpc]
  · cases hs
  · cases hs
    dsimp only
    omega
  · rename_i istatus
    cases hs
    by_cases hbit : has istatus I.rxcomp = true
    · simp only [if_pos hbit, List.length_nil]
      omega
    · simp only [if_neg hbit]
      omega
  · rename_i istatus chain
    by_cases hr : received M t.rx = true
    · rw [if_pos hr] at hs
      cases hs
      obtain ⟨hq, hchain⟩ := recvOne_shrinks M t.rx chain
      rw [received, Bool.and_eq_true, decide_eq_true_iff] at hr
      dsimp only
      omega
    · rw [if_neg hr] at hs
      cases hs
      dsimp only
      omega
  · cases hs
    rcases fillPass_cases b _ t with hp | ⟨a, -, hq, hp⟩
    · rw [hp]
      dsimp only
      omega
    · rw [hp]
      simp only [hpc, fillOne]
      omega
  · rename_i istatus chain
    rcases chain with _ | ⟨m, ms⟩
    · cases hs
      dsimp only
      omega
    · cases hs
      dsimp only
      rw [List.length_cons]
      omega
  · cases hs
    dsimp only
    omega
  · cases hs
    dsimp only
    omega
  · cases hs
    dsimp only
    omega
  · rename_i istatus
    cases hs
    by_cases hbit : has istatus I.rused = true
    · simp only [if_pos hbit]
      omega
    · simp only [if_neg hbit]
      omega
  · cases hs
    rcases fillPass_cases b _ t with hp | ⟨a, -, hq, hp⟩
    · rw [hp]
      dsimp only
      omega
    · rw [hp]
      simp only [hpc, fillOne]
      omega
  · cases hs
    dsimp only
    omega

/-- The handler is on its way to the scan. -/
def IntrPc.looking (I : IntMasks) (status : BitVec 32) : IntrPc → Bool
  | .read => has status I.rxcomp
  | .clear istatus => has istatus I.rxcomp
  | .scan _ _ => true
  | _ => false

/-- No frame waits, or the handler is going to look. -/
def Draining (I : IntMasks) (M : RxbufMasks) (t : IntrState) : Prop :=
  received M t.rx = true → t.pc.looking I t.status = true

theorem fillPass_received {b : Option (BitVec 64)} {next : IntrPc} {t : IntrState}
    (hring : RxInv M defaultNumRxBufs t.rx t.pc.held) (hb : aligned b.toList = true)
    (hr : received M (fillPass b next t).rx = true) : received M t.rx = true := by
  rcases fillPass_cases b next t with hp | ⟨a, rfl, -, hp⟩
  · rw [hp] at hr
    exact hr
  · rw [hp] at hr
    have ha : a &&& 3#64 = 0#64 := by
      simpa [aligned] using hb
    exact received_fillOne hring ha hr

/-- Only the scan takes frames out, and nothing here brings one. -/
theorem handlerStep_draining {b : Option (BitVec 64)} {t t' : IntrState}
    (hring : RxInv M defaultNumRxBufs t.rx t.pc.held) (hb : aligned b.toList = true)
    (h : Draining I M t) (hs : handlerStep I M hw b t = some t') : Draining I M t' := by
  intro hr
  unfold handlerStep at hs
  unfold Draining at h
  split at hs <;> rename_i hpc <;> rw [hpc] at h
  · cases hs
  · cases hs
    exact h hr
  · rename_i istatus
    cases hs
    have hbit : has istatus I.rxcomp = true := h hr
    dsimp only
    rw [if_pos hbit]
    rfl
  · rename_i istatus chain
    by_cases hrec : received M t.rx = true
    · rw [if_pos hrec] at hs
      cases hs
      rfl
    · rw [if_neg hrec] at hs
      cases hs
      exact absurd hr hrec
  · cases hs
    exact absurd (h (fillPass_received hring hb hr)) Bool.false_ne_true
  · rename_i istatus chain
    rcases chain with _ | ⟨m, ms⟩
    · cases hs
      exact absurd (h hr) Bool.false_ne_true
    · cases hs
      exact absurd (h hr) Bool.false_ne_true
  · cases hs
    dsimp only at hr
    rw [(ackBit_frame hw I.rxcomp t).1] at hr
    exact absurd (h hr) Bool.false_ne_true
  · cases hs
    dsimp only at hr
    refine absurd (h ?_) Bool.false_ne_true
    split at hr
    · rw [(ackBit_frame hw I.respErr t).1] at hr
      exact hr
    · exact hr
  · cases hs
    dsimp only at hr
    refine absurd (h ?_) Bool.false_ne_true
    split at hr
    · rw [(ackBit_frame hw I.rxoverrun t).1] at hr
      exact hr
    · exact hr
  · cases hs
    exact absurd (h hr) Bool.false_ne_true
  · cases hs
    exact absurd (h (fillPass_received hring hb hr)) Bool.false_ne_true
  · cases hs
    dsimp only at hr
    rw [(ackBit_frame hw I.rused t).1] at hr
    exact absurd (h hr) Bool.false_ne_true

/-- The handler by itself, with what `m_getcl` returns in its steps. -/
def handlerRun (as : List (Option (BitVec 64))) : List (StreamEvent α) :=
  as.map fun b => .driver (.handler b)

theorem handlerRun_draining {t : StreamState α} {as : List (Option (BitVec 64))}
    (hrel : ∃ box, StreamRel M s box) (h : Draining I M s.intr)
    (hr : ((streamSystem I M hw).restrict streamOk).run s (handlerRun as) = some t) :
    Draining I M t.intr := by
  induction as generalizing s with
  | nil =>
      cases hr
      exact h
  | cons b as ih =>
      rw [handlerRun, List.map_cons, System.run_cons, Option.bind_eq_some_iff] at hr
      obtain ⟨u, hu, hr⟩ := hr
      obtain ⟨box, hbox⟩ := hrel
      obtain ⟨hok, hstep⟩ := System.restrict_step.mp hu
      obtain ⟨box', -, hbox'⟩ := streamStep_rel hbox hok hstep
      obtain ⟨hb, hhandler⟩ := Option.ite_none_right_eq_some.mp (streamStep_driver hstep).1
      exact ih ⟨box', hbox'⟩ (handlerStep_draining hbox.boxed.ring hb h hhandler) hr

theorem handlerRun_length {t : StreamState α} {as : List (Option (BitVec 64))}
    (h : ((streamSystem I M hw).restrict streamOk).Reachable s)
    (hr : ((streamSystem I M hw).restrict streamOk).run s (handlerRun as) = some t) :
    as.length ≤ handlerRank s.intr := by
  have hlen : (handlerRun (α := α) as).length = as.length := List.length_map _
  rw [← hlen]
  refine h.run_length_le (fun u => handlerRank u.intr) (Q := fun e => ∃ b, e = .driver (.handler b))
    ?_ ?_ hr
  · rintro u e u' - ⟨b, rfl⟩ hs
    obtain ⟨-, hstep⟩ := System.restrict_step.mp hs
    obtain ⟨-, hhandler⟩ := Option.ite_none_right_eq_some.mp (streamStep_driver hstep).1
    exact handlerStep_rank hhandler
  · intro e he
    obtain ⟨b, -, rfl⟩ := List.mem_map.mp he
    exact ⟨b, rfl⟩

/-- The handler is never stuck. -/
theorem handler_enabled (hpc : s.intr.pc ≠ .idle) :
    ∃ t, ((streamSystem I M hw).restrict streamOk).step s (.driver (.handler none)) = some t := by
  have hsome : ∃ intr, handlerStep I M hw none s.intr = some intr := by
    unfold handlerStep
    split
    · rename_i h
      exact absurd h hpc
    · exact ⟨_, rfl⟩
    · exact ⟨_, rfl⟩
    · split <;> exact ⟨_, rfl⟩
    · exact ⟨_, rfl⟩
    · split <;> exact ⟨_, rfl⟩
    all_goals exact ⟨_, rfl⟩
  obtain ⟨intr, hintr⟩ := hsome
  refine ⟨{ s with intr := intr, input := s.input ++ handedUp s (.handler none) }, ?_⟩
  refine System.restrict_step.mpr ⟨trivial, ?_⟩
  show (intrStep I M hw s.intr (.handler none)).map _ = _
  rw [show intrStep I M hw s.intr (.handler none) = some intr from hintr]
  rfl

/-- **One interrupt is enough.** When the driver of `phytium_xmac.c` is at rest
and the interrupt comes, the handler is never stuck, it is done after at most
1035 steps if no frame arrives meanwhile, whatever `m_getcl` does, and then the
stack has every good frame that has arrived since the interface was last
stopped. -/
theorem rx_drain (hw1 : hw ≠ .msg) {s₀ s t : StreamState α} {es₁ es₂ : List (StreamEvent α)}
    {as : List (Option (BitVec 64))} (h₀ : (streamSystem I M hw).init s₀)
    (hr : ((streamSystem I M hw).restrict streamOk).run s₀ (es₁ ++ es₂) = some s)
    (hstops : ∀ e ∈ es₂, e.stops = false) (hrun : s.intr.running = true)
    (hidle : s.intr.pc = .idle)
    (ht : ((streamSystem I M hw).restrict streamOk).run s (.driver .intr :: handlerRun as) =
      some t) :
    as.length ≤ 1035 ∧
    (t.intr.pc ≠ .idle →
      ∃ t', ((streamSystem I M hw).restrict streamOk).step t (.driver (.handler none)) = some t') ∧
    (t.intr.pc = .idle →
      ((arrived es₂).filter (goodFrame M)).map (packetFor M t.intr.rx.rxcsum) <:+ t.input) := by
  have hreach := stream_reachable h₀ hr
  have hnoticed := rx_noticed_of_one_write hw1 (stream_reachable_intr hreach) hrun hidle
  rw [System.run_cons, Option.bind_eq_some_iff] at ht
  obtain ⟨u, hu, ht⟩ := ht
  obtain ⟨-, hstep⟩ := System.restrict_step.mp hu
  obtain ⟨-, hintr⟩ := Option.ite_none_right_eq_some.mp (streamStep_driver hstep).1
  rw [if_pos hrun, Option.some.injEq] at hintr
  have hrelu : ∃ box, StreamRel M u box := by
    have hall : ((streamSystem I M hw).restrict streamOk).run s₀
        ((es₁ ++ es₂) ++ [.driver .intr]) = some u := by
      rw [System.run_append, hr, Option.bind_some, System.run_cons, hu]
      rfl
    obtain ⟨box, -, hrel, -⟩ := stream_accounts h₀ hall
    exact ⟨box, hrel⟩
  refine ⟨?_, handler_enabled, ?_⟩
  · have hlen := handlerRun_length (hreach.step hu) ht
    obtain ⟨box, hrel⟩ := hrelu
    have hq : u.intr.rx.rxringQueued ≤ 256 := hrel.boxed.ring.queued_le
    rw [handlerRank, ← hintr] at hlen
    rw [← hintr] at hq
    dsimp only at hlen hq
    omega
  · intro htidle
    have hdrain : Draining I M u.intr := by
      intro hrec
      rw [← hintr] at hrec ⊢
      show has s.intr.status I.rxcomp = true
      by_contra hclear
      rw [hnoticed (Bool.eq_false_of_not_eq_true hclear)] at hrec
      cases hrec
    have hdone := handlerRun_draining hrelu hdrain ht
    have hnone : received M t.intr.rx = false := by
      by_contra hrec
      have hlook := hdone (Bool.eq_true_of_not_eq_false hrec)
      rw [htidle] at hlook
      cases hlook
    have hall : ((streamSystem I M hw).restrict streamOk).run s₀
        (es₁ ++ (es₂ ++ .driver .intr :: handlerRun as)) = some t := by
      rw [← List.append_assoc, System.run_append, hr, Option.bind_some, System.run_cons, hu]
      exact ht
    have hquiet : ∀ e ∈ es₂ ++ .driver .intr :: handlerRun as, e.stops = false := by
      intro e he
      rcases List.mem_append.mp he with he | he
      · exact hstops e he
      · rcases List.mem_cons.mp he with rfl | he
        · rfl
        · obtain ⟨b, -, rfl⟩ := List.mem_map.mp he
          rfl
    have harrived : arrived (es₂ ++ .driver .intr :: handlerRun as) = arrived es₂ := by
      have hnothing : arrived (α := α) (handlerRun as) = [] :=
        List.filterMap_eq_nil_iff.mpr fun e he => by
          obtain ⟨b, -, rfl⟩ := List.mem_map.mp he
          rfl
      unfold arrived at hnothing ⊢
      rw [List.filterMap_append, List.filterMap_cons, hnothing, List.append_nil]
    rw [← harrived]
    exact stream_at_rest h₀ hall hquiet htidle hnone

theorem rx_drain_two_frames : ∃ t,
    ((streamSystem sampleIntMasks sampleRxMasks .version1).restrict streamOk).run streamStart
      (twoFrameStream ++ .driver .intr :: handlerRun (List.replicate 12 none)) = some t ∧
    ((arrived twoFrameStream).filter (goodFrame sampleRxMasks)).map
      (packetFor sampleRxMasks t.intr.rx.rxcsum) <:+ t.input := by
  have hfirst : (((streamSystem sampleIntMasks sampleRxMasks .version1).restrict streamOk).run
      streamStart ([] ++ twoFrameStream)).map (fun s => (s.intr.running, s.intr.pc)) =
      some (true, .idle) := by
    decide
  have hall : (((streamSystem sampleIntMasks sampleRxMasks .version1).restrict streamOk).run
      streamStart (twoFrameStream ++ .driver .intr :: handlerRun (List.replicate 12 none))).map
        (fun t => t.intr.pc) = some .idle := by
    decide
  obtain ⟨s, hs, hq⟩ := Option.map_eq_some_iff.mp hfirst
  obtain ⟨t, ht, htidle⟩ := Option.map_eq_some_iff.mp hall
  rw [Prod.mk.injEq] at hq
  refine ⟨t, ht, ?_⟩
  rw [System.run_append, Option.bind_eq_some_iff] at ht
  obtain ⟨u, hu, ht⟩ := ht
  obtain rfl := Option.some.inj (hs.symm.trans hu)
  exact (rx_drain (by decide) (streamStart_init .version1) hs (by decide) hq.1 hq.2 ht).2.2
    htidle

end Phytium.Xmac
