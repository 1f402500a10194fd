import PhytiumSdk.Sdif.AtMostOnce

/-!
# Requests that cannot be started

A request call stores `sc->req`, `sc->curcmd` and `req_pending` before it knows
that the transfer can be started, and its error paths take none of them back. So
a failed call leaves the driver idle only where nothing was stored, where the
polling loop has seen the pending command end, or where a late interrupt has
cleaned up; and the start of a transfer in `phytium_sdif_v2.c` fails without an
error code.

This is about one call, from any state in which the driver is idle. Interrupts
may come at every step of it, until it returns.
-/

namespace Phytium.Sdif

open Lib

variable {cfg : SdifConfig} {s t : SdifState} {k : ℕ}

/-- `sc->req` and `sc->curcmd` are null, and `req_pending` is clear. -/
def DriverIdle (s : SdifState) : Prop := s.req = none ∧ s.curcmd = none ∧ s.reqPending = false

instance (s : SdifState) : Decidable (DriverIdle s) := inferInstanceAs (Decidable (_ ∧ _))

structure TryState where
  sdif : SdifState
  /-- where the call has failed -/
  failedAt : Option CallPc
  /-- an interrupt has got to `sdif_finish_command` since the call has last
  stored one of `sc->req`, `sc->curcmd` and `req_pending` -/
  late : Bool

/-- What is called there can fail. -/
def fallible : CallPc → Bool
  | .busy => true
  | .blockCount .start => true
  | .blockCount .poll => true
  | .blockCount .busy => true
  | .issue (.dmaPrepare _) => true
  | .issue .start => true
  | _ => false

/-- One of `sc->req`, `sc->curcmd` and `req_pending` is stored there. -/
def stores : CallPc → Bool
  | .blockCount .setPending => true
  | .issue .setReq => true
  | .issue .setCurcmd => true
  | .issue .setPending => true
  | _ => false

/-- The interrupt gets to `sdif_finish_command`. -/
def finishes (cfg : SdifConfig) (s : SdifState) : SdifEvent → Bool
  | .cmdDone _ => !s.expectData || s.dtoRcvd
  | .dataDone _ => !(cfg.usesDma && !dmaDoneOk cfg s s.curcmd) && s.cmdDone
  | _ => false

/-- What goes on record when the call has made its step at `p`. -/
def afterCall (s : TryState) (p : CallPc) (ok : Bool) (t : SdifState) : TryState where
  sdif := t
  failedAt := if !ok && fallible p then some p else s.failedAt
  late := s.late && !stores p

/-- One step of the `k`-th call or of an interrupt, until the call returns. -/
def tryStep (cfg : SdifConfig) (k : ℕ) (s : TryState) (e : SdifEvent) : Option TryState :=
  match s.sdif.pc k, e with
  | .returned _, _ => none
  | _, .submit _ _ => none
  | p, .call j ok =>
      if j = k then (sdifStep cfg s.sdif e).map (afterCall s p ok) else none
  | _, e => (sdifStep cfg s.sdif e).map fun t => ⟨t, s.failedAt, s.late || finishes cfg s.sdif e⟩

/-- The call stands at its first statement, in an idle driver. -/
structure TryStart (cfg : SdifConfig) (k : ℕ) (s : TryState) : Prop where
  entry : s.sdif.pc k = entry cfg
  idle : DriverIdle s.sdif
  failedAt : s.failedAt = none

def trySystem (cfg : SdifConfig) (k : ℕ) : System TryState SdifEvent where
  init := TryStart cfg k
  step := tryStep cfg k

/-- A failure there leaves nothing behind: nothing was stored before, or the
polling loop has seen `req_pending` clear. -/
def tidy : CallPc → Bool
  | .busy => true
  | .blockCount .busy => true
  | _ => false

/-- The start of a transfer in `phytium_sdif_v2.c`, which has no error code. -/
def silent (cfg : SdifConfig) (p : CallPc) : Prop := cfg.version = .v2 ∧ p = .issue .start

/-! ## Stages of a call -/

inductive TryStage where
  /-- nothing is stored -/
  | calm
  /-- the block count command is pending -/
  | counting
  /-- the call has failed before its own command -/
  | turned
  /-- `sc->req` is stored, `req_pending` is not -/
  | claimed
  /-- all is stored -/
  | pending
  /-- the command is started -/
  | armed
  | ended (err : Option Errno)

def tryStage (v : Version) : CallPc → TryStage
  | .blockCount .setExpect => .counting
  | .blockCount .start => .counting
  | .blockCount .poll => .counting
  | .blockCount (.exit (some _)) => .turned
  | .filter (some _) => .turned
  | .issue .setReq => .calm
  | .issue (.dmaPrepare _) =>
      match v with
      | .v1 => .pending
      | .v2 => .claimed
  | .issue .setExpect => .pending
  | .issue .start => .pending
  | .issue .arm => .armed
  | .issue _ => .claimed
  | .unlock err => .ended err
  | .returned err => .ended err
  | _ => .calm

/-- The driver is idle behind a failure at `p` just when that is a tidy place,
or a late interrupt has come. -/
structure Leftover (p : CallPc) (s : TryState) : Prop where
  curcmd : s.sdif.req = none → s.sdif.curcmd = none
  idle : DriverIdle s.sdif ↔ tidy p = true ∨ s.late = true

/-- What the shared fields hold at each stage. -/
def AtStage (cfg : SdifConfig) (k : ℕ) (s : TryState) : TryStage → Prop
  | .calm => DriverIdle s.sdif ∧ s.failedAt = none
  | .counting =>
      s.sdif.req = none ∧ s.sdif.curcmd = none ∧ s.sdif.reqPending = !s.late ∧ s.failedAt = none
  | .turned => ∃ p, s.failedAt = some p ∧ p ≠ .issue .start ∧ Leftover p s
  | .claimed =>
      s.sdif.req = some k ∧ s.sdif.reqPending = false ∧ s.late = false ∧ s.failedAt = none
  | .pending =>
      (s.sdif.req = none → s.sdif.curcmd = none) ∧ (DriverIdle s.sdif ↔ s.late = true) ∧
        s.failedAt = none
  | .armed => s.failedAt = none
  | .ended err => ∀ p, s.failedAt = some p → Leftover p s ∧ (err = none ↔ silent cfg p)

/-- A run is at its stage, or has ended in a panic. -/
def TryInv (cfg : SdifConfig) (k : ℕ) (s : TryState) : Prop :=
  AtStage cfg k s (tryStage cfg.version (s.sdif.pc k)) ∨
    s.sdif.panicked = true ∧ (s.sdif.pc k).isReturned = false

/-! ## Interrupts -/

/-- The shared fields are the same. -/
structure SameSlots (s t : SdifState) : Prop where
  req : t.req = s.req
  curcmd : t.curcmd = s.curcmd
  reqPending : t.reqPending = s.reqPending

/-- What `sdif_finish_command` does to the shared fields, if it does not
panic. -/
structure Finished (s t : SdifState) : Prop where
  req : t.req = none
  reqPending : t.reqPending = false
  spurious : s.req = none → t.curcmd = s.curcmd
  current : ∀ r, s.req = some r → s.reqPending = true ∧ t.curcmd = none

theorem Finished.after {u : SdifState} (h : SameSlots s u) (hf : Finished u t) : Finished s t := by
  refine ⟨hf.req, hf.reqPending, ?_, ?_⟩
  · intro hnone
    rw [hf.spurious (h.req.trans hnone), h.curcmd]
  · intro r hr
    rw [← h.reqPending]
    exact hf.current r (h.req.trans hr)

variable (cfg) in
theorem finishCommand_finished (s : SdifState) :
    (finishCommand cfg s).pc = s.pc ∧
    ((finishCommand cfg s).panicked = true ∨ Finished s (finishCommand cfg s)) := by
  unfold finishCommand
  split
  · rename_i hreq
    refine ⟨rfl, Or.inr ⟨hreq, rfl, fun _ => rfl, ?_⟩⟩
    intro r hr
    rw [hreq] at hr
    cases hr
  · rename_i r hreq
    split
    · rename_i hpend
      split
      · refine ⟨rfl, Or.inr ⟨rfl, rfl, ?_, fun _ _ => ⟨hpend, rfl⟩⟩⟩
        intro hnone
        rw [hreq] at hnone
        cases hnone
      · exact ⟨rfl, Or.inl rfl⟩
    · exact ⟨rfl, Or.inl rfl⟩

/-- **What an interrupt does** to the shared fields: nothing, unless it gets to
`sdif_finish_command`. -/
theorem interrupt_spec {e : SdifEvent} (hcall : ∀ j ok, e ≠ .call j ok)
    (hsubmit : ∀ cmd bytes, e ≠ .submit cmd bytes) (hs : eventStep cfg s e = some t) :
    t.pc = s.pc ∧
    ((finishes cfg s e = false ∧ SameSlots s t) ∨
      (finishes cfg s e = true ∧ (t.panicked = true ∨ Finished s t))) := by
  cases e with
  | submit cmd bytes => exact absurd rfl (hsubmit cmd bytes)
  | call j ok => exact absurd rfl (hcall j ok)
  | cmdDone resp =>
      cases hs
      unfold commandDone
      split
      · rename_i hf
        obtain ⟨hpc, hfin⟩ := finishCommand_finished cfg (noteCommandDone cfg resp s)
        have hsame : SameSlots s (noteCommandDone cfg resp s) := ⟨rfl, rfl, rfl⟩
        exact ⟨hpc, Or.inr ⟨hf, hfin.imp_right (Finished.after hsame)⟩⟩
      · rename_i hf
        exact ⟨rfl, Or.inl ⟨Bool.eq_false_iff.mpr hf, rfl, rfl, rfl⟩⟩
  | dataDone bytes =>
      cases hs
      unfold dataDone
      split
      · rename_i hnull
        refine ⟨rfl, Or.inl ⟨?_, rfl, rfl, rfl⟩⟩
        dsimp only [finishes]
        rw [hnull]
        rfl
      · rename_i hnull
        rw [Bool.not_eq_true] at hnull
        have hf : finishes cfg s (.dataDone bytes) = s.cmdDone := by
          dsimp only [finishes]
          rw [hnull]
          rfl
        rw [hf]
        split
        · rename_i hdone
          obtain ⟨hpc, hfin⟩ := finishCommand_finished cfg (noteDataDone bytes s)
          have hsame : SameSlots s (noteDataDone bytes s) := ⟨rfl, rfl, rfl⟩
          exact ⟨hpc, Or.inr ⟨hdone, hfin.imp_right (Finished.after hsame)⟩⟩
        · rename_i hdone
          exact ⟨rfl, Or.inl ⟨Bool.eq_false_iff.mpr hdone, rfl, rfl, rfl⟩⟩
  | errOccure =>
      cases hs
      unfold errorOccurred noteError
      split <;> split <;> exact ⟨rfl, Or.inl ⟨rfl, rfl, rfl, rfl⟩⟩
  | expire =>
      obtain ⟨-, ht⟩ := Option.ite_none_right_eq_some.mp hs
      cases ht
      exact ⟨rfl, Or.inl ⟨rfl, rfl, rfl, rfl⟩⟩
  | timeout =>
      obtain ⟨-, ht⟩ := Option.ite_none_right_eq_some.mp hs
      cases ht
      unfold timeout
      split
      · exact ⟨rfl, Or.inl ⟨rfl, rfl, rfl, rfl⟩⟩
      · exact ⟨rfl, Or.inl ⟨rfl, rfl, rfl, rfl⟩⟩
      · split
        · exact ⟨rfl, Or.inl ⟨rfl, rfl, rfl, rfl⟩⟩
        · exact ⟨rfl, Or.inl ⟨rfl, rfl, rfl, rfl⟩⟩
  | updateIos powerUp useHold =>
      obtain ⟨-, ht⟩ := Option.ite_none_right_eq_some.mp hs
      cases ht
      exact ⟨rfl, Or.inl ⟨rfl, rfl, rfl, rfl⟩⟩

/-! ## What an interrupt leaves of a stage -/

variable {s s' : TryState}

theorem SameSlots.idle_iff {u v : SdifState} (h : SameSlots u v) : DriverIdle v ↔ DriverIdle u := by
  rw [DriverIdle, DriverIdle, h.req, h.curcmd, h.reqPending]

theorem Leftover.same {p : CallPc} (h : Leftover p s) (hs : SameSlots s.sdif s'.sdif)
    (hl : s'.late = s.late) : Leftover p s' := by
  constructor
  · rw [hs.req, hs.curcmd]
    exact h.curcmd
  · rw [hs.idle_iff, hl]
    exact h.idle

/-- Where the shared fields are left alone, so is the stage. -/
theorem AtStage.same {g : TryStage} (h : AtStage cfg k s g) (hs : SameSlots s.sdif s'.sdif)
    (hl : s'.late = s.late) (hf : s'.failedAt = s.failedAt) : AtStage cfg k s' g := by
  cases g with
  | calm =>
      rw [AtStage, hs.idle_iff, hf]
      exact h
  | counting =>
      rw [AtStage, hs.req, hs.curcmd, hs.reqPending, hl, hf]
      exact h
  | turned =>
      obtain ⟨p, hp, hne, hleft⟩ := h
      exact ⟨p, hf.trans hp, hne, hleft.same hs hl⟩
  | claimed =>
      rw [AtStage, hs.req, hs.reqPending, hl, hf]
      exact h
  | pending =>
      rw [AtStage, hs.req, hs.curcmd, hs.idle_iff, hl, hf]
      exact h
  | armed => exact hf.trans h
  | ended err =>
      intro p hp
      obtain ⟨hleft, herr⟩ := h p (hf.symm.trans hp)
      exact ⟨hleft.same hs hl, herr⟩

/-- `sdif_finish_command` leaves the driver idle, unless it panics. -/
theorem Finished.idle {u v : SdifState} (h : Finished u v) (hcur : u.req = none → u.curcmd = none) :
    DriverIdle v := by
  refine ⟨h.req, ?_, h.reqPending⟩
  cases hr : u.req with
  | none => rw [h.spurious hr, hcur hr]
  | some r => exact (h.current r hr).2

theorem Leftover.finished {p : CallPc} (h : Leftover p s) (hs : Finished s.sdif s'.sdif)
    (hl : s'.late = true) : Leftover p s' := by
  have hidle := hs.idle h.curcmd
  exact ⟨fun _ => hidle.2.1, iff_of_true hidle (Or.inr hl)⟩

theorem AtStage.finished {g : TryStage} (h : AtStage cfg k s g) (hs : Finished s.sdif s'.sdif)
    (hl : s'.late = true) (hf : s'.failedAt = s.failedAt) : AtStage cfg k s' g := by
  cases g with
  | calm => exact ⟨hs.idle fun _ => h.1.2.1, hf.trans h.2⟩
  | counting =>
      obtain ⟨hr, hc, hp⟩ := hs.idle fun _ => h.2.1
      refine ⟨hr, hc, ?_, hf.trans h.2.2.2⟩
      rw [hp, hl]
      rfl
  | turned =>
      obtain ⟨p, hp, hne, hleft⟩ := h
      exact ⟨p, hf.trans hp, hne, hleft.finished hs hl⟩
  | claimed =>
      -- the handler finds a request that is not pending and panics
      obtain ⟨hreq, hpend, -⟩ := h
      have hp := (hs.current k hreq).1
      rw [hpend] at hp
      exact Bool.noConfusion hp
  | pending =>
      have hidle := hs.idle h.1
      exact ⟨fun _ => hidle.2.1, iff_of_true hidle hl, hf.trans h.2.2⟩
  | armed => exact hf.trans h
  | ended err =>
      intro p hp
      obtain ⟨hleft, herr⟩ := h p (hf.symm.trans hp)
      exact ⟨hleft.finished hs hl, herr⟩

/-! ## What a step of the call leaves of its stage -/

variable {ok : Bool} {p q : CallPc}

theorem TryInv.at {f : Option CallPc} {l : Bool} (hq : t.pc k = q)
    (h : AtStage cfg k ⟨t, f, l⟩ (tryStage cfg.version q)) : TryInv cfg k ⟨t, f, l⟩ := by
  left
  show AtStage cfg k ⟨t, f, l⟩ (tryStage cfg.version (t.pc k))
  rw [hq]
  exact h

/-- A step that stores none of the shared fields, does not fail, and stays in its
stage. -/
theorem TryInv.moved (h : AtStage cfg k s (tryStage cfg.version p)) (hq : t.pc k = q)
    (hs : SameSlots s.sdif t) (hstage : tryStage cfg.version q = tryStage cfg.version p)
    (hstores : stores p = false) (hfail : (!ok && fallible p) = false) :
    TryInv cfg k (afterCall s p ok t) := by
  refine .at hq ?_
  rw [hstage]
  refine h.same hs ?_ ?_
  · rw [hstores]
    exact Bool.and_true _
  · rw [hfail]
    rfl

/-- A call that panics stays where it is. -/
theorem TryInv.panic (hpc : t.pc k = p) (hp : p.isReturned = false) (hpanic : t.panicked = true) :
    TryInv cfg k (afterCall s p ok t) := by
  right
  refine ⟨hpanic, ?_⟩
  show (t.pc k).isReturned = false
  rw [hpc]
  exact hp

/-- Where the call has failed at `p`. -/
theorem AtStage.over_of {err : Option Errno} (hf : s'.failedAt = some p) (hleft : Leftover p s')
    (herr : err = none ↔ silent cfg p) : AtStage cfg k s' (.ended err) := by
  intro p' hp'
  rw [hf, Option.some.injEq] at hp'
  rw [← hp']
  exact ⟨hleft, herr⟩

/-- A failure with an error code, anywhere but at the start of the request's own
command. -/
theorem some_iff_silent {e : Errno} (hp : p ≠ .issue .start) :
    some e = none ↔ silent cfg p :=
  iff_of_false (Option.some_ne_none e) fun hn => hp hn.2

theorem busy_stage (h : AtStage cfg k s .calm) :
    TryInv cfg k (afterCall s .busy ok (busyStep cfg k ok s.sdif)) := by
  unfold busyStep
  cases ok with
  | true => exact .moved (p := .busy) h (goto_pc _ _ _) ⟨rfl, rfl, rfl⟩ rfl rfl rfl
  | false =>
      rw [if_neg Bool.false_ne_true]
      have hleft : ∀ q, Leftover .busy (afterCall s .busy false (s.sdif.goto k q)) :=
        fun q => ⟨fun _ => h.1.2.1, iff_of_true h.1 (Or.inl rfl)⟩
      split
      · exact .at (goto_pc _ _ _) (.over_of rfl (hleft _) (some_iff_silent CallPc.noConfusion))
      · exact .at (goto_pc _ _ _) (.over_of rfl (hleft _) (some_iff_silent CallPc.noConfusion))

theorem preRequest_stage (h : AtStage cfg k s .calm) :
    TryInv cfg k (afterCall s .preRequest ok (preRequestStep cfg k s.sdif)) := by
  have hmove : ∀ q, tryStage cfg.version q = .calm →
      TryInv cfg k (afterCall s .preRequest ok (s.sdif.goto k q)) := by
    intro q hq
    exact .moved (p := .preRequest) h (goto_pc _ _ _) ⟨rfl, rfl, rfl⟩ hq rfl (Bool.and_false _)
  unfold preRequestStep
  split
  · split
    · exact hmove _ rfl
    · exact hmove _ rfl
  · exact hmove _ rfl

/-- A failure of the block count command while it is pending. -/
theorem counting_fails {e : Errno} (h : AtStage cfg k s .counting) (hp : p ≠ .issue .start)
    (htidy : tidy p = false) (hfall : fallible p = true) (hstores : stores p = false) :
    TryInv cfg k (afterCall s p false (s.sdif.goto k (.blockCount (.exit (some e))))) := by
  obtain ⟨hr, hc, hpend, -⟩ := h
  refine .at (goto_pc _ _ _) ⟨p, ?_, hp, fun _ => hc, ?_⟩
  · simp [hfall]
  · dsimp only
    rw [htidy, hstores]
    constructor
    · intro hidle
      have hclear : s.sdif.reqPending = false := hidle.2.2
      rw [hclear] at hpend
      right
      simpa using hpend
    · rintro (hn | hl)
      · exact Bool.noConfusion hn
      · refine ⟨hr, hc, ?_⟩
        show s.sdif.reqPending = false
        rw [hpend]
        simpa using hl

theorem blockCount_stage {b : BlockCountPc}
    (h : AtStage cfg k s (tryStage cfg.version (.blockCount b)))
    (hpc : s.sdif.pc k = .blockCount b) (hs : blockCountStep cfg k ok s.sdif b = some t) :
    TryInv cfg k (afterCall s (.blockCount b) ok t) := by
  cases b with
  | lock =>
      obtain ⟨-, ht⟩ := Option.ite_none_right_eq_some.mp hs
      cases ht
      exact .moved h (goto_pc _ _ _) ⟨rfl, rfl, rfl⟩ rfl rfl (Bool.and_false _)
  | package =>
      dsimp only [blockCountStep] at hs
      split at hs
      · cases hs
        exact .panic hpc rfl rfl
      · cases hs
        exact .moved h (goto_pc _ _ _) ⟨rfl, rfl, rfl⟩ rfl rfl (Bool.and_false _)
  | clrDto =>
      cases hs
      exact .moved h (goto_pc _ _ _) ⟨rfl, rfl, rfl⟩ rfl rfl (Bool.and_false _)
  | clrCmdDone =>
      cases hs
      exact .moved h (goto_pc _ _ _) ⟨rfl, rfl, rfl⟩ rfl rfl (Bool.and_false _)
  | setPending =>
      cases hs
      obtain ⟨⟨hr, hc, -⟩, hf⟩ := h
      refine .at (goto_pc _ _ _) ⟨hr, hc, ?_, ?_⟩
      · simp [stores, SdifState.goto]
      · simpa [fallible] using hf
  | setExpect =>
      cases hs
      exact .moved h (goto_pc _ _ _) ⟨rfl, rfl, rfl⟩ rfl rfl (Bool.and_false _)
  | start =>
      dsimp only [blockCountStep] at hs
      cases ok with
      | true =>
          cases hs
          exact .moved h (goto_pc _ _ _) ⟨rfl, rfl, rfl⟩ rfl rfl rfl
      | false =>
          cases hs
          exact counting_fails h CallPc.noConfusion rfl rfl rfl
  | poll =>
      dsimp only [blockCountStep] at hs
      split at hs
      · cases hs
      · rename_i hne
        cases ok with
        | true =>
            cases hs
            obtain ⟨hr, hc, -, hf⟩ := h
            refine .at (goto_pc _ _ _) ⟨⟨hr, hc, ?_⟩, hf⟩
            exact Bool.eq_false_iff.mpr hne
        | false =>
            cases hs
            exact counting_fails h CallPc.noConfusion rfl rfl rfl
  | busy =>
      cases hs
      cases ok with
      | true => exact .moved h (goto_pc _ _ _) ⟨rfl, rfl, rfl⟩ rfl rfl rfl
      | false =>
          refine .at (goto_pc _ _ _) ⟨.blockCount .busy, rfl, CallPc.noConfusion, ?_⟩
          exact ⟨fun _ => h.1.2.1, iff_of_true h.1 (Or.inl rfl)⟩
  | exit err =>
      have hstage : tryStage cfg.version (.filter err) =
          tryStage cfg.version (.blockCount (.exit err)) := by
        cases err <;> rfl
      dsimp only [blockCountStep] at hs
      split at hs
      · cases hs
        exact .moved h (goto_pc _ _ _) ⟨rfl, rfl, rfl⟩ hstage rfl (Bool.and_false _)
      · cases hs
        exact .moved h (goto_pc _ _ _) ⟨rfl, rfl, rfl⟩ hstage rfl (Bool.and_false _)

theorem filter_stage {err : Option Errno}
    (h : AtStage cfg k s (tryStage cfg.version (.filter err))) :
    TryInv cfg k (afterCall s (.filter err) ok (filterStep cfg k err s.sdif)) := by
  -- turned away, the call returns the error it has, or that of the filter
  have hover : ∀ (u : SdifState) (e : Errno), SameSlots s.sdif u →
      (err = none → s.failedAt = none) →
      AtStage cfg k (afterCall s (.filter err) ok u) (.ended (some e)) := by
    intro u e hu hnone
    cases err with
    | none =>
        intro p hp
        have hf : (afterCall s (.filter none) ok u).failedAt = s.failedAt := by
          simp [afterCall, fallible]
        rw [hf, hnone rfl] at hp
        cases hp
    | some e' =>
        obtain ⟨p, hp, hne, hleft⟩ := h
        refine .over_of (p := p) ?_ (hleft.same hu ?_) (some_iff_silent hne)
        · simpa [afterCall, fallible] using hp
        · exact Bool.and_true _
  have hnone : err = none → s.failedAt = none := by
    rintro rfl
    exact h.2
  unfold filterStep
  split <;> rename_i hres _
  · exact .at (goto_pc _ _ _) (hover _ _ ⟨rfl, rfl, rfl⟩ hnone)
  · exact .at (goto_pc _ _ _) (hover _ _ ⟨rfl, rfl, rfl⟩ hnone)
  · have herr : err = none := by
      split at hres <;> simp_all
    subst herr
    exact .moved (p := .filter none) h (goto_pc _ _ _) ⟨rfl, rfl, rfl⟩ rfl rfl (Bool.and_false _)
  · have herr : err = none := by
      split at hres <;> simp_all
    subst herr
    exact .moved (p := .filter none) h (goto_pc _ _ _) ⟨rfl, rfl, rfl⟩ rfl rfl (Bool.and_false _)

/-- A failure behind the store of `sc->req`, whatever of it is stored by then. -/
theorem Leftover.issued {u : SdifState} {i : IssuePc} (hu : SameSlots s.sdif u)
    (hcur : s.sdif.req = none → s.sdif.curcmd = none)
    (hidle : DriverIdle s.sdif ↔ s.late = true) (hstores : stores (.issue i) = false) :
    Leftover (.issue i) (afterCall s (.issue i) false u) := by
  constructor
  · show u.req = none → u.curcmd = none
    rw [hu.req, hu.curcmd]
    exact hcur
  · show DriverIdle u ↔ false = true ∨ (s.late && !stores (.issue i)) = true
    rw [hu.idle_iff, hidle, hstores]
    simp

/-- A request whose command is not pending is not idle. -/
theorem AtStage.claimed_idle (h : AtStage cfg k s .claimed) :
    (s.sdif.req = none → s.sdif.curcmd = none) ∧ (DriverIdle s.sdif ↔ s.late = true) := by
  obtain ⟨hreq, -, hlate, -⟩ := h
  constructor
  · intro hn
    rw [hreq] at hn
    cases hn
  · rw [hlate]
    refine iff_of_false ?_ Bool.false_ne_true
    rintro ⟨hn, -⟩
    rw [hreq] at hn
    cases hn

/-- A call that comes out at `err`, and has not failed. -/
theorem AtStage.over_ok {err : Option Errno} (hf : s'.failedAt = none) :
    AtStage cfg k s' (.ended err) := by
  intro p hp
  rw [hf] at hp
  cases hp

theorem dmaPrepare_stage {d : MmcData}
    (h : AtStage cfg k s (tryStage cfg.version (.issue (.dmaPrepare d))))
    (hpc : s.sdif.pc k = .issue (.dmaPrepare d)) :
    TryInv cfg k (afterCall s (.issue (.dmaPrepare d)) ok
      (dmaPrepareStep cfg k ok d s.sdif)) := by
  have hissued : (s.sdif.req = none → s.sdif.curcmd = none) ∧
      (DriverIdle s.sdif ↔ s.late = true) := by
    cases hv : cfg.version with
    | v1 =>
        rw [hv] at h
        exact ⟨h.1, h.2.1⟩
    | v2 =>
        rw [hv] at h
        exact h.claimed_idle
  have hnext : tryStage cfg.version (.issue (afterPrepare cfg)) =
      tryStage cfg.version (.issue (.dmaPrepare d)) := by
    unfold afterPrepare
    split <;> rename_i hv <;> rw [hv] <;> rfl
  rcases dmaPrepareStep_cases cfg k ok d s.sdif with hstep | ⟨rfl, mem, buf, ring, hstep⟩ |
    ⟨rfl, hstep⟩
  · rw [hstep]
    exact .panic hpc rfl rfl
  · rw [hstep]
    exact .moved h (goto_pc _ _ _) ⟨rfl, rfl, rfl⟩ hnext rfl rfl
  · rw [hstep]
    refine .at (goto_pc _ _ _) (.over_of (p := .issue (.dmaPrepare d)) rfl ?_ ?_)
    · exact .issued ⟨rfl, rfl, rfl⟩ hissued.1 hissued.2 rfl
    · refine some_iff_silent ?_
      intro hn
      cases hn

theorem start_stage (h : AtStage cfg k s .pending) :
    TryInv cfg k (afterCall s (.issue .start) ok (startStep cfg k ok s.sdif)) := by
  unfold startStep
  cases ok with
  | true => exact .at (goto_pc _ _ _) h.2.2
  | false =>
      have hleft : ∀ u, SameSlots s.sdif u → Leftover (.issue .start) (afterCall s (.issue .start)
          false u) := fun u hu => .issued hu h.1 h.2.1 rfl
      rw [if_neg Bool.false_ne_true]
      cases hv : cfg.version with
      | v1 =>
          refine .at (goto_pc _ _ _)
            (.over_of (p := .issue .start) rfl (hleft _ ⟨rfl, rfl, rfl⟩) ?_)
          refine iff_of_false (Option.some_ne_none _) ?_
          rintro ⟨hn, -⟩
          rw [hv] at hn
          cases hn
      | v2 =>
          refine .at (goto_pc _ _ _)
            (.over_of (p := .issue .start) rfl (hleft _ ⟨rfl, rfl, rfl⟩) ?_)
          exact iff_of_true rfl ⟨hv, rfl⟩

theorem package_stage (h : AtStage cfg k s .claimed) (hpc : s.sdif.pc k = .issue .package) :
    TryInv cfg k (afterCall s (.issue .package) ok (packageStep cfg k s.sdif)) := by
  unfold packageStep
  cases hv : cfg.version with
  | v1 =>
      exact .moved (p := .issue .package) h (goto_pc _ _ _) ⟨rfl, rfl, rfl⟩ rfl rfl
        (Bool.and_false _)
  | v2 =>
      dsimp only
      split
      · exact .moved (p := .issue .package) h (goto_pc _ _ _) ⟨rfl, rfl, rfl⟩ rfl rfl
          (Bool.and_false _)
      · split
        · exact .panic hpc rfl rfl
        · refine .moved (p := .issue .package) h (goto_pc _ _ _) ⟨rfl, rfl, rfl⟩ ?_ rfl
            (Bool.and_false _)
          rw [hv]
          rfl

theorem afterFlags_stage (cmd : MmcCommand) :
    tryStage cfg.version (.issue (afterFlags cfg cmd)) = .pending := by
  unfold afterFlags
  split
  · rename_i hv _
    split
    · rw [hv]
      rfl
    · rfl
  · rfl

theorem issue_stage {i : IssuePc} (h : AtStage cfg k s (tryStage cfg.version (.issue i)))
    (hpc : s.sdif.pc k = .issue i) :
    TryInv cfg k (afterCall s (.issue i) ok (issueStep cfg k ok s.sdif i)) := by
  have hmove : ∀ {u : SdifState} {j : IssuePc}, SameSlots s.sdif u →
      tryStage cfg.version (.issue j) = tryStage cfg.version (.issue i) →
      stores (.issue i) = false → fallible (.issue i) = false →
      TryInv cfg k (afterCall s (.issue i) ok (u.goto k (.issue j))) := by
    intro u j hu hj hst hfall
    refine .moved h (goto_pc _ _ _) ⟨hu.req, hu.curcmd, hu.reqPending⟩ hj hst ?_
    rw [hfall]
    exact Bool.and_false _
  cases i with
  | setReq =>
      obtain ⟨⟨-, -, hpend⟩, hf⟩ := h
      refine .at (goto_pc _ _ _) ⟨rfl, hpend, Bool.and_false _, ?_⟩
      simpa [fallible] using hf
  | setCurcmd =>
      obtain ⟨hreq, hpend, hlate, hf⟩ := h
      refine .at (goto_pc _ _ _) ⟨hreq, hpend, Bool.and_false _, ?_⟩
      simpa [fallible] using hf
  | setError => exact hmove ⟨rfl, rfl, rfl⟩ rfl rfl rfl
  | package => exact package_stage h hpc
  | dmaPrepare d => exact dmaPrepare_stage h hpc
  | command =>
      dsimp only [issueStep]
      rcases commandStep_cases cfg k s.sdif with ⟨-, hstep⟩ | ⟨pkg, -, hstep⟩
      · rw [hstep]
        exact .panic hpc rfl rfl
      · rw [hstep]
        exact hmove ⟨rfl, rfl, rfl⟩ rfl rfl rfl
  | clrDto => exact hmove ⟨rfl, rfl, rfl⟩ rfl rfl rfl
  | clrCmdDone => exact hmove ⟨rfl, rfl, rfl⟩ rfl rfl rfl
  | setPending =>
      obtain ⟨hreq, -, -, hf⟩ := h
      refine .at (goto_pc _ _ _) ⟨?_, ?_, ?_⟩
      · intro hn
        have hnone : s.sdif.req = none := hn
        rw [hreq] at hnone
        cases hnone
      · refine iff_of_false ?_ ?_
        · rintro ⟨-, -, hn⟩
          cases hn
        · rw [show (s.late && !stores (.issue .setPending)) = false from Bool.and_false _]
          exact Bool.false_ne_true
      · simpa [fallible] using hf
  | setExpect => exact hmove ⟨rfl, rfl, rfl⟩ (afterFlags_stage _) rfl rfl
  | start => exact start_stage h
  | arm =>
      refine .at (goto_pc _ _ _) (.over_ok ?_)
      have hf : s.failedAt = none := h
      simpa [fallible] using hf

theorem call_stage (h : AtStage cfg k s (tryStage cfg.version (s.sdif.pc k)))
    (hs : callStep cfg k ok s.sdif = some t) : TryInv cfg k (afterCall s (s.sdif.pc k) ok t) := by
  unfold callStep at hs
  split at hs <;> rename_i hpc <;> rw [hpc] at h ⊢
  · cases hs
  · obtain ⟨-, ht⟩ := Option.ite_none_right_eq_some.mp hs
    cases ht
    exact .moved (p := .lock) h (goto_pc _ _ _) ⟨rfl, rfl, rfl⟩ rfl rfl (Bool.and_false _)
  · cases hs
    exact busy_stage h
  · cases hs
    exact preRequest_stage h
  · exact blockCount_stage h hpc hs
  · cases hs
    exact filter_stage h
  · obtain ⟨-, ht⟩ := Option.ite_none_right_eq_some.mp hs
    cases ht
    exact .moved (p := .mainLock) h (goto_pc _ _ _) ⟨rfl, rfl, rfl⟩ rfl rfl (Bool.and_false _)
  · cases hs
    exact issue_stage h hpc
  · cases hs
    exact .moved h (goto_pc _ _ _) ⟨rfl, rfl, rfl⟩ rfl rfl (Bool.and_false _)
  · cases hs

/-! ## The whole call -/

theorem AtStage.interrupt {e : SdifEvent}
    (h : AtStage cfg k s (tryStage cfg.version (s.sdif.pc k)))
    (hcall : ∀ j ok, e ≠ .call j ok) (hsubmit : ∀ cmd bytes, e ≠ .submit cmd bytes)
    (hret : (s.sdif.pc k).isReturned = false) (hs : eventStep cfg s.sdif e = some t) :
    TryInv cfg k ⟨t, s.failedAt, s.late || finishes cfg s.sdif e⟩ := by
  obtain ⟨hpc, ⟨hf, hsame⟩ | ⟨hf, hpanic | hfin⟩⟩ := interrupt_spec hcall hsubmit hs
  · refine .at (congrFun hpc k) (h.same hsame ?_ rfl)
    rw [hf]
    exact Bool.or_false _
  · right
    refine ⟨hpanic, ?_⟩
    show (t.pc k).isReturned = false
    rw [hpc]
    exact hret
  · refine .at (congrFun hpc k) (h.finished hfin ?_ rfl)
    rw [hf]
    exact Bool.or_true _

theorem TryInv.step {e : SdifEvent} (h : TryInv cfg k s) (hs : tryStep cfg k s e = some s') :
    TryInv cfg k s' := by
  have hrun : ∀ {t : SdifState}, sdifStep cfg s.sdif e = some t →
      AtStage cfg k s (tryStage cfg.version (s.sdif.pc k)) := by
    intro t ht
    rcases h with h | ⟨hp, -⟩
    · exact h
    · rw [(sdifStep_iff.mp ht).1] at hp
      cases hp
  unfold tryStep at hs
  split at hs
  · cases hs
  · cases hs
  · obtain ⟨rfl, hs⟩ := Option.ite_none_right_eq_some.mp hs
    obtain ⟨t, ht, rfl⟩ := Option.map_eq_some_iff.mp hs
    exact call_stage (hrun ht) (sdifStep_iff.mp ht).2
  · rename_i hsubmit hcall hret
    obtain ⟨t, ht, rfl⟩ := Option.map_eq_some_iff.mp hs
    refine (hrun ht).interrupt (fun j ok he => hcall j ok he) (fun c b he => hsubmit c b he) ?_
      (sdifStep_iff.mp ht).2
    cases hp : s.sdif.pc k <;> first | rfl | exact absurd hp (hret _)

theorem try_reachable_inv (h : (trySystem cfg k).Reachable s) : TryInv cfg k s := by
  apply h.invariant
  · rintro s ⟨hentry, hidle, hf⟩
    left
    rw [hentry]
    unfold Sdif.entry
    split <;> exact ⟨hidle, hf⟩
  · intro s e s' hi (hs : tryStep cfg k s e = some s')
    exact hi.step hs

/-- **Failures are atomic** in exactly these cases: a call that has failed
returns an error and leaves the driver idle if and only if it has failed in one
of the two loops that wait for a card that is busy, or a late interrupt has
cleaned up behind it; and it has not failed at the start of the transfer in
`phytium_sdif_v2.c`. -/
theorem start_failure_atomic_iff {err : Option Errno}
    (h : (trySystem cfg k).Reachable s) (hret : s.sdif.pc k = .returned err)
    (hfail : s.failedAt = some p) :
    (err ≠ none ∧ DriverIdle s.sdif) ↔ (tidy p = true ∨ s.late = true) ∧ ¬ silent cfg p := by
  rcases try_reachable_inv h with hi | ⟨-, hn⟩
  · rw [hret] at hi
    obtain ⟨hleft, herr⟩ := hi p hfail
    rw [← hleft.idle, ← herr, and_comm]
  · rw [hret] at hn
    cases hn

/-- A driver that has just been attached, and a call with `SEND_STATUS`. -/
def trySendStatus (v : Version) : TryState :=
  ⟨submit (sampleSdif v) sendStatus [] (attached (fun _ => 0#8) false), none, false⟩

theorem trySendStatus_start (v : Version) : TryStart (sampleSdif v) 0 (trySendStatus v) :=
  ⟨rfl, ⟨rfl, rfl, rfl⟩, rfl⟩

/-- The card stays busy. -/
theorem busy_failure_atomic :
    ∃ s, (trySystem (sampleSdif .v1) 0).Reachable s ∧ s.failedAt = some .busy ∧
      DriverIdle s.sdif := by
  have hrun : ((trySystem (sampleSdif .v1) 0).run (trySendStatus .v1)
      [.call 0 true, .call 0 false, .call 0 true]).map (fun s => (s.sdif.pc 0, s.failedAt)) =
      some (.returned (some .ebusy), some .busy) := by decide
  obtain ⟨s, hs, hq⟩ := Option.map_eq_some_iff.mp hrun
  obtain ⟨hret, hfail⟩ := Prod.mk.inj hq
  have hreach := System.reachable_of_run _ (trySendStatus_start .v1) hs
  refine ⟨s, hreach, hfail, ?_⟩
  have hiff := start_failure_atomic_iff hreach hret hfail
  refine (hiff.mpr ⟨Or.inl rfl, ?_⟩).2
  exact fun hn => Version.noConfusion hn.1

/-- The transfer of a `SEND_STATUS` cannot be started. -/
theorem start_failure_not_atomic :
    (¬ ∀ s p err, (trySystem (sampleSdif .v1) 0).Reachable s → s.sdif.pc 0 = .returned err →
      s.failedAt = some p → err ≠ none ∧ DriverIdle s.sdif) ∧
    (¬ ∀ s p err, (trySystem (sampleSdif .v2) 0).Reachable s → s.sdif.pc 0 = .returned err →
      s.failedAt = some p → err ≠ none ∧ DriverIdle s.sdif) := by
  have hrun : ∀ v es err, ((trySystem (sampleSdif v) 0).run (trySendStatus v) es).map
      (fun s => (s.sdif.pc 0, s.failedAt, decide (DriverIdle s.sdif))) =
        some (.returned err, some (.issue .start), false) →
      ¬ ∀ s p err, (trySystem (sampleSdif v) 0).Reachable s → s.sdif.pc 0 = .returned err →
        s.failedAt = some p → err ≠ none ∧ DriverIdle s.sdif := by
    intro v es err hes h
    obtain ⟨s, hs, hq⟩ := Option.map_eq_some_iff.mp hes
    simp only [Prod.mk.injEq] at hq
    obtain ⟨hret, hfail, hidle⟩ := hq
    have hreach := System.reachable_of_run _ (trySendStatus_start v) hs
    exact decide_eq_false_iff_not.mp hidle (h s _ err hreach hret hfail).2
  constructor
  · apply hrun .v1 (calls 0 12 ++ [.call 0 false, .call 0 true]) (some .enxio)
    decide
  · apply hrun .v2 (calls 0 13 ++ [.call 0 false, .call 0 true]) none
    decide

end Phytium.Sdif
