import PhytiumSdk.Sdif.Request

/-!
# SDIF requests: what a step can do

For the arguments about callbacks, errors and locks a step is described by what
it does to the fields these look at. `CallStep` says it for the steps of a
request call, `DoneEvent` for the two events that may complete a request, and
`timeout_cases` for the timeout. `CallInv` is what holds of the calls and the
lock in every state.
-/

namespace Phytium.Sdif

open Lib

variable {cfg : SdifConfig} {s s' t : SdifState} {k : ℕ}

/-! ## Positions -/

/-- The call has not got to the store of `sc->req`, nor left before it. -/
def CallPc.fresh : CallPc → Bool
  | .issue .setReq => true
  | .issue _ => false
  | .unlock _ => false
  | .returned _ => false
  | _ => true

/-- The call stands between the store of `sc->req` and `callout_reset`. -/
def CallPc.issuing : CallPc → Bool
  | .issue .setReq => false
  | .issue _ => true
  | _ => false

/-- The call holds the lock. -/
def CallPc.locked (v : Version) : CallPc → Bool
  | .new => false
  | .lock => false
  | .busy => v == .v1
  | .preRequest => v == .v1
  | .blockCount .lock => false
  | .blockCount _ => true
  | .filter _ => v == .v1
  | .mainLock => false
  | .issue _ => true
  | .unlock _ => true
  | .returned _ => false

/-- The call is at `SDIF_LOCK`. -/
def CallPc.locking : CallPc → Bool
  | .lock => true
  | .blockCount .lock => true
  | .mainLock => true
  | _ => false

/-- The call is about to start a command. -/
def CallPc.starts : CallPc → Bool
  | .blockCount .start => true
  | .issue .start => true
  | _ => false

/-- Steps of `phytium_sdif_request`, counted. -/
def IssuePc.rank (v : Version) : IssuePc → ℕ
  | .setReq => 0
  | .setCurcmd => 1
  | .setError => 2
  | .package => 3
  | .dmaPrepare _ =>
      match v with
      | .v1 => 10
      | .v2 => 4
  | .command => 5
  | .clrDto => 6
  | .clrCmdDone => 7
  | .setPending => 8
  | .setExpect => 9
  | .start => 11
  | .arm => 12

/-- Steps left in `sdif_set_block_count`. -/
def BlockCountPc.left : BlockCountPc → ℕ
  | .lock => 10
  | .package => 9
  | .clrDto => 8
  | .clrCmdDone => 7
  | .setPending => 6
  | .setExpect => 5
  | .start => 4
  | .poll => 3
  | .busy => 2
  | .exit _ => 1

/-- Steps left to a call, at most. -/
def CallPc.left (v : Version) : CallPc → ℕ
  | .new => 30
  | .lock => 29
  | .busy => 28
  | .preRequest => 27
  | .blockCount p => 16 + p.left
  | .filter _ => 16
  | .mainLock => 15
  | .issue p => 14 - p.rank v
  | .unlock _ => 1
  | .returned _ => 0

theorem IssuePc.rank_le (v : Version) (p : IssuePc) : p.rank v ≤ 12 := by
  cases v <;> cases p <;> simp [rank]

theorem CallPc.issuing_locked {p : CallPc} (v : Version) (h : p.issuing = true) :
    p.locked v = true := by
  unfold issuing at h
  split at h <;> simp_all [locked]

theorem CallPc.fresh_of_issuing {p : CallPc} (h : p.issuing = true) : p.fresh = false := by
  unfold issuing at h
  split at h <;> simp_all [fresh]

theorem goto_pc (s : SdifState) (k : ℕ) (p : CallPc) : (s.goto k p).pc k = p :=
  Function.update_self ..

/-! ## The steps of a request call -/

/-- The fields below are the same. -/
structure SameCalls (s t : SdifState) : Prop where
  req : t.req = s.req
  lock : t.lock = s.lock
  pc : t.pc = s.pc
  subs : t.subs = s.subs
  errSeen : t.errSeen = s.errSeen
  doneLog : t.doneLog = s.doneLog

/-- The fields below are the same too. -/
structure SameControl (s t : SdifState) : Prop extends SameCalls s t where
  started : t.hc.started = s.hc.started
  callout : t.callout = s.callout

theorem SameControl.refl (s : SdifState) : SameControl s s :=
  ⟨⟨rfl, rfl, rfl, rfl, rfl, rfl⟩, rfl, rfl⟩

/-- What a step of the `k`-th request call can do; `ok` as in `callStep`. -/
structure CallStep (v : Version) (k : ℕ) (ok : Bool) (s s' : SdifState) : Prop where
  others : ∀ j, j ≠ k → s'.pc j = s.pc j
  subs : s'.subs = s.subs
  errSeen : s'.errSeen = s.errSeen
  entered : s.pc k ≠ .new
  fresh_of : (s'.pc k).fresh = true → (s.pc k).fresh = true
  issuing_of : (s'.pc k).issuing = true → (s.pc k).issuing = true ∨ s.pc k = .issue .setReq
  lock :
    (s.pc k).locking = false ∧ s'.lock = s.lock ∧ (s'.pc k).locked v = (s.pc k).locked v ∨
    (s.pc k).locking = true ∧ s.lock = none ∧ s'.lock = some k ∨
    (s.pc k).locking = false ∧ s'.lock = none ∧ (s.pc k).locked v = true ∧
      (s'.pc k).locked v = false
  req : s'.req = s.req ∨
    s.pc k = .issue .setReq ∧ s'.req = some k ∧ (s'.pc k).fresh = false ∧ s'.doneLog = s.doneLog
  doneLog : s'.doneLog = s.doneLog ∨
    (s.pc k).fresh = true ∧ (s'.pc k).fresh = false ∧ s'.req = s.req ∧
      ∃ error resp buffer, s'.doneLog = s.doneLog ++ [⟨k, error, resp, buffer, s.errSeen k⟩]
  started : s'.hc.started = s.hc.started ∨ (s.pc k).starts = true ∧ ok = true
  callout : s'.callout = s.callout ∨ s.pc k = .issue .arm
  forward : (s'.pc k).left v < (s.pc k).left v ∨ s'.panicked = true

/-- A move from one position to another that keeps the lock as it is. -/
structure Moves (v : Version) (p q : CallPc) : Prop where
  entered : p ≠ .new
  waits : p.locking = false
  fresh : q.fresh = true → p.fresh = true
  issuing : q.issuing = true → p.issuing = true ∨ p = .issue .setReq
  locked : q.locked v = p.locked v
  forward : q.left v < p.left v

/-- A step that panics. -/
theorem CallStep.stay {v : Version} {ok : Bool} (h : SameControl s t) (hpc : s.pc k ≠ .new)
    (hw : (s.pc k).locking = false) (hpanic : t.panicked = true) : CallStep v k ok s t := by
  obtain ⟨⟨hreq, hlock, hp, hsubs, herr, hlog⟩, hstarted, hcallout⟩ := h
  refine ⟨fun j _ => by rw [hp], hsubs, herr, hpc, ?_, ?_, Or.inl ⟨hw, hlock, ?_⟩, Or.inl hreq,
    Or.inl hlog, Or.inl hstarted, Or.inl hcallout, Or.inr hpanic⟩
  · rw [hp]
    exact id
  · rw [hp]
    exact Or.inl
  · rw [hp]

/-- A move that may start a command or arm the callout. -/
theorem CallStep.moveTo {v : Version} {ok : Bool} {p q : CallPc} (hpc : s.pc k = p)
    (h : SameCalls s t) (hm : Moves v p q)
    (hstarted : t.hc.started = s.hc.started ∨ p.starts = true ∧ ok = true)
    (hcallout : t.callout = s.callout ∨ p = .issue .arm) : CallStep v k ok s (t.goto k q) := by
  obtain ⟨hreq, hlock, hp, hsubs, herr, hlog⟩ := h
  have hq : (t.goto k q).pc k = q := Function.update_self ..
  subst hpc
  refine ⟨?_, hsubs, herr, hm.entered, ?_, ?_, Or.inl ⟨hm.waits, hlock, ?_⟩,
    Or.inl hreq, Or.inl hlog, hstarted, hcallout, Or.inl ?_⟩
  · intro j hj
    rw [← hp]
    exact Function.update_of_ne hj ..
  · rw [hq]
    exact hm.fresh
  · rw [hq]
    exact hm.issuing
  · rw [hq]
    exact hm.locked
  · rw [hq]
    exact hm.forward

theorem CallStep.move {v : Version} {ok : Bool} {p q : CallPc} (hpc : s.pc k = p)
    (h : SameControl s t) (hm : Moves v p q) : CallStep v k ok s (t.goto k q) :=
  .moveTo hpc h.toSameCalls hm (Or.inl h.started) (Or.inl h.callout)

theorem CallStep.takeLock {v : Version} {ok : Bool} {p q : CallPc} (hpc : s.pc k = p)
    (hs : s.takeLock k q = some s') (hp : p ≠ .new) (hw : p.locking = true) (hf : p.fresh = true)
    (hi : q.issuing = false) (hl : Nat.blt (q.left v) (p.left v) = true) :
    CallStep v k ok s s' := by
  rw [Nat.blt_eq] at hl
  obtain ⟨hfree, ht⟩ := Option.ite_none_right_eq_some.mp hs
  cases ht
  have hpc' : ({ s with lock := some k }.goto k q).pc k = q := Function.update_self ..
  subst hpc
  refine ⟨fun j hj => Function.update_of_ne hj .., rfl, rfl, hp, fun _ => hf, ?_,
    Or.inr (Or.inl ⟨hw, hfree, rfl⟩), Or.inl rfl, Or.inl rfl, Or.inl rfl, Or.inl rfl, Or.inl ?_⟩
  · rw [hpc', hi]
    intro hn
    exact Bool.noConfusion hn
  · rw [hpc']
    exact hl

theorem CallStep.dropLock {v : Version} {ok : Bool} {p q : CallPc} (hpc : s.pc k = p)
    (hw : p.locking = false) (hp : p.locked v = true) (hq : q.locked v = false)
    (hf : q.fresh = true → p.fresh = true) (hi : q.issuing = false)
    (hl : Nat.blt (q.left v) (p.left v) = true) : CallStep v k ok s (s.dropLock k q) := by
  rw [Nat.blt_eq] at hl
  have hpc' : (s.dropLock k q).pc k = q := Function.update_self ..
  subst hpc
  refine ⟨fun j hj => Function.update_of_ne hj .., rfl, rfl, ?_, ?_, ?_,
    Or.inr (Or.inr ⟨hw, rfl, hp, ?_⟩), Or.inl rfl, Or.inl rfl, Or.inl rfl, Or.inl rfl, Or.inl ?_⟩
  · intro hn
    rw [hn] at hp
    exact Bool.noConfusion hp
  · rw [hpc']
    exact hf
  · rw [hpc', hi]
    intro hn
    exact Bool.noConfusion hn
  · rw [hpc', hq]
  · rw [hpc']
    exact hl

/-- The `done` of `pre_request`. -/
theorem CallStep.skip {v : Version} {ok : Bool} {p q : CallPc} (hpc : s.pc k = p) (hm : Moves v p q)
    (hp : p.fresh = true) (hq : q.fresh = false) : CallStep v k ok s ((s.callDone k).goto k q) := by
  have hpc' : ((s.callDone k).goto k q).pc k = q := Function.update_self ..
  subst hpc
  refine ⟨fun j hj => Function.update_of_ne hj .., rfl, rfl, hm.entered, ?_, ?_,
    Or.inl ⟨hm.waits, rfl, ?_⟩, Or.inl rfl, Or.inr ⟨hp, ?_, rfl, _, _, _, rfl⟩, Or.inl rfl,
    Or.inl rfl, Or.inl ?_⟩
  · rw [hpc', hq]
    intro hn
    exact Bool.noConfusion hn
  · rw [hpc']
    exact hm.issuing
  · rw [hpc']
    exact hm.locked
  · rw [hpc', hq]
  · rw [hpc']
    exact hm.forward

/-- A move between two given positions. -/
theorem Moves.of {v : Version} {p q : CallPc} (hp : p ≠ .new) (hw : p.locking = false)
    (h : (!q.fresh || p.fresh) && (!q.issuing || p.issuing || p == .issue .setReq) &&
      q.locked v == p.locked v && Nat.blt (q.left v) (p.left v)) : Moves v p q := by
  simp only [Bool.and_eq_true, Bool.or_eq_true, Bool.not_eq_true', beq_iff_eq, Nat.blt_eq] at h
  obtain ⟨⟨⟨hf, hi⟩, hl⟩, hlt⟩ := h
  refine ⟨hp, hw, fun hq => hf.resolve_left ?_, ?_, hl, hlt⟩
  · simp [hq]
  · intro hq
    simpa [hq] using hi

theorem blockCountStep_spec {p : BlockCountPc} {ok : Bool} (hpc : s.pc k = .blockCount p)
    (hs : blockCountStep cfg k ok s p = some s') : CallStep cfg.version k ok s s' := by
  have hnew : s.pc k ≠ .new := by
    rw [hpc]
    exact CallPc.noConfusion
  have hmove : ∀ {t : SdifState} {q : CallPc}, SameControl s t →
      Moves cfg.version (.blockCount p) q → CallStep cfg.version k ok s (t.goto k q) :=
    fun h hm => CallStep.move hpc h hm
  cases p with
  | lock => exact CallStep.takeLock hpc hs CallPc.noConfusion rfl rfl rfl rfl
  | package =>
      dsimp only [blockCountStep] at hs
      split at hs
      · cases hs
        refine CallStep.stay ⟨⟨rfl, rfl, rfl, rfl, rfl, rfl⟩, rfl, rfl⟩ hnew ?_ rfl
        rw [hpc]
        rfl
      · cases hs
        exact hmove ⟨⟨rfl, rfl, rfl, rfl, rfl, rfl⟩, rfl, rfl⟩ (.of CallPc.noConfusion rfl rfl)
  | start =>
      dsimp only [blockCountStep] at hs
      split at hs
      · rename_i hok
        cases hs
        exact CallStep.moveTo hpc ⟨rfl, rfl, rfl, rfl, rfl, rfl⟩ (.of CallPc.noConfusion rfl rfl)
          (Or.inr ⟨rfl, hok⟩) (Or.inl rfl)
      · cases hs
        exact hmove (.refl s) (.of CallPc.noConfusion rfl rfl)
  | poll =>
      dsimp only [blockCountStep] at hs
      split at hs
      · cases hs
      · split at hs <;> cases hs <;> exact hmove (.refl s) (.of CallPc.noConfusion rfl rfl)
  | exit err =>
      dsimp only [blockCountStep] at hs
      cases hv : cfg.version with
      | v1 =>
          rw [hv] at hs hmove
          cases hs
          exact hmove (.refl s) (.of CallPc.noConfusion rfl rfl)
      | v2 =>
          rw [hv] at hs
          cases hs
          exact CallStep.dropLock hpc rfl rfl rfl (fun _ => rfl) rfl rfl
  | _ =>
      cases hs
      exact hmove ⟨⟨rfl, rfl, rfl, rfl, rfl, rfl⟩, rfl, rfl⟩ (.of CallPc.noConfusion rfl rfl)

/-- What `sdif_set_block_count` leaves alone, and where it stands afterwards:
halted over an opcode that is not listed, further on, or with a result for
`sdif_pre_request`. -/
structure CountStep (cfg : SdifConfig) (k : ℕ) (s s' : SdifState) : Prop where
  cmds : s'.cmds = s.cmds
  doneLog : s'.doneLog = s.doneLog
  cardNeedInit : s'.cardNeedInit = s.cardNeedInit
  place :
    ((s.cmds k).data.bind (blockCountPkg cfg s.useHold) = none ∧ s' = s.panic) ∨
    (s'.panicked = s.panicked ∧
      ((∃ b, s'.pc k = .blockCount b) ∨ ∃ err, s'.pc k = .filter err))

theorem CountStep.onward {p : BlockCountPc} (hcmds : t.cmds = s.cmds)
    (hlog : t.doneLog = s.doneLog) (hneed : t.cardNeedInit = s.cardNeedInit)
    (hrun : t.panicked = s.panicked) : CountStep cfg k s (t.goto k (.blockCount p)) :=
  ⟨hcmds, hlog, hneed, Or.inr ⟨hrun, Or.inl ⟨p, goto_pc ..⟩⟩⟩

theorem blockCountStep_cases {p : BlockCountPc} {ok : Bool}
    (hs : blockCountStep cfg k ok s p = some s') : CountStep cfg k s s' := by
  cases p with
  | lock =>
      obtain ⟨-, ht⟩ := Option.ite_none_right_eq_some.mp hs
      cases ht
      exact .onward rfl rfl rfl rfl
  | package =>
      dsimp only [blockCountStep] at hs
      split at hs
      · rename_i hnone
        cases hs
        exact ⟨rfl, rfl, rfl, Or.inl ⟨hnone, rfl⟩⟩
      · cases hs
        exact .onward rfl rfl rfl rfl
  | start =>
      dsimp only [blockCountStep] at hs
      split at hs <;> cases hs <;> exact .onward rfl rfl rfl rfl
  | poll =>
      dsimp only [blockCountStep] at hs
      split at hs
      · cases hs
      · split at hs <;> cases hs <;> exact .onward rfl rfl rfl rfl
  | exit err =>
      dsimp only [blockCountStep] at hs
      split at hs <;> cases hs <;>
        exact ⟨rfl, rfl, rfl, Or.inr ⟨rfl, Or.inr ⟨err, goto_pc ..⟩⟩⟩
  | _ =>
      cases hs
      exact .onward rfl rfl rfl rfl

theorem Moves.issue {v : Version} {p q : IssuePc} (hlt : Nat.blt (p.rank v) (q.rank v) = true) :
    Moves v (.issue p) (.issue q) := by
  rw [Nat.blt_eq] at hlt
  have hq : q ≠ .setReq := by
    rintro rfl
    exact Nat.not_lt_zero _ hlt
  refine ⟨CallPc.noConfusion, rfl, ?_, ?_, rfl, ?_⟩
  · intro h
    cases q <;> simp_all [CallPc.fresh]
  · intro _
    cases p <;> simp [CallPc.issuing]
  · have := q.rank_le v
    simp only [CallPc.left]
    omega

theorem Moves.unlock {v : Version} {p : IssuePc} {err : Option Errno} :
    Moves v (.issue p) (.unlock err) := by
  refine ⟨CallPc.noConfusion, rfl, fun h => Bool.noConfusion h, fun h => Bool.noConfusion h,
    rfl, ?_⟩
  have := p.rank_le v
  simp only [CallPc.left]
  omega

/-- `sdif_dma_prepare` comes behind the packages, and what follows it behind
it. -/
theorem rank_dmaPrepare (v : Version) (d : MmcData) :
    Nat.blt (IssuePc.package.rank v) ((IssuePc.dmaPrepare d).rank v) = true := by
  cases v <;> rfl

theorem rank_afterPrepare (d : MmcData) :
    Nat.blt ((IssuePc.dmaPrepare d).rank cfg.version) ((afterPrepare cfg).rank cfg.version) =
      true := by
  unfold afterPrepare
  split <;> rename_i hv <;> rw [hv] <;> rfl

theorem rank_afterFlags (cmd : MmcCommand) :
    Nat.blt (IssuePc.setExpect.rank cfg.version) ((afterFlags cfg cmd).rank cfg.version) =
      true := by
  unfold afterFlags
  split
  · rename_i hv _
    rw [hv]
    split <;> rfl
  · rfl

/-- The call makes its request the current one. -/
theorem CallStep.setReq {ok : Bool} (hpc : s.pc k = .issue .setReq) :
    CallStep cfg.version k ok s (issueStep cfg k ok s .setReq) := by
  have hnew : s.pc k ≠ .new := by
    rw [hpc]
    exact CallPc.noConfusion
  have hwait : (s.pc k).locking = false := by
    rw [hpc]
    rfl
  have hq : (issueStep cfg k ok s .setReq).pc k = .issue .setCurcmd := Function.update_self ..
  refine ⟨fun j hj => Function.update_of_ne hj .., rfl, rfl, hnew, ?_,
    fun _ => Or.inr hpc, Or.inl ⟨hwait, rfl, ?_⟩, Or.inr ⟨hpc, rfl, ?_, rfl⟩, Or.inl rfl,
    Or.inl rfl, Or.inl rfl, Or.inl ?_⟩
  · intro _
    rw [hpc]
    rfl
  · rw [hq, hpc]
    rfl
  · rw [hq]
    rfl
  · rw [hq, hpc]
    exact Nat.lt_succ_self _

/-- **What `sdif_dma_prepare` can do**: panic, choose a buffer and go on, or, in
the RTEMS build, give up. -/
theorem dmaPrepareStep_cases (cfg : SdifConfig) (k : ℕ) (ok : Bool) (d : MmcData)
    (s : SdifState) :
    dmaPrepareStep cfg k ok d s = s.panic ∨
    (ok = true ∧ ∃ mem buf ring, dmaPrepareStep cfg k ok d s =
      ({ s with
        mem := mem
        datPkg := { s.datPkg with buf := buf }
        hc := { s.hc with ringBuf := ring } }).goto k (.issue (afterPrepare cfg))) ∨
    (ok = false ∧ dmaPrepareStep cfg k ok d s =
      (bounce cfg d s).fail k .noMemory (some .enxio)) := by
  unfold dmaPrepareStep
  split
  · split
    · exact Or.inl rfl
    · cases ok with
      | true => exact Or.inr (Or.inl ⟨rfl, _, _, _, rfl⟩)
      | false => exact Or.inr (Or.inr ⟨rfl, rfl⟩)
  · split
    · exact Or.inl rfl
    · cases ok with
      | true => exact Or.inr (Or.inl ⟨rfl, _, s.datPkg.buf, _, rfl⟩)
      | false => exact Or.inl rfl

/-- **What the command package of the second driver can do**: panic over an opcode
that is not listed, or be built. -/
theorem commandStep_cases (cfg : SdifConfig) (k : ℕ) (s : SdifState) :
    (prepareCommandTransfer cfg.masks cfg.nonRemovable (s.cmds k).opcode (s.cmds k).arg = none ∧
      commandStep cfg k s = s.panic) ∨
    ∃ pkg, prepareCommandTransfer cfg.masks cfg.nonRemovable (s.cmds k).opcode (s.cmds k).arg =
        some pkg ∧
      commandStep cfg k s =
        ({ s with cmdPkg := { pkg with dataP := s.cmdPkg.dataP } }).goto k (.issue .clrDto) := by
  unfold commandStep
  dsimp only
  split
  · rename_i hnone
    exact Or.inl ⟨hnone, rfl⟩
  · rename_i pkg hpkg
    exact Or.inr ⟨pkg, hpkg, rfl⟩

theorem issueStep_spec {p : IssuePc} {ok : Bool} (hpc : s.pc k = .issue p) :
    CallStep cfg.version k ok s (issueStep cfg k ok s p) := by
  have hnew : s.pc k ≠ .new := by
    rw [hpc]
    exact CallPc.noConfusion
  have hwait : (s.pc k).locking = false := by
    rw [hpc]
    rfl
  have hmove : ∀ {t : SdifState} {q : IssuePc}, SameControl s t →
      Nat.blt (p.rank cfg.version) (q.rank cfg.version) = true →
      CallStep cfg.version k ok s (t.goto k (.issue q)) :=
    fun h hq => CallStep.move hpc h (.issue hq)
  have hfail : ∀ {t : SdifState} {e : MmcErr} {err : Option Errno}, SameControl s t →
      CallStep cfg.version k ok s (t.fail k e err) :=
    fun h => CallStep.move hpc ⟨⟨h.req, h.lock, h.pc, h.subs, h.errSeen, h.doneLog⟩, h.started,
      h.callout⟩ .unlock
  have hpanic : ∀ {t : SdifState}, SameControl s t → CallStep cfg.version k ok s t.panic :=
    fun h => CallStep.stay ⟨⟨h.req, h.lock, h.pc, h.subs, h.errSeen, h.doneLog⟩, h.started,
      h.callout⟩ hnew hwait rfl
  cases p with
  | setReq => exact CallStep.setReq hpc
  | package =>
      dsimp only [issueStep, packageStep]
      split
      · exact hmove ⟨⟨rfl, rfl, rfl, rfl, rfl, rfl⟩, rfl, rfl⟩ rfl
      · split
        · exact hmove ⟨⟨rfl, rfl, rfl, rfl, rfl, rfl⟩, rfl, rfl⟩ rfl
        · split
          · exact hpanic (.refl s)
          · exact hmove ⟨⟨rfl, rfl, rfl, rfl, rfl, rfl⟩, rfl, rfl⟩ (rank_dmaPrepare _ _)
  | dmaPrepare d =>
      dsimp only [issueStep]
      rcases dmaPrepareStep_cases cfg k ok d s with h | ⟨-, mem, buf, ring, h⟩ | ⟨-, h⟩
      · rw [h]
        exact hpanic (.refl s)
      · rw [h]
        exact hmove ⟨⟨rfl, rfl, rfl, rfl, rfl, rfl⟩, rfl, rfl⟩ (rank_afterPrepare d)
      · rw [h]
        exact hfail ⟨⟨rfl, rfl, rfl, rfl, rfl, rfl⟩, rfl, rfl⟩
  | command =>
      dsimp only [issueStep]
      rcases commandStep_cases cfg k s with ⟨-, h⟩ | ⟨pkg, -, h⟩
      · rw [h]
        exact hpanic (.refl s)
      · rw [h]
        exact hmove ⟨⟨rfl, rfl, rfl, rfl, rfl, rfl⟩, rfl, rfl⟩ rfl
  | setExpect =>
      exact hmove ⟨⟨rfl, rfl, rfl, rfl, rfl, rfl⟩, rfl, rfl⟩ (rank_afterFlags _)
  | start =>
      dsimp only [issueStep, startStep]
      split
      · rename_i hok
        exact CallStep.moveTo hpc ⟨rfl, rfl, rfl, rfl, rfl, rfl⟩ (.issue rfl)
          (Or.inr ⟨rfl, hok⟩) (Or.inl rfl)
      · split <;> exact hfail (.refl s)
  | arm =>
      exact CallStep.moveTo hpc ⟨rfl, rfl, rfl, rfl, rfl, rfl⟩ .unlock (Or.inl rfl) (Or.inr rfl)
  | _ => exact hmove ⟨⟨rfl, rfl, rfl, rfl, rfl, rfl⟩, rfl, rfl⟩ rfl

theorem filterStep_spec {err : Option Errno} {ok : Bool} (hpc : s.pc k = .filter err) :
    CallStep cfg.version k ok s (filterStep cfg k err s) := by
  unfold filterStep
  split <;> rename_i hv
  · rw [hv]
    exact CallStep.skip hpc (.of CallPc.noConfusion rfl rfl) rfl rfl
  · rw [hv]
    exact CallStep.skip hpc (.of CallPc.noConfusion rfl rfl) rfl rfl
  · rw [hv]
    exact CallStep.move hpc (.refl s) (.of CallPc.noConfusion rfl rfl)
  · rw [hv]
    exact CallStep.move hpc (.refl s) (.of CallPc.noConfusion rfl rfl)

/-- **What a step of a request call can do.** -/
theorem callStep_spec {ok : Bool} (hs : callStep cfg k ok s = some s') :
    CallStep cfg.version k ok s s' := by
  unfold callStep at hs
  split at hs <;> rename_i hpc
  · cases hs
  · exact CallStep.takeLock hpc hs CallPc.noConfusion rfl rfl rfl rfl
  · cases hs
    unfold busyStep
    split
    · exact CallStep.move hpc (.refl s) ⟨CallPc.noConfusion, rfl, fun _ => rfl,
        fun hn => Bool.noConfusion hn, rfl, by simp [CallPc.left]⟩
    · split <;> rename_i hv
      · rw [hv]
        exact CallStep.move hpc (.refl s) (.of CallPc.noConfusion rfl rfl)
      · rw [hv]
        exact CallStep.move hpc (.refl s) (.of CallPc.noConfusion rfl rfl)
  · cases hs
    unfold preRequestStep
    split
    · split <;> rename_i hv
      · rw [hv]
        exact CallStep.move hpc (.refl s) (.of CallPc.noConfusion rfl rfl)
      · rw [hv]
        exact CallStep.move hpc (.refl s) (.of CallPc.noConfusion rfl rfl)
    · exact CallStep.move hpc (.refl s) ⟨CallPc.noConfusion, rfl, fun _ => rfl,
        fun hn => Bool.noConfusion hn, rfl, by simp [CallPc.left]⟩
  · exact blockCountStep_spec hpc hs
  · cases hs
    exact filterStep_spec hpc
  · exact CallStep.takeLock hpc hs CallPc.noConfusion rfl rfl rfl rfl
  · cases hs
    exact issueStep_spec hpc
  · cases hs
    exact CallStep.dropLock hpc rfl rfl rfl (fun hn => Bool.noConfusion hn) rfl rfl
  · cases hs

/-! ## The events that may complete a request -/

/-- The request `sdif_finish_command` would complete: the current one, if the
handler gets as far as its callback. -/
def finishing (cfg : SdifConfig) (s : SdifState) : Option ℕ :=
  s.req.filter fun r =>
    s.reqPending && (commandResponse cfg s).isSome && (copyBack cfg s (s.cmds r).data).isSome

/-- The request an event would complete. -/
def completes (cfg : SdifConfig) (s : SdifState) : SdifEvent → Option ℕ
  | .cmdDone resp =>
      if !s.expectData || s.dtoRcvd then finishing cfg (noteCommandDone cfg resp s) else none
  | .dataDone bytes =>
      if cfg.usesDma && !dmaDoneOk cfg s s.curcmd then none
      else if s.cmdDone then finishing cfg (noteDataDone bytes s)
      else none
  | _ => none

/-- What `CMD_DONE` and `DATA_DONE` can do. -/
structure DoneEvent (s s' : SdifState) (completed : Option ℕ) : Prop where
  pc : s'.pc = s.pc
  lock : s'.lock = s.lock
  subs : s'.subs = s.subs
  errSeen : s'.errSeen = s.errSeen
  started : s'.hc.started = s.hc.started
  quiet : completed = none →
    s'.req = s.req ∧ s'.doneLog = s.doneLog ∧ s'.callout = s.callout
  done : ∀ r, completed = some r →
    s.req = some r ∧ s'.req = none ∧
      ∃ resp buffer, s'.doneLog = s.doneLog ++ [⟨r, .none, resp, buffer, s.errSeen r⟩]

theorem DoneEvent.of_same (h : SameControl s t) : DoneEvent s t none :=
  ⟨h.pc, h.lock, h.subs, h.errSeen, h.started, fun _ => ⟨h.req, h.doneLog, h.callout⟩,
    fun _ hn => (Option.some_ne_none _ hn.symm).elim⟩

/-- What a callback leaves on record. -/
theorem callDone_doneLog {e : MmcErr} (he : (s.cmds k).error = e) :
    ∃ resp buffer,
      (s.callDone k).doneLog = s.doneLog ++ [⟨k, e, resp, buffer, s.errSeen k⟩] := by
  subst he
  exact ⟨_, _, rfl⟩

theorem finishCommand_spec (s : SdifState) :
    DoneEvent s (finishCommand cfg s) (finishing cfg s) := by
  unfold finishCommand finishing
  split
  · rename_i hreq
    rw [hreq]
    exact .of_same ⟨⟨hreq.symm, rfl, rfl, rfl, rfl, rfl⟩, rfl, rfl⟩
  · rename_i r hreq
    rw [hreq, Option.filter_some]
    split
    · rename_i hpend
      split
      · rename_i response mem hresp hmem
        rw [hpend, hresp, hmem]
        refine ⟨rfl, rfl, rfl, rfl, rfl, fun hn => (Option.some_ne_none _ hn).elim, ?_⟩
        rintro _ ⟨⟩
        have herr : ((retire cfg r response mem s).cmds r).error = .none := by
          simp only [retire, Function.update_self]
        exact ⟨hreq, rfl, callDone_doneLog herr⟩
      · rename_i hnone
        rw [if_neg]
        · exact .of_same ⟨⟨rfl, rfl, rfl, rfl, rfl, rfl⟩, rfl, rfl⟩
        · intro hc
          rw [Bool.and_eq_true, Bool.and_eq_true] at hc
          obtain ⟨resp, hresp⟩ := Option.isSome_iff_exists.mp hc.1.2
          obtain ⟨mem, hmem⟩ := Option.isSome_iff_exists.mp hc.2
          exact hnone resp mem hresp hmem
    · rename_i hpend
      rw [Bool.not_eq_true] at hpend
      rw [hpend]
      exact .of_same ⟨⟨rfl, rfl, rfl, rfl, rfl, rfl⟩, rfl, rfl⟩

/-- A handler that first makes a note of the event. -/
theorem DoneEvent.after {c : Option ℕ} (h : SameControl s t) (hd : DoneEvent t s' c) :
    DoneEvent s s' c := by
  obtain ⟨⟨hreq, hlock, hp, hsubs, herr, hlog⟩, hstarted, hcallout⟩ := h
  refine ⟨hd.pc.trans hp, hd.lock.trans hlock, hd.subs.trans hsubs, hd.errSeen.trans herr,
    hd.started.trans hstarted, ?_, ?_⟩
  · intro hc
    obtain ⟨hr, hl, ho⟩ := hd.quiet hc
    exact ⟨hr.trans hreq, hl.trans hlog, ho.trans hcallout⟩
  · intro r hr
    obtain ⟨hr, hn, resp, buffer, hl⟩ := hd.done r hr
    rw [hlog, herr] at hl
    exact ⟨hreq ▸ hr, hn, resp, buffer, hl⟩

theorem noteCommandDone_same (resp : Resp) (s : SdifState) :
    SameControl s (noteCommandDone cfg resp s) :=
  ⟨⟨rfl, rfl, rfl, rfl, rfl, rfl⟩, rfl, rfl⟩

theorem noteDataDone_same (bytes : List (BitVec 8)) (s : SdifState) :
    SameControl s (noteDataDone bytes s) :=
  ⟨⟨rfl, rfl, rfl, rfl, rfl, rfl⟩, rfl, rfl⟩

/-- **What `CMD_DONE` can do.** -/
theorem commandDone_spec (resp : Resp) (s : SdifState) :
    DoneEvent s (commandDone cfg resp s) (completes cfg s (.cmdDone resp)) := by
  unfold commandDone completes
  split
  · exact (finishCommand_spec _).after (noteCommandDone_same resp s)
  · exact .of_same (noteCommandDone_same resp s)

/-- **What `DATA_DONE` can do.** -/
theorem dataDone_spec (bytes : List (BitVec 8)) (s : SdifState) :
    DoneEvent s (dataDone cfg bytes s) (completes cfg s (.dataDone bytes)) := by
  unfold dataDone completes
  split
  · exact .of_same ⟨⟨rfl, rfl, rfl, rfl, rfl, rfl⟩, rfl, rfl⟩
  · split
    · exact (finishCommand_spec _).after (noteDataDone_same bytes s)
    · exact .of_same (noteDataDone_same bytes s)

/-- **What `ERR_OCCURE` can do**: nothing but take note. -/
theorem errorOccurred_spec (cfg : SdifConfig) (s : SdifState) :
    (errorOccurred cfg s).pc = s.pc ∧ (errorOccurred cfg s).lock = s.lock ∧
    (errorOccurred cfg s).subs = s.subs ∧ (errorOccurred cfg s).hc = s.hc ∧
    (errorOccurred cfg s).req = s.req ∧ (errorOccurred cfg s).doneLog = s.doneLog ∧
    (errorOccurred cfg s).callout = s.callout ∧
    ∀ k, (errorOccurred cfg s).errSeen k = true → s.errSeen k = true ∨ s.req = some k := by
  have hnote : ∀ k, (noteError s).errSeen k = true → s.errSeen k = true ∨ s.req = some k := by
    intro k hk
    unfold noteError at hk
    split at hk
    · exact Or.inl hk
    · rename_i r hreq
      by_cases hkr : k = r
      · right
        rw [hreq, hkr]
      · left
        rwa [← Function.update_of_ne hkr true s.errSeen]
  have hfields : (noteError s).pc = s.pc ∧ (noteError s).lock = s.lock ∧
      (noteError s).subs = s.subs ∧ (noteError s).hc = s.hc ∧ (noteError s).req = s.req ∧
      (noteError s).doneLog = s.doneLog ∧ (noteError s).callout = s.callout := by
    unfold noteError
    split <;> exact ⟨rfl, rfl, rfl, rfl, rfl, rfl, rfl⟩
  obtain ⟨hp, hl, hsub, hh, hr, hd, ho⟩ := hfields
  unfold errorOccurred
  split <;> exact ⟨hp, hl, hsub, hh, hr, hd, ho, hnote⟩

/-- **What the timeout handler can do**: complete the current request, which
stays the current one, or nothing. -/
theorem timeout_spec (cfg : SdifConfig) (s : SdifState) :
    (timeout cfg s).pc = s.pc ∧ (timeout cfg s).lock = s.lock ∧ (timeout cfg s).subs = s.subs ∧
    (timeout cfg s).req = s.req ∧ (timeout cfg s).errSeen = s.errSeen ∧
    (timeout cfg s).callout = .idle ∧
    ((timeout cfg s).doneLog = s.doneLog ∧ (timeout cfg s).hc = s.hc ∨
      ∃ r resp buffer, s.req = some r ∧ (timeout cfg s).hc = s.hc.restart ∧
        (timeout cfg s).doneLog = s.doneLog ++ [⟨r, .timeout, resp, buffer, s.errSeen r⟩]) := by
  unfold timeout
  split
  · exact ⟨rfl, rfl, rfl, rfl, rfl, rfl, Or.inl ⟨rfl, rfl⟩⟩
  · exact ⟨rfl, rfl, rfl, rfl, rfl, rfl, Or.inl ⟨rfl, rfl⟩⟩
  · rename_i r _ hreq
    split
    · exact ⟨rfl, rfl, rfl, rfl, rfl, rfl, Or.inl ⟨rfl, rfl⟩⟩
    · have herr : (({ s with callout := .idle, hc := s.hc.restart }.setErr r .timeout).cmds
          r).error = .timeout := by
        simp only [SdifState.setErr, Function.update_self]
      obtain ⟨resp, buffer, hlog⟩ := callDone_doneLog herr
      exact ⟨rfl, rfl, rfl, rfl, rfl, rfl, Or.inr ⟨r, resp, buffer, hreq, rfl, hlog⟩⟩

/-! ## The calls and the lock -/

/-- What holds of the request calls in every state. -/
structure CallInv (cfg : SdifConfig) (s : SdifState) : Prop where
  unborn : ∀ k, s.submitted ≤ k → s.pc k = .new
  current : ∀ r, s.req = some r → (s.pc r).fresh = false
  locked : ∀ k, (s.pc k).locked cfg.version = true → s.lock = some k

theorem CallInv.born (h : CallInv cfg s) (hk : s.pc k ≠ .new) : k < s.submitted := by
  by_contra hn
  exact hk (h.unborn k (Nat.le_of_not_lt hn))

theorem entry_fresh : (entry cfg).fresh = true := by
  unfold entry
  split <;> rfl

theorem entry_locked : (entry cfg).locked cfg.version = false := by
  unfold entry
  split <;> rename_i hv <;> rw [hv] <;> rfl

/-- A new call is in the state of its entry, the others where they were. -/
theorem submit_pc (cmd : MmcCommand) (bytes : List (BitVec 8)) (s : SdifState) (k : ℕ) :
    (submit cfg cmd bytes s).pc k = if k = s.submitted then entry cfg else s.pc k := by
  simp only [submit, Function.update_apply]

/-- A call is fresh afterwards only if it was before. -/
theorem CallInv.submit_fresh {cmd : MmcCommand} {bytes : List (BitVec 8)} (h : CallInv cfg s) :
    ∀ k, ((submit cfg cmd bytes s).pc k).fresh = true → (s.pc k).fresh = true := by
  intro k hk
  rw [submit_pc] at hk
  split at hk
  · rename_i hk'
    rw [h.unborn k (le_of_eq hk'.symm)]
    rfl
  · exact hk

theorem CallInv.submit {cmd : MmcCommand} {bytes : List (BitVec 8)} (h : CallInv cfg s) :
    CallInv cfg (submit cfg cmd bytes s) := by
  have hlen : (Sdif.submit cfg cmd bytes s).submitted = s.submitted + 1 := by
    simp [Sdif.submit, SdifState.submitted]
  refine ⟨?_, ?_, ?_⟩
  · intro k hk
    rw [hlen] at hk
    rw [submit_pc, if_neg (Nat.ne_of_gt hk)]
    exact h.unborn k (Nat.le_of_succ_le hk)
  · intro r hr
    have hcur := h.current r hr
    have hne : r ≠ s.submitted := by
      rintro rfl
      rw [h.unborn _ le_rfl] at hcur
      exact Bool.noConfusion hcur
    rwa [submit_pc, if_neg hne]
  · intro k hk
    rw [submit_pc] at hk
    split at hk
    · rw [entry_locked] at hk
      exact Bool.noConfusion hk
    · exact h.locked k hk

theorem CallInv.callStep {ok : Bool} (h : CallInv cfg s) (hs : CallStep cfg.version k ok s s') :
    CallInv cfg s' := by
  have hsub : s'.submitted = s.submitted := congrArg List.length hs.subs
  refine ⟨?_, ?_, ?_⟩
  · intro j hj
    rw [hsub] at hj
    have hjk : j ≠ k := by
      rintro rfl
      exact hs.entered (h.unborn j hj)
    rw [hs.others j hjk]
    exact h.unborn j hj
  · intro r hr
    rcases hs.req with hreq | ⟨-, hreq, hf, -⟩
    · have hcur := h.current r (hreq ▸ hr)
      by_cases hrk : r = k
      · subst hrk
        by_contra hn
        rw [Bool.not_eq_false] at hn
        rw [hs.fresh_of hn] at hcur
        exact Bool.noConfusion hcur
      · rwa [hs.others r hrk]
    · rw [hreq, Option.some.injEq] at hr
      rwa [← hr]
  · intro j hj
    by_cases hjk : j = k
    · subst hjk
      rcases hs.lock with ⟨-, hl, hp⟩ | ⟨-, -, hl⟩ | ⟨-, -, -, hp⟩
      · rw [hl]
        exact h.locked j (hp ▸ hj)
      · exact hl
      · rw [hp] at hj
        exact Bool.noConfusion hj
    · rw [hs.others j hjk] at hj
      have hlock := h.locked j hj
      rcases hs.lock with ⟨-, hl, -⟩ | ⟨-, hl, -⟩ | ⟨-, -, hp, -⟩
      · rw [hl, hlock]
      · rw [hl] at hlock
        exact (Option.some_ne_none _ hlock.symm).elim
      · have hlock' := h.locked k hp
        rw [hlock, Option.some.injEq] at hlock'
        exact absurd hlock' hjk

/-- A step that leaves the calls and the lock alone and makes no request the
current one. -/
theorem CallInv.frame (h : CallInv cfg s) (hp : s'.pc = s.pc) (hl : s'.lock = s.lock)
    (hsubs : s'.subs = s.subs) (hreq : s'.req = s.req ∨ s'.req = none) : CallInv cfg s' := by
  refine ⟨?_, ?_, ?_⟩
  · intro k hk
    rw [hp]
    exact h.unborn k (by rwa [SdifState.submitted, ← hsubs])
  · intro r hr
    rw [hp]
    rcases hreq with hreq | hreq
    · exact h.current r (hreq ▸ hr)
    · rw [hreq] at hr
      cases hr
  · intro k hk
    rw [hl]
    exact h.locked k (by rwa [← hp])

theorem CallInv.doneEvent {c : Option ℕ} (h : CallInv cfg s) (hd : DoneEvent s s' c) :
    CallInv cfg s' := by
  refine h.frame hd.pc hd.lock hd.subs ?_
  cases c with
  | none => exact Or.inl (hd.quiet rfl).1
  | some r => exact Or.inr (hd.done r rfl).2.1

theorem sdifStep_iff {e : SdifEvent} :
    sdifStep cfg s e = some s' ↔ s.panicked = false ∧ eventStep cfg s e = some s' := by
  unfold sdifStep
  split <;> simp_all

theorem eventStep_callInv {e : SdifEvent} (h : CallInv cfg s)
    (hs : eventStep cfg s e = some s') : CallInv cfg s' := by
  cases e with
  | submit cmd bytes =>
      cases hs
      exact h.submit
  | call k ok => exact h.callStep (callStep_spec hs)
  | cmdDone resp =>
      cases hs
      exact h.doneEvent (commandDone_spec resp s)
  | dataDone bytes =>
      cases hs
      exact h.doneEvent (dataDone_spec bytes s)
  | errOccure =>
      cases hs
      obtain ⟨hp, hl, hsub, -, hr, -⟩ := errorOccurred_spec cfg s
      exact h.frame hp hl hsub (Or.inl hr)
  | expire =>
      obtain ⟨-, ht⟩ := Option.ite_none_right_eq_some.mp hs
      cases ht
      exact h.frame rfl rfl rfl (Or.inl rfl)
  | timeout =>
      obtain ⟨-, ht⟩ := Option.ite_none_right_eq_some.mp hs
      cases ht
      obtain ⟨hp, hl, hsub, hr, -⟩ := timeout_spec cfg s
      exact h.frame hp hl hsub (Or.inl hr)
  | updateIos powerUp useHold =>
      obtain ⟨-, ht⟩ := Option.ite_none_right_eq_some.mp hs
      cases ht
      exact h.frame rfl rfl rfl (Or.inl rfl)

theorem sdif_reachable_callInv (h : (sdifSystem cfg).Reachable s) : CallInv cfg s := by
  apply h.invariant
  · rintro s ⟨mem, need, rfl⟩
    exact ⟨fun _ _ => rfl, fun _ hr => (Option.some_ne_none _ hr.symm).elim,
      fun _ hk => Bool.noConfusion hk⟩
  · intro s e s' hi (hs : sdifStep cfg s e = some s')
    exact eventStep_callInv hi (sdifStep_iff.mp hs).2

end Phytium.Sdif
