import PhytiumSdk.Sdif.Service

/-!
# Runs without faults

Each step of a run without faults keeps the stage of the request under way or
takes it to the next one.
-/

namespace Phytium.Sdif

open Lib

variable {cfg : SdifConfig} {dev : Device} {s s' t : SdifState} {j : Job} {σ : Service}

/-! ## Calls behind the start -/

/-- The same but for the calls, the callout and the lock. -/
def SameService (s t : SdifState) : Prop :=
  ∃ pc callout lock, t = { s with
    pc := pc
    callout := callout
    lock := lock }

theorem Pending.frame (h : Pending j s) (ht : SameService s t) : Pending j t := by
  obtain ⟨pc, callout, lock, rfl⟩ := ht
  exact { h with }

theorem Waiting.frame {p : CallPc} (h : Waiting cfg p j s) (ht : SameService s t)
    (hpc : t.pc j.num = s.pc j.num) : Waiting cfg p j t := by
  have hpend := h.toPending.frame ht
  obtain ⟨pc, callout, lock, rfl⟩ := ht
  exact { h, hpend with pc := hpc.trans h.pc }

theorem Issuing.frame {v : Version} {p : IssuePc} (h : Issuing cfg v p j s) (ht : SameService s t)
    (hpc : t.pc j.num = s.pc j.num) : Issuing cfg v p j t := by
  have hpend := h.toPending.frame ht
  obtain ⟨pc, callout, lock, rfl⟩ := ht
  exact { h, hpend with pc := hpc.trans h.pc }

theorem Started.frame (h : Started cfg dev j s) (ht : SameService s t)
    (hpc : (t.pc j.num).started = true) : Started cfg dev j t := by
  have hpend := h.toPending.frame ht
  obtain ⟨pc, callout, lock, rfl⟩ := ht
  exact { h, hpend with pc := hpc }

theorem Idle.frame (h : Idle cfg σ s) (ht : SameService s t) : Idle cfg σ t := by
  obtain ⟨pc, callout, lock, rfl⟩ := ht
  exact { h with }

/-- What is left to a call that has started its transfer touches no request. -/
theorem callStep_started {k : ℕ} {ok : Bool} (hk : (s.pc k).started = true)
    (hs : callStep cfg k ok s = some s') :
    SameService s s' ∧ (s'.pc k).started = true ∧ ∀ i, i ≠ k → s'.pc i = s.pc i := by
  unfold CallPc.started at hk
  split at hk <;> rename_i hpc
  · simp only [callStep, hpc, Option.some.injEq] at hs
    subst hs
    refine ⟨⟨_, _, _, rfl⟩, ?_, fun i hi => Function.update_of_ne hi ..⟩
    simp only [issueStep, SdifState.goto, Function.update_self, CallPc.started]
  · simp only [callStep, hpc, Option.some.injEq] at hs
    subst hs
    refine ⟨⟨_, _, _, rfl⟩, ?_, fun i hi => Function.update_of_ne hi ..⟩
    simp only [SdifState.dropLock, SdifState.goto, Function.update_self, CallPc.started]
  · simp only [callStep, hpc] at hs
    cases hs
  · cases hk

/-! ## Before `sc->req` is set -/

/-- A move that leaves the fields of `Waiting` alone. -/
theorem Waiting.move {p q : CallPc} (h : Waiting cfg p j s) (hq : q.waits cfg j.cmd = true)
    (hp : p ≠ .blockCount .poll) (hpend : ∀ b, q.pending b = p.pending b)
    (hexp : q.dataless = false) : Waiting cfg q j (s.goto j.num q) where
  cmd := h.cmd
  useHold := h.useHold
  errSeen := h.errSeen
  panicked := h.panicked
  log := h.log
  pc := goto_pc s j.num q
  place := hq
  req := h.req
  curcmd := h.curcmd
  pending := h.pending.trans (hpend _).symm
  expect := by simp [hexp]
  cmdOwed := fun ho => absurd (h.cmdOwed ho) hp
  dataOwed := h.dataOwed
  needInit := h.needInit
  mem := h.mem

/-- A move that takes or drops the lock, too. -/
theorem Waiting.moveLock {p q : CallPc} {lock : Option ℕ} (h : Waiting cfg p j s)
    (hq : q.waits cfg j.cmd = true) (hp : p ≠ .blockCount .poll)
    (hpend : ∀ b, q.pending b = p.pending b) (hexp : q.dataless = false) :
    Waiting cfg q j ({ s with lock := lock }.goto j.num q) :=
  (h.move hq hp hpend hexp).frame ⟨_, _, lock, rfl⟩ rfl

theorem Waiting.blockCount {p : BlockCountPc} (h : Waiting cfg (.blockCount p) j s)
    (hs : blockCountStep cfg j.num true s p = some s') : ∃ q, Waiting cfg q j s' := by
  have hplace := h.place
  cases p with
  | lock =>
      obtain ⟨-, ht⟩ := Option.ite_none_right_eq_some.mp hs
      cases ht
      simp only [CallPc.waits, Bool.and_eq_true] at hplace
      exact ⟨_, h.moveLock hplace.1 (by simp) (fun _ => rfl) rfl⟩
  | package =>
      obtain ⟨e, hcmd⟩ := h.cmd
      obtain ⟨d, hd⟩ : ∃ d, j.cmd.data = some d := by
        simp only [CallPc.waits, needsBlockCount, Bool.and_eq_true] at hplace
        exact Option.isSome_iff_exists.mp hplace.2
      obtain ⟨pkg, hpkg⟩ : ∃ pkg, blockCountPkg cfg s.useHold d = some pkg := by
        unfold blockCountPkg
        split
        · exact ⟨_, rfl⟩
        · simp only [prepareCommandTransfer, prepareCommandFlags_setBlockCount, Option.map_some]
          exact ⟨_, rfl⟩
      simp only [blockCountStep, hcmd, hd, Option.bind_some, hpkg, Option.some.injEq] at hs
      subst hs
      have hm := h.move (q := .blockCount .clrDto) hplace (by simp) (fun _ => rfl) rfl
      exact ⟨_, { hm with }⟩
  | clrDto =>
      cases hs
      have hm := h.move (q := .blockCount .clrCmdDone) hplace (by simp) (fun _ => rfl) rfl
      exact ⟨_, { hm with }⟩
  | clrCmdDone =>
      cases hs
      have hm := h.move (q := .blockCount .setPending) hplace (by simp) (fun _ => rfl) rfl
      exact ⟨_, { hm with }⟩
  | setPending =>
      cases hs
      exact ⟨.blockCount .setExpect, { h with
        pc := goto_pc _ _ _
        pending := rfl
        cmdOwed := fun ho => absurd (h.cmdOwed ho) (by simp) }⟩
  | setExpect =>
      cases hs
      exact ⟨.blockCount .start, { h with
        pc := goto_pc _ _ _
        expect := fun _ => rfl
        cmdOwed := fun ho => absurd (h.cmdOwed ho) (by simp) }⟩
  | start =>
      cases hs
      exact ⟨.blockCount .poll, { h with
        pc := goto_pc _ _ _
        cmdOwed := fun _ => rfl
        dataOwed := rfl }⟩
  | poll =>
      -- the loop ends only when `CMD_DONE` has come
      have hpend : s.reqPending = false := by
        by_contra hn
        rw [Bool.not_eq_false] at hn
        simp [blockCountStep, hn] at hs
      simp only [blockCountStep, hpend, Bool.false_eq_true, if_false, if_true, Option.some.injEq]
        at hs
      subst hs
      have howed : s.hc.cmdOwed = false := h.pending.symm.trans hpend
      exact ⟨.blockCount .busy, { h with
        pc := goto_pc _ _ _
        pending := hpend
        expect := fun hn => Bool.noConfusion hn
        cmdOwed := fun ho => Bool.noConfusion (howed.symm.trans ho) }⟩
  | busy =>
      cases hs
      refine ⟨_, h.move ?_ (by simp) (fun _ => rfl) rfl⟩
      simpa [CallPc.waits] using hplace
  | exit err =>
      simp only [CallPc.waits, Bool.and_eq_true] at hplace
      simp only [blockCountStep] at hs
      split at hs <;> cases hs
      · exact ⟨_, h.move hplace.2 (by simp) (fun _ => rfl) rfl⟩
      · exact ⟨_, h.moveLock hplace.2 (by simp) (fun _ => rfl) rfl⟩

theorem Waiting.setReq {v : Version} (h : Waiting cfg (.issue .setReq) j s) (hv : cfg.version = v) :
    Issuing cfg v .setCurcmd j ({ s with req := some j.num }.goto j.num (.issue .setCurcmd)) := by
  have howed : s.hc.cmdOwed = false := by
    by_contra hn
    rw [Bool.not_eq_false] at hn
    exact CallPc.noConfusion (h.cmdOwed hn)
  cases v <;> exact { h with
    version := hv
    pc := goto_pc _ _ _
    place := trivial
    req := rfl
    cmdOwed := howed
    curcmd := fun hn => Bool.noConfusion hn
    dtoRcvd := fun hn => Bool.noConfusion hn
    cmdDone := fun hn => Bool.noConfusion hn
    pending := fun hn => Bool.noConfusion hn
    expect := fun hn => Bool.noConfusion hn
    needInit := fun hv' => h.needInit (hv.trans hv')
    pkg := fun _ hn => Bool.noConfusion hn
    buf := fun _ hn => Bool.noConfusion hn
    buffered := fun hn => Bool.noConfusion hn
    mem := h.mem }

theorem supported_not_skipped {cmd : MmcCommand} (h : supported cfg cmd = true) :
    skipped cfg cmd = false := by
  simp only [supported, Bool.and_eq_true, Bool.not_eq_true'] at h
  exact h.1.1

/-- The tests of a command do not look at its error. -/
theorem skipped_error (cmd : MmcCommand) (e : MmcErr) :
    skipped cfg { cmd with error := e } = skipped cfg cmd := rfl

theorem needsBlockCount_error (cmd : MmcCommand) (e : MmcErr) :
    needsBlockCount cfg { cmd with error := e } = needsBlockCount cfg cmd := rfl

/-- **A call that has not set `sc->req`** stays so or sets it. -/
theorem Waiting.call {p : CallPc} (h : Waiting cfg p j s) (hsup : supported cfg j.cmd = true)
    (hs : callStep cfg j.num true s = some s') :
    (∃ q, Waiting cfg q j s') ∨ Issuing cfg cfg.version .setCurcmd j s' := by
  have hplace := h.place
  obtain ⟨e, hcmd⟩ := h.cmd
  simp only [callStep, h.pc] at hs
  cases p with
  | new => cases hs
  | lock =>
      obtain ⟨-, ht⟩ := Option.ite_none_right_eq_some.mp hs
      cases ht
      exact Or.inl ⟨_, h.moveLock rfl (by simp) (fun _ => rfl) rfl⟩
  | busy =>
      cases hs
      exact Or.inl ⟨_, h.move rfl (by simp) (fun _ => rfl) rfl⟩
  | preRequest =>
      cases hs
      left
      simp only [preRequestStep, hcmd, needsBlockCount_error]
      split
      · rename_i hneed
        split <;> rename_i hv
        · exact ⟨_, h.move (by simpa [CallPc.waits] using hneed) (by simp) (fun _ => rfl) rfl⟩
        · refine ⟨_, h.move ?_ (by simp) (fun _ => rfl) rfl⟩
          simp [CallPc.waits, hneed, hv]
      · exact ⟨_, h.move rfl (by simp) (fun _ => rfl) rfl⟩
  | blockCount p => exact Or.inl (h.blockCount hs)
  | filter err =>
      cases hs
      left
      have herr : err = none := by simpa [CallPc.waits] using hplace
      subst herr
      simp only [filterStep, hcmd, skipped_error, supported_not_skipped hsup, Bool.false_eq_true,
        if_false]
      cases hv : cfg.version with
      | v1 => exact ⟨_, h.move rfl (by simp) (fun _ => rfl) rfl⟩
      | v2 =>
          refine ⟨_, h.move ?_ (by simp) (fun _ => rfl) rfl⟩
          simp [CallPc.waits, hv]
  | mainLock =>
      obtain ⟨-, ht⟩ := Option.ite_none_right_eq_some.mp hs
      cases ht
      exact Or.inl ⟨_, h.moveLock rfl (by simp) (fun _ => rfl) rfl⟩
  | issue p =>
      cases p with
      | setReq =>
          cases hs
          exact Or.inr (h.setReq rfl)
      | _ => cases hplace
  | unlock err => cases hplace
  | returned err => cases hplace

/-! ## From `sc->req` to the start -/

theorem supported_flags {cmd : MmcCommand} (h : supported cfg cmd = true)
    (hv : cfg.version = .v2) :
    ∃ f, prepareCommandFlags cfg.nonRemovable cmd.opcode cmd.arg = some f := by
  simp only [supported, hv, Bool.and_eq_true] at h
  exact Option.isSome_iff_exists.mp (by simpa using h.1.2)

theorem supported_transferable {cmd : MmcCommand} {d : MmcData} (h : supported cfg cmd = true)
    (hd : cmd.data = some d) : transferable cfg d = true := by
  simp only [supported, hd, Bool.and_eq_true, Option.all_some] at h
  exact h.2

theorem prepareMem_none (m : Mem) : prepareMem cfg none m = m := rfl

/-- Without DMA nothing is prepared. -/
theorem prepareMem_noDma {data : Option MmcData} {m : Mem} (h : cfg.usesDma = false) :
    prepareMem cfg data m = m := by
  cases data with
  | none => rfl
  | some d => simp [prepareMem, h]

/-- **`sdif_dma_prepare`**, when it goes well. -/
theorem dmaPrepareStep_ok {k : ℕ} {d : MmcData} (hdma : cfg.usesDma = true)
    (hd : transferable cfg d = true) :
    ∃ buf, Buffered cfg d (transferBuf cfg d) buf ∧
      dmaPrepareStep cfg k true d s = { s with
        mem := prepareMem cfg (some d) s.mem
        datPkg := { s.datPkg with buf := buf }
        hc := { s.hc with ringBuf := transferBuf cfg d } }.goto k (.issue (afterPrepare cfg)) := by
  cases hr : cfg.rtems with
  | true =>
      have hlen : ¬ (d.data % cfg.dmaBufAligment ≠ 0 ∧ cfg.alignedDmaBufLen < d.len) := by
        rintro ⟨hal, hlt⟩
        simp [transferable, hdma, hr, hal, Nat.not_le.mpr hlt] at hd
      have hbuf : transferBuf cfg d = bounceBuf cfg d := by
        simp [transferBuf, hdma, hr]
      refine ⟨transferBuf cfg d, ⟨by simp [hdma], fun _ => rfl⟩, ?_⟩
      simp only [dmaPrepareStep, hr, if_true, hlen, if_false, bounce, prepareMem, hdma,
        Bool.and_self, hbuf]
  | false =>
      have hne : d.data ≠ 0 := by
        simpa [transferable, hdma, hr] using hd
      have hbuf : transferBuf cfg d = d.data := by
        simp [transferBuf, hr]
      refine ⟨s.datPkg.buf, ⟨by simp [hdma], fun hn => Bool.noConfusion (hr.symm.trans hn)⟩, ?_⟩
      simp only [dmaPrepareStep, hr, Bool.false_eq_true, if_false, hne, if_true, prepareMem,
        Bool.and_false, hbuf]

theorem Issuing.package {v : Version} (h : Issuing cfg v .package j s)
    (hsup : supported cfg j.cmd = true) :
    ∃ q, Issuing cfg v q j (packageStep cfg j.num s) := by
  obtain ⟨e, hcmd⟩ := h.cmd
  cases v with
  | v1 =>
      have hneed : s.cardNeedInit = j.before.needInit := h.needInit rfl
      simp only [packageStep, h.version, hcmd]
      refine ⟨.clrDto, { h with
        pc := goto_pc _ _ _
        dtoRcvd := fun hn => Bool.noConfusion hn
        needInit := fun _ => rfl
        pkg := ?_
        buf := ?_
        buffered := fun hn => Bool.noConfusion hn }⟩
      · intro _ _
        simp only [SdifState.goto, Job.pkg, h.useHold, hneed]
        rfl
      · intro _ _ _ d hd
        rw [Option.mem_def] at hd
        simp [SdifState.goto, hd, prepareData]
  | v2 =>
      obtain ⟨f, hf⟩ := supported_flags hsup h.version
      simp only [packageStep, h.version, hcmd]
      cases hd : j.cmd.data with
      | none =>
          exact ⟨.command, { h with
            pc := goto_pc _ _ _
            place := rfl
            needInit := fun hn => Version.noConfusion hn
            pkg := fun hn => Version.noConfusion hn
            buf := fun hn => Version.noConfusion hn
            buffered := by simp [hd]
            mem := h.mem.trans (by simp [Job.prepared, hd, prepareMem_none]) }⟩
      | some d =>
          simp only [prepareDataTransfer, prepareRawCommand, hf, Option.map_some]
          exact ⟨.dmaPrepare d, { h with
            pc := goto_pc _ _ _
            place := ⟨hd, by simp [SdifConfig.usesDma, h.version]⟩
            needInit := fun hn => Version.noConfusion hn
            pkg := fun hn => Version.noConfusion hn
            buf := fun hn => Version.noConfusion hn
            buffered := fun hn => Bool.noConfusion hn }⟩

theorem Issuing.dmaPrepare {v : Version} {d : MmcData} (h : Issuing cfg v (.dmaPrepare d) j s)
    (hsup : supported cfg j.cmd = true) :
    ∃ q, Issuing cfg v q j (dmaPrepareStep cfg j.num true d s) := by
  obtain ⟨hd, hdma⟩ := h.place
  obtain ⟨buf, hbuf, hstep⟩ := dmaPrepareStep_ok (s := s) (k := j.num) hdma
    (supported_transferable hsup hd)
  have hbufs : ∀ d' ∈ j.cmd.data, Buffered cfg d' (transferBuf cfg d) buf := by
    intro d' hd'
    rw [hd, Option.mem_some_iff] at hd'
    subst hd'
    exact hbuf
  have hfilled : s.mem = j.filled := by
    cases v <;> exact h.mem
  have hmem : prepareMem cfg (some d) s.mem = j.prepared cfg := by
    rw [hfilled, Job.prepared, hd]
  rw [hstep]
  cases v with
  | v1 =>
      simp only [afterPrepare, h.version]
      exact ⟨.start, { h with
        pc := goto_pc _ _ _
        place := trivial
        buf := fun _ _ hn => Bool.noConfusion hn
        buffered := fun _ => hbufs
        mem := hmem }⟩
  | v2 =>
      simp only [afterPrepare, h.version]
      exact ⟨.command, { h with
        pc := goto_pc _ _ _
        place := rfl
        needInit := fun hn => Version.noConfusion hn
        pkg := fun hn => Version.noConfusion hn
        buf := fun hn => Version.noConfusion hn
        buffered := fun _ => hbufs
        mem := hmem }⟩

theorem Issuing.command {v : Version} (h : Issuing cfg v .command j s)
    (hsup : supported cfg j.cmd = true) :
    ∃ q, Issuing cfg v q j (commandStep cfg j.num s) := by
  have hv : v = .v2 := h.place
  subst hv
  obtain ⟨e, hcmd⟩ := h.cmd
  obtain ⟨f, hf⟩ := supported_flags hsup h.version
  simp only [commandStep, hcmd, prepareCommandTransfer, hf, Option.map_some]
  exact ⟨.clrDto, { h with
    pc := goto_pc _ _ _
    place := trivial
    dtoRcvd := fun hn => Bool.noConfusion hn
    pkg := fun hn => Version.noConfusion hn }⟩

theorem Issuing.setExpect {v : Version} (h : Issuing cfg v .setExpect j s) :
    ∃ q, Issuing cfg v q j (issueStep cfg j.num true s .setExpect) := by
  obtain ⟨e, hcmd⟩ := h.cmd
  cases v with
  | v1 =>
      have hbuf := h.buf rfl rfl rfl
      have hfilled : s.mem = j.filled := h.mem
      simp only [issueStep, hcmd]
      cases hd : j.cmd.data with
      | none =>
          simp only [afterFlags, h.version]
          exact ⟨.start, { h with
            pc := goto_pc _ _ _
            place := trivial
            expect := fun _ => by rw [hd]; rfl
            buf := by simp [hd]
            buffered := by simp [hd]
            mem := hfilled.trans (by simp [Job.prepared, hd, prepareMem_none]) }⟩
      | some d =>
          cases hdma : cfg.usesDma with
          | true =>
              simp only [afterFlags, h.version, hdma, if_true]
              exact ⟨.dmaPrepare d, { h with
                pc := goto_pc _ _ _
                place := ⟨hd, hdma⟩
                expect := fun _ => by rw [hd]; rfl }⟩
          | false =>
              simp only [afterFlags, h.version, hdma]
              refine ⟨.start, { h with
                pc := goto_pc _ _ _
                place := trivial
                expect := fun _ => by rw [hd]; rfl
                buf := fun _ _ hn => Bool.noConfusion hn
                buffered := ?_
                mem := hfilled.trans (by simp [Job.prepared, prepareMem_noDma hdma]) }⟩
              intro _ d' hd'
              have htrans : s.datPkg.buf = transferBuf cfg d' := by
                simp [hbuf d' hd', transferBuf, hdma]
              have hb : Buffered cfg d' s.hc.ringBuf s.datPkg.buf :=
                ⟨by simpa [hdma] using htrans, fun _ => htrans⟩
              exact hb
  | v2 =>
      have hq : afterFlags cfg (s.cmds j.num) = .start := by
        simp [afterFlags, h.version]
      simp only [issueStep, hq]
      exact ⟨.start, { h with
        pc := goto_pc _ _ _
        place := trivial
        expect := fun _ => by simp [hcmd]; rfl }⟩

/-- The transfer is started. -/
theorem Issuing.start {v : Version} (h : Issuing cfg v .start j s) :
    Started cfg dev j (startStep cfg j.num true s) := by
  obtain ⟨e, hcmd⟩ := h.cmd
  have hbufs : ∀ d ∈ j.cmd.data, Buffered cfg d s.hc.ringBuf s.datPkg.buf := by
    cases v <;> exact h.buffered rfl
  have hmem : s.mem = j.prepared cfg := by
    cases v <;> exact h.mem
  have hcur : s.curcmd = some j.num := by
    cases v <;> exact h.curcmd rfl
  have hdto : s.dtoRcvd = false := by
    cases v <;> exact h.dtoRcvd rfl
  have hdone : s.cmdDone = false := by
    cases v <;> exact h.cmdDone rfl
  have hpend : s.reqPending = true := by
    cases v <;> exact h.pending rfl
  have hexp : s.expectData = j.cmd.data.isSome := by
    cases v <;> exact h.expect rfl
  have hsink : ∀ data, data = j.cmd.data →
      (data.bind fun d => if d.write then none
        else some ((if cfg.usesDma then s.hc.ringBuf else s.datPkg.buf), d.len)) =
      transferSink cfg j.cmd.data := by
    rintro data rfl
    unfold transferSink
    cases hd : j.cmd.data with
    | none => rfl
    | some d => rw [Option.bind_some, Option.bind_some, (hbufs d hd).target]
  have hneed : cfg.version = .v1 → s.cardNeedInit = false := by
    intro hv
    rw [h.version] at hv
    subst hv
    exact h.needInit rfl
  have hpkg : cfg.version = .v1 → s.cmdPkg = j.pkg cfg := by
    intro hv
    rw [h.version] at hv
    subst hv
    exact h.pkg rfl rfl
  have hno : ¬ (j.cmd.data.isSome && !j.cmd.data.isSome) = true := by
    rw [Bool.and_not_self]
    exact Bool.noConfusion
  simp only [startStep, if_true, hcmd]
  exact { h with
    pc := by rw [goto_pc]; rfl
    curcmd := hcur
    pending := hpend
    expect := hexp
    cmdDone := hdone
    dtoRcvd := by simp [SdifState.goto, hdto]
    owed := Or.inl rfl
    dataOwed := id
    needInit := hneed
    pkg := hpkg
    resp := fun hn => Bool.noConfusion hn
    buf := fun hr d hd => (hbufs d hd).source hr
    sink := hsink _ rfl
    mem := hmem.trans (if_neg hno).symm }

theorem Issuing.call {v : Version} {p : IssuePc} (h : Issuing cfg v p j s)
    (hsup : supported cfg j.cmd = true) :
    (∃ q, Issuing cfg v q j (issueStep cfg j.num true s p)) ∨
      Started cfg dev j (issueStep cfg j.num true s p) := by
  have hplace := h.place
  obtain ⟨e, hcmd⟩ := h.cmd
  cases p with
  | setReq => exact hplace.elim
  | setCurcmd =>
      left
      cases v <;> exact ⟨.setError, { h with
        pc := goto_pc _ _ _
        curcmd := fun _ => rfl }⟩
  | setError => 
      left
      have hcmd' : ∃ e, ((s.setErr j.num .none).goto j.num (.issue .package)).cmds j.num =
          { j.cmd with error := e } :=
        ⟨.none, by simp [SdifState.setErr, SdifState.goto, hcmd]⟩
      cases v <;> exact ⟨.package, { h with
        cmd := hcmd'
        pc := goto_pc _ _ _ }⟩
  | clrDto => 
      left
      cases v <;> exact ⟨.clrCmdDone, { h with
        pc := goto_pc _ _ _
        dtoRcvd := fun _ => rfl }⟩
  | clrCmdDone => 
      left
      cases v <;> exact ⟨.setPending, { h with
        pc := goto_pc _ _ _
        cmdDone := fun _ => rfl }⟩
  | setPending => 
      left
      cases v <;> exact ⟨.setExpect, { h with
        pc := goto_pc _ _ _
        pending := fun _ => rfl }⟩
  | package => exact Or.inl (h.package hsup)
  | dmaPrepare d => exact Or.inl (h.dmaPrepare hsup)
  | command => exact Or.inl (h.command hsup)
  | setExpect => exact Or.inl h.setExpect
  | start => exact Or.inr h.start
  | arm => exact hplace.elim

/-! ## The reports of the controller -/

/-- The controller library of v1 reads the response registers of a command that
has ended. -/
def ResponsesRead (cfg : SdifConfig) : Prop :=
  cfg.version = .v1 → ∀ pkg regs, (cfg.getCmdResponse pkg regs).isSome = true

theorem response_v1 (hlib : ResponsesRead cfg) (hv : cfg.version = .v1) :
    cfg.getCmdResponse (j.pkg cfg) (dev.resp j.num) = some (j.response cfg dev) := by
  obtain ⟨r, hr⟩ := Option.isSome_iff_exists.mp (hlib hv (j.pkg cfg) (dev.resp j.num))
  rw [Job.response, hv, hr]
  rfl

/-- The copy back is the last stretch of the way of the data. -/
theorem copyBack_delivered (hexp : s.expectData = j.cmd.data.isSome)
    (hbuf : cfg.rtems = true → ∀ d ∈ j.cmd.data, s.datPkg.buf = transferBuf cfg d)
    (hmem : s.mem = j.received cfg dev) :
    copyBack cfg s j.cmd.data = some (j.delivered cfg dev) := by
  rw [Job.delivered, ← hmem]
  unfold copyBack deliverMem
  cases hd : j.cmd.data with
  | none => simp [hexp, hd]
  | some d =>
      cases hr : cfg.rtems with
      | true => simp [hexp, hd, hbuf hr d hd]
      | false => simp

/-- **The end of a request**: `sdif_finish_command` leaves the driver idle, with
the reply of the service. -/
theorem finishCommand_idle (h : Pending j s) (hreq : s.req = some j.num)
    (hpend : s.reqPending = true) (hresp : commandResponse cfg s = some (j.response cfg dev))
    (hcopy : copyBack cfg s j.cmd.data = some (j.delivered cfg dev))
    (hcmdOwed : s.hc.cmdOwed = false) (hdataOwed : s.hc.dataOwed = false)
    (hneed : cfg.version = .v1 → s.cardNeedInit = false) :
    Idle cfg (j.after cfg dev) (finishCommand cfg s) := by
  obtain ⟨e, hcmd⟩ := h.cmd
  simp only [finishCommand, hreq, hpend, if_true, hcmd, hresp, hcopy]
  exact {
    req := rfl
    curcmd := rfl
    pending := rfl
    cmdOwed := hcmdOwed
    dataOwed := hdataOwed
    useHold := h.useHold
    errSeen := h.errSeen
    panicked := h.panicked
    needInit := hneed
    mem := rfl
    log := by
      simp only [SdifState.callDone, retire, SdifState.buffer, Function.update_self, hcmd, h.log,
        h.errSeen, Job.after, Job.reply]
      rfl }

theorem commandDone_finish {resp : Resp} (h : (!s.expectData || s.dtoRcvd) = true) :
    commandDone cfg resp s = finishCommand cfg (noteCommandDone cfg resp s) := if_pos h

theorem commandDone_note {resp : Resp} (h : (!s.expectData || s.dtoRcvd) = false) :
    commandDone cfg resp s = noteCommandDone cfg resp s :=
  if_neg (by rw [h]; exact Bool.noConfusion)

theorem dataDone_finish {bytes : List (BitVec 8)} (hptr : dmaDoneOk cfg s s.curcmd = true)
    (h : s.cmdDone = true) :
    dataDone cfg bytes s = finishCommand cfg (noteDataDone bytes s) := by
  simp [dataDone, hptr, h]

theorem dataDone_note {bytes : List (BitVec 8)} (hptr : dmaDoneOk cfg s s.curcmd = true)
    (h : s.cmdDone = false) : dataDone cfg bytes s = noteDataDone bytes s := by
  simp [dataDone, hptr, h]

theorem finishCommand_none (h : s.req = none) :
    finishCommand cfg s = { s with reqPending := false } := by
  simp [finishCommand, h]

/-- **`CMD_DONE` of the internal CMD23** clears `req_pending`, and that is
all. -/
theorem Waiting.reportCommand {p : CallPc} {resp : Resp} (h : Waiting cfg p j s)
    (howed : s.hc.cmdOwed = true) : Waiting cfg p j (commandDone cfg resp s) := by
  have hp := h.cmdOwed howed
  subst hp
  have hyes : (!s.expectData || s.dtoRcvd) = true := by
    simp [h.expect rfl]
  rw [commandDone_finish hyes, finishCommand_none (s := noteCommandDone cfg resp s) h.req]
  exact { h with
    pending := rfl
    cmdOwed := fun hn => Bool.noConfusion hn }

/-- **`CMD_DONE` of a request**: the request is done if the controller owes
nothing more. -/
theorem Started.reportCommand (h : Started cfg dev j s) (hlib : ResponsesRead cfg) :
    if s.hc.dataOwed then Started cfg dev j (commandDone cfg (dev.resp j.num) s)
    else Idle cfg (j.after cfg dev) (commandDone cfg (dev.resp j.num) s) := by
  have hresp : commandResponse cfg (noteCommandDone cfg (dev.resp j.num) s) =
      some (j.response cfg dev) := by
    unfold commandResponse noteCommandDone
    cases hv : cfg.version with
    | v1 => simp only [h.pkg hv, response_v1 hlib hv]
    | v2 => simp only [Job.response, hv]
  have hnote : Pending j (noteCommandDone cfg (dev.resp j.num) s) := { h.toPending with }
  split
  · rename_i hdata
    have hno : (!s.expectData || s.dtoRcvd) = false := by
      simp [h.expect, h.dtoRcvd, hdata, h.dataOwed hdata]
    rw [commandDone_note hno]
    exact { h, hnote with
      cmdDone := rfl
      owed := Or.inr hdata
      pkg := fun hv => by simp only [noteCommandDone, hv, h.pkg hv]
      resp := fun _ => hresp }
  · rename_i hdata
    rw [Bool.not_eq_true] at hdata
    have hyes : (!s.expectData || s.dtoRcvd) = true := by
      rw [h.expect, h.dtoRcvd, hdata]
      cases j.cmd.data <;> rfl
    have hmem : s.mem = j.received cfg dev := by
      rw [h.mem, hdata]
      cases hd : j.cmd.data with
      | none => simp [Job.received, receiveMem, transferSink, hd]
      | some d => simp
    rw [commandDone_finish hyes]
    exact finishCommand_idle hnote h.req h.pending hresp (copyBack_delivered h.expect h.buf hmem)
      rfl hdata h.needInit

/-- **`DATA_DONE` of a request**: the request is done if the controller owes
nothing more. -/
theorem Started.reportData (h : Started cfg dev j s) (hdata : s.hc.dataOwed = true) :
    if s.hc.cmdOwed then Started cfg dev j (dataDone cfg (dev.data j.num) s)
    else Idle cfg (j.after cfg dev) (dataDone cfg (dev.data j.num) s) := by
  obtain ⟨e, hcmd⟩ := h.cmd
  have hsome := h.dataOwed hdata
  have hptr : dmaDoneOk cfg s s.curcmd = true := by
    simp [dmaDoneOk, h.curcmd, hcmd, hsome]
  have hnote : Pending j (noteDataDone (dev.data j.num) s) := { h.toPending with }
  have hmem : storeData (dev.data j.num) s = j.received cfg dev := by
    have hprep : s.mem = j.prepared cfg := by simp [h.mem, hdata]
    rw [storeData, h.sink, hprep, Job.received]
    unfold receiveMem
    cases transferSink cfg j.cmd.data <;> rfl
  split
  · rename_i howed
    rw [dataDone_note hptr (by simp [h.cmdDone, howed])]
    exact { h, hnote with
      dtoRcvd := by simp [noteDataDone, hsome]
      owed := Or.inl howed
      dataOwed := fun hn => Bool.noConfusion hn
      mem := hmem.trans (by simp [noteDataDone, hsome]) }
  · rename_i howed
    rw [Bool.not_eq_true] at howed
    rw [dataDone_finish hptr (by simp [h.cmdDone, howed])]
    exact finishCommand_idle hnote h.req h.pending (h.resp howed)
      (copyBack_delivered h.expect h.buf hmem) howed rfl h.needInit

/-! ## The stages -/

theorem Stage.frame (h : Stage cfg dev j s) (ht : SameService s t)
    (hpc : t.pc j.num = s.pc j.num) : Stage cfg dev j t := by
  rcases h with hw | hi | hst
  · exact .waiting (hw.frame ht hpc)
  · exact .issuing (hi.frame ht hpc)
  · refine .started (hst.frame ht ?_)
    rw [hpc]
    exact hst.pc

/-- **A step of the request under way** takes it from stage to stage. -/
theorem Stage.call (h : Stage cfg dev j s) (hsup : supported cfg j.cmd = true)
    (hs : callStep cfg j.num true s = some s') : Stage cfg dev j s' := by
  rcases h with hw | hi | hst
  · rcases hw.call hsup hs with ⟨q, hq⟩ | hi
    · exact .waiting hq
    · exact .issuing hi
  · simp only [callStep, hi.pc, Option.some.injEq] at hs
    subst hs
    rcases hi.call hsup with ⟨q, hq⟩ | hst
    · exact .issuing hq
    · exact .started hst
  · obtain ⟨hsame, hpc, -⟩ := callStep_started hst.pc hs
    exact .started (hst.frame hsame hpc)

/-- **`CMD_DONE`** ends the internal CMD23, or is a report on the request. -/
theorem Stage.reportCommand {resp : Resp} (h : Stage cfg dev j s) (hlib : ResponsesRead cfg)
    (hok : faultFree cfg dev s (.cmdDone resp)) :
    Stage cfg dev j (commandDone cfg resp s) ∨
      (s.pc j.num).started = true ∧ Idle cfg (j.after cfg dev) (commandDone cfg resp s) := by
  obtain ⟨howed, hresp⟩ := hok
  rcases h with hw | hi | hst
  · exact Or.inl (.waiting (hw.reportCommand howed))
  · exact Bool.noConfusion (hi.cmdOwed.symm.trans howed)
  · rw [hresp j.num hst.req]
    have hrep := hst.reportCommand hlib
    split at hrep
    · exact Or.inl (.started hrep)
    · exact Or.inr ⟨hst.pc, hrep⟩

/-- **`DATA_DONE`** is a report on the request. -/
theorem Stage.reportData {bytes : List (BitVec 8)} (h : Stage cfg dev j s)
    (hok : faultFree cfg dev s (.dataDone bytes)) :
    Stage cfg dev j (dataDone cfg bytes s) ∨
      (s.pc j.num).started = true ∧ Idle cfg (j.after cfg dev) (dataDone cfg bytes s) := by
  obtain ⟨howed, hbytes⟩ := hok
  rcases h with hw | hi | hst
  · exact Bool.noConfusion (hw.dataOwed.symm.trans howed)
  · exact Bool.noConfusion (hi.dataOwed.symm.trans howed)
  · rw [hbytes j.num hst.req]
    have hrep := hst.reportData howed
    split at hrep
    · exact Or.inl (.started hrep)
    · exact Or.inr ⟨hst.pc, hrep⟩

/-- A request under way has not been done. -/
theorem Stage.log (h : Stage cfg dev j s) : s.doneLog = j.before.log := by
  rcases h with hw | hi | hst
  · exact hw.log
  · exact hi.log
  · exact hst.log

/-- A new request, between requests. -/
theorem Idle.submit {cmd : MmcCommand} {bytes : List (BitVec 8)} (h : Idle cfg σ s)
    (hnum : σ.log.length = s.submitted) :
    Stage cfg dev ⟨σ, cmd, bytes⟩ (submit cfg cmd bytes s) := by
  refine .waiting (p := entry cfg) { h with
    cmd := ⟨cmd.error, ?_⟩
    pc := ?_
    place := ?_
    pending := ?_
    expect := ?_
    cmdOwed := fun hn => Bool.noConfusion (h.cmdOwed.symm.trans hn)
    mem := congrArg (fillBuffer cmd.data bytes) h.mem }
  · simp [Sdif.submit, Job.num, hnum]
  · simp [Sdif.submit, Job.num, hnum]
  · unfold entry
    cases hv : cfg.version <;> simp [CallPc.waits, hv]
  · have hpend : (Sdif.submit cfg cmd bytes s).reqPending = false := h.pending
    rw [hpend]
    unfold entry
    split <;> rfl
  · unfold entry
    split <;> exact fun hn => Bool.noConfusion hn

/-! ## Runs -/

section Runs

variable (hσ : σ.log = []) (h : ServiceInv cfg dev σ s)

include hσ

/-- The number of the request under way. -/
theorem Job.num_prior {prior : List (MmcCommand × List (BitVec 8))} {cmd : MmcCommand}
    {bytes : List (BitVec 8)} : (Job.mk (serve cfg dev σ prior) cmd bytes).num = prior.length := by
  rw [Job.num, serve_length, hσ, List.length_nil, Nat.zero_add]

include h

/-- A call behind the start, or the one under way. -/
theorem ServiceInv.position {k : ℕ} (hk : k < s.submitted) :
    (s.pc k).started = true ∨
      ∃ prior cmd bytes, s.subs = prior ++ [(cmd, bytes)] ∧ supported cfg cmd = true ∧
        k = (Job.mk (serve cfg dev σ prior) cmd bytes).num ∧
        Stage cfg dev ⟨serve cfg dev σ prior, cmd, bytes⟩ s := by
  rcases h.stage with ⟨-, hall⟩ | ⟨prior, cmd, bytes, hsubs, hsup, hstage⟩
  · exact Or.inl (hall k hk)
  · have hlen : s.submitted = prior.length + 1 := by
      simp [SdifState.submitted, hsubs]
    by_cases hlast : k = prior.length
    · right
      refine ⟨prior, cmd, bytes, hsubs, hsup, ?_, hstage⟩
      rw [hlast, Job.num_prior hσ]
    · left
      apply h.before
      omega

/-- The next request comes when the driver is idle. -/
theorem ServiceInv.idle_of_submit {cmd : MmcCommand} {bytes : List (BitVec 8)}
    (hok : faultFree cfg dev s (.submit cmd bytes)) :
    Idle cfg (serve cfg dev σ s.subs) s ∧ ∀ k < s.submitted, (s.pc k).started = true := by
  rcases h.stage with hidle | ⟨prior, cmd', bytes', hsubs, -, hstage⟩
  · exact hidle
  · -- the last request has not been done
    have hsub : s.submitted = prior.length + 1 := by
      simp [SdifState.submitted, hsubs]
    have hreqs : s.doneReqs = List.range prior.length := by
      rw [SdifState.doneReqs, hstage.log, serve_reqs hσ]
    rcases hok.2 with hn | hn
    · simp [hsub] at hn
    · simp [hsub, hreqs] at hn

theorem ServiceInv.submit {cmd : MmcCommand} {bytes : List (BitVec 8)}
    (hok : faultFree cfg dev s (.submit cmd bytes)) :
    ServiceInv cfg dev σ (submit cfg cmd bytes s) := by
  obtain ⟨hidle, hall⟩ := h.idle_of_submit hσ hok
  have hnum : (serve cfg dev σ s.subs).log.length = s.submitted := by
    rw [serve_length, hσ, List.length_nil, Nat.zero_add, SdifState.submitted]
  refine ⟨h.calls.submit, ?_, ?_,
    Or.inr ⟨s.subs, cmd, bytes, rfl, hok.1, hidle.submit hnum⟩⟩
  · intro k hk
    have hheld := h.held k hk
    have hne : k ≠ s.submitted := by
      rintro rfl
      rw [h.calls.unborn _ le_rfl] at hheld
      exact Bool.noConfusion hheld
    rwa [submit_pc, if_neg hne]
  · intro k hk
    have hk' : k < s.submitted := by
      simpa [Sdif.submit, SdifState.submitted] using hk
    rw [submit_pc, if_neg (Nat.ne_of_lt hk')]
    exact hall k hk'

omit hσ h in
/-- Past `SDIF_LOCK` the call has the lock. -/
theorem callStep_locks {k : ℕ} {ok : Bool} (hs : callStep cfg k ok s = some s')
    (hl : (s.pc k).locking = true) (hv : s.pc k = .lock → cfg.version = .v1) :
    (s'.pc k).locked cfg.version = true := by
  unfold CallPc.locking at hl
  split at hl <;> rename_i hpc
  · simp only [callStep, hpc] at hs
    obtain ⟨-, ht⟩ := Option.ite_none_right_eq_some.mp hs
    cases ht
    rw [goto_pc, hv hpc]
    rfl
  · simp only [callStep, hpc] at hs
    obtain ⟨-, ht⟩ := Option.ite_none_right_eq_some.mp hs
    cases ht
    rw [goto_pc]
    rfl
  · simp only [callStep, hpc] at hs
    obtain ⟨-, ht⟩ := Option.ite_none_right_eq_some.mp hs
    cases ht
    rw [goto_pc]
    rfl
  · cases hl

/-- The lock stays with a call that is between `SDIF_LOCK` and
`SDIF_UNLOCK`. -/
theorem ServiceInv.held_call {k : ℕ} {ok : Bool} (hs : callStep cfg k ok s = some s') :
    ∀ i, s'.lock = some i → (s'.pc i).locked cfg.version = true := by
  have hstep := callStep_spec hs
  intro i hi
  rcases hstep.lock with ⟨-, hlock, hpc⟩ | ⟨hl, -, hlock⟩ | ⟨-, hlock, -⟩
  · rw [hlock] at hi
    by_cases hik : i = k
    · subst hik
      rw [hpc]
      exact h.held i hi
    · rw [hstep.others i hik]
      exact h.held i hi
  · rw [hlock, Option.some.injEq] at hi
    subst hi
    refine callStep_locks hs hl ?_
    intro hpc
    -- only v1 has a call at its first `SDIF_LOCK`
    rcases h.position hσ (h.calls.born hstep.entered) with
      hst | ⟨prior, cmd, bytes, -, -, hk, hstage⟩
    · rw [hpc] at hst
      cases hst
    · rw [hk] at hpc
      rcases hstage with hw | hi | hst
      · have hplace := hw.place
        rw [← hw.pc, hpc] at hplace
        simpa [CallPc.waits] using hplace
      · exact CallPc.noConfusion (hpc.symm.trans hi.pc)
      · have hstarted := hst.pc
        rw [hpc] at hstarted
        cases hstarted
  · rw [hlock] at hi
    cases hi

theorem ServiceInv.call {k : ℕ} {ok : Bool} (hok : faultFree cfg dev s (.call k ok))
    (hs : callStep cfg k ok s = some s') :
    ServiceInv cfg dev σ s' ∧ s'.doneLog = s.doneLog := by
  have hstep := callStep_spec hs
  have hsub : s'.submitted = s.submitted := congrArg List.length hstep.subs
  have hborn := h.calls.born hstep.entered
  have hheld := h.held_call hσ hs
  -- behind the start a call changes nothing of the service
  have hlate : (s.pc k).started = true → SameService s s' ∧ s'.doneLog = s.doneLog ∧
      ∀ i, (s.pc i).started = true → (s'.pc i).started = true := by
    intro hk
    obtain ⟨hsame, hpc, hothers⟩ := callStep_started hk hs
    refine ⟨hsame, ?_, ?_⟩
    · obtain ⟨_, _, _, rfl⟩ := hsame
      rfl
    · intro i hi
      by_cases hik : i = k
      · rw [hik]
        exact hpc
      · rw [hothers i hik]
        exact hi
  rcases h.stage with ⟨hidle, hall⟩ | ⟨prior, cmd, bytes, hsubs, hsup, hstage⟩
  · obtain ⟨hsame, hlog, hpcs⟩ := hlate (hall k hborn)
    refine ⟨⟨h.calls.callStep hstep, hheld, ?_, Or.inl ⟨?_, ?_⟩⟩, hlog⟩
    · intro i hi
      exact hpcs i (h.before i (hsub ▸ hi))
    · rw [hstep.subs]
      exact hidle.frame hsame
    · intro i hi
      exact hpcs i (hall i (hsub ▸ hi))
  · have hnum : (Job.mk (serve cfg dev σ prior) cmd bytes).num = prior.length := Job.num_prior hσ
    have hlen : s.submitted = prior.length + 1 := by
      simp [SdifState.submitted, hsubs]
    by_cases hk : k = prior.length
    · have hnext : Stage cfg dev ⟨serve cfg dev σ prior, cmd, bytes⟩ s' := by
        rw [show ok = true from hok, hk, ← hnum] at hs
        exact hstage.call hsup hs
      refine ⟨⟨h.calls.callStep hstep, hheld, ?_,
        Or.inr ⟨prior, cmd, bytes, hstep.subs.trans hsubs, hsup, hnext⟩⟩,
        hnext.log.trans hstage.log.symm⟩
      intro i hi
      rw [hsub] at hi
      rw [hstep.others i (by omega)]
      exact h.before i hi
    · obtain ⟨hsame, hlog, hpcs⟩ := hlate (h.before k (by omega))
      refine ⟨⟨h.calls.callStep hstep, hheld, fun i hi => hpcs i (h.before i (hsub ▸ hi)),
        Or.inr ⟨prior, cmd, bytes, hstep.subs.trans hsubs, hsup, hstage.frame hsame ?_⟩⟩, hlog⟩
      exact hstep.others _ (by rw [hnum]; exact Ne.symm hk)

/-- A report that takes the stage on or completes the request. -/
theorem ServiceInv.report {c : Option ℕ} {prior : List (MmcCommand × List (BitVec 8))}
    {cmd : MmcCommand} {bytes : List (BitVec 8)} (hd : DoneEvent s s' c)
    (hsubs : s.subs = prior ++ [(cmd, bytes)]) (hsup : supported cfg cmd = true)
    (hstage : Stage cfg dev ⟨serve cfg dev σ prior, cmd, bytes⟩ s' ∨
      (s.pc (Job.mk (serve cfg dev σ prior) cmd bytes).num).started = true ∧
        Idle cfg ((Job.mk (serve cfg dev σ prior) cmd bytes).after cfg dev) s') :
    ServiceInv cfg dev σ s' := by
  have hsub : s'.submitted = s.submitted := congrArg List.length hd.subs
  have hlen : s.submitted = prior.length + 1 := by
    simp [SdifState.submitted, hsubs]
  have hheld : ∀ k, s'.lock = some k → (s'.pc k).locked cfg.version = true := by
    rw [hd.lock, hd.pc]
    exact h.held
  have hbefore : ∀ k, k + 1 < s.submitted → (s'.pc k).started = true := by
    rw [hd.pc]
    exact h.before
  refine ⟨h.calls.doneEvent hd, hheld, fun k hk => hbefore k (hsub ▸ hk), ?_⟩
  rcases hstage with hstage | ⟨hstarted, hidle⟩
  · exact Or.inr ⟨prior, cmd, bytes, hd.subs.trans hsubs, hsup, hstage⟩
  · refine Or.inl ⟨?_, ?_⟩
    · rw [hd.subs, hsubs, serve_snoc]
      exact hidle
    · intro k hk
      rw [Job.num_prior hσ] at hstarted
      rw [hd.pc]
      by_cases hk' : k = prior.length
      · rw [hk']
        exact hstarted
      · exact h.before k (by omega)

theorem eventStep_serviceInv {e : SdifEvent} (hlib : ResponsesRead cfg)
    (hok : faultFree cfg dev s e) (hs : eventStep cfg s e = some s') :
    ServiceInv cfg dev σ s' := by
  cases e with
  | submit cmd bytes =>
      cases hs
      exact h.submit hσ hok
  | call k ok => exact (h.call hσ hok hs).1
  | cmdDone resp =>
      cases hs
      rcases h.stage with ⟨hidle, -⟩ | ⟨prior, cmd, bytes, hsubs, hsup, hstage⟩
      · exact Bool.noConfusion (hidle.cmdOwed.symm.trans hok.1)
      · exact h.report hσ (commandDone_spec resp s) hsubs hsup (hstage.reportCommand hlib hok)
  | dataDone bytes =>
      cases hs
      rcases h.stage with ⟨hidle, -⟩ | ⟨prior, cmd, bytes', hsubs, hsup, hstage⟩
      · exact Bool.noConfusion (hidle.dataOwed.symm.trans hok.1)
      · exact h.report hσ (dataDone_spec bytes s) hsubs hsup (hstage.reportData hok)
  | errOccure => exact hok.elim
  | expire => exact hok.elim
  | timeout => exact hok.elim
  | updateIos powerUp useHold => exact hok.elim

end Runs

theorem AtRest.serviceInv (h : AtRest s) : ServiceInv cfg dev (serviceFrom s) s := by
  have hnone : s.submitted = 0 := by
    rw [SdifState.submitted, h.subs, List.length_nil]
  refine ⟨⟨fun k _ => h.pc k, ?_, ?_⟩, ?_, ?_,
    Or.inl ⟨?_, ?_⟩⟩
  · intro r hr
    rw [h.req] at hr
    cases hr
  · intro k hk
    rw [h.pc k] at hk
    cases hk
  · intro k hk
    rw [h.lock] at hk
    cases hk
  · intro k hk
    rw [hnone] at hk
    cases hk
  · rw [h.subs]
    exact { h with
      useHold := rfl
      needInit := fun _ => rfl
      mem := rfl
      log := h.doneLog }
  · intro k hk
    rw [hnone] at hk
    cases hk

theorem service_reachable_inv {s₀ : SdifState} (hlib : ResponsesRead cfg) (h₀ : AtRest s₀)
    (h : (serviceSystem cfg dev s₀).Reachable s) : ServiceInv cfg dev (serviceFrom s₀) s := by
  apply h.invariant
  · rintro s rfl
    exact h₀.serviceInv
  · intro s e s' hi hstep
    obtain ⟨hok, hstep⟩ := System.restrict_step.mp hstep
    exact eventStep_serviceInv rfl hi hlib hok (sdifStep_iff.mp hstep).2

end Phytium.Sdif
