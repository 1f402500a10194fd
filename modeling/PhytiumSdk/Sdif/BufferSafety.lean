import PhytiumSdk.Sdif.AtLeastOnce
import PhytiumSdk.Sdif.BounceBuffer
import PhytiumSdk.Sdif.CommandTrace
import PhytiumSdk.Sdif.ServiceRuns

/-!
# SDIF: whose memory is written

A client may use its buffer for something else as soon as it has its answer. The
driver writes memory where it fills the aligned buffer and where it copies back
from it, and the controller writes for it until `DATA_DONE`. All of this has to
hit the aligned buffer, or the buffer of a request that is not over and that
reads.

Calls, resets, failures and errors come as they like. Of the controller it is
asked that it reports what it owes and nothing else, and that it does not owe the
`CMD_DONE` of a CMD23 any more when a request is issued: a request is completed
by that one before its transfer has begun, and the transfer goes to a buffer that
has been given back.
-/

namespace Phytium.Sdif

open Lib

variable {cfg : SdifConfig} {s s' t : SdifState} {k j : ℕ} {d : MmcData}

/-! ## Where may be written -/

/-- The address is one of the `n` from `a` on. -/
def Inside (a n x : ℕ) : Prop := a ≤ x ∧ x < a + n

/-- The address is in the aligned buffer. -/
def Aligned (cfg : SdifConfig) (x : ℕ) : Prop :=
  cfg.rtems = true ∧ Inside cfg.alignedDmaBuf cfg.alignedDmaBufLen x

/-- The address is in the buffer of a request that reads and is not over. -/
def Lent (s : SdifState) (x : ℕ) : Prop :=
  ∃ k < s.submitted, ¬ Over s k ∧ ∃ d ∈ (s.cmds k).data,
    (d.read = true ∨ d.write = false) ∧ Inside d.data d.len x

/-- The controller reports what it owes, and has nothing to report any more when
a request is issued. -/
def timely (s : SdifState) : SdifEvent → Prop
  | .call k _ => s.pc k = .issue .setReq → s.hc.cmdOwed = false
  | .cmdDone _ => s.hc.cmdOwed = true
  | .dataDone _ => s.hc.dataOwed = true
  | _ => True

instance (s : SdifState) : (e : SdifEvent) → Decidable (timely s e)
  | .call k _ => inferInstanceAs (Decidable (s.pc k = .issue .setReq → s.hc.cmdOwed = false))
  | .cmdDone _ => inferInstanceAs (Decidable (s.hc.cmdOwed = true))
  | .dataDone _ => inferInstanceAs (Decidable (s.hc.dataOwed = true))
  | .submit _ _ | .errOccure | .expire | .timeout | .updateIos _ _ => isTrue trivial

/-- What is written lies in the bytes that are written. -/
theorem inside_of_writeMem {m : Mem} {a n x : ℕ} {bs : List (BitVec 8)} (hlen : bs.length ≤ n)
    (hx : writeMem m a bs x ≠ m x) : Inside a n x := by
  by_contra hn
  refine hx (writeMem_outside m fun ha => ?_)
  by_contra hlt
  exact hn ⟨ha, by omega⟩

theorem copyMem_inside {buf x : ℕ} {m : Mem} (hx : copyMem d buf m x ≠ m x) :
    d.read = true ∧ Inside d.data d.len x := by
  unfold copyMem at hx
  split at hx <;> rename_i hcopy
  · rw [Bool.and_eq_true] at hcopy
    exact ⟨hcopy.1, inside_of_writeMem (le_of_eq (length_readMem ..)) hx⟩
  · exact absurd rfl hx

/-- The aligned buffer is not overrun. -/
theorem bounceMem_inside {x : ℕ} {m : Mem} (hr : cfg.rtems = true)
    (hlong : ¬ (d.data % cfg.dmaBufAligment ≠ 0 ∧ cfg.alignedDmaBufLen < d.len))
    (hx : bounceMem cfg d m x ≠ m x) : Aligned cfg x := by
  unfold bounceMem at hx
  split at hx <;> rename_i ha
  · exact absurd rfl hx
  · have hlen : d.len ≤ cfg.alignedDmaBufLen := Nat.le_of_not_lt fun hlt => hlong ⟨ha, hlt⟩
    refine ⟨hr, ?_⟩
    split at hx
    · exact inside_of_writeMem ((length_readMem ..).trans_le hlen) hx
    · exact inside_of_writeMem (List.length_replicate.trans_le hlen) hx

/-! ## The buffer of a transfer -/

/-- The transfer may use this address: the client's, or that of the aligned
buffer, which is long enough. -/
def Target (cfg : SdifConfig) (d : MmcData) (a : ℕ) : Prop :=
  a = d.data ∨ cfg.rtems = true ∧ a = cfg.alignedDmaBuf ∧ d.len ≤ cfg.alignedDmaBufLen

/-- What the controller may store goes to the buffer of a transfer that reads. -/
def SinkFits (cfg : SdifConfig) (d : MmcData) (sink : Option (ℕ × ℕ)) : Prop :=
  ∀ a n, sink = some (a, n) → Target cfg d a ∧ n = d.len ∧ d.write = false

/-- What holds between the store of `sc->req` and the start of the transfer. -/
structure Prepares (cfg : SdifConfig) (v : Version) (k : ℕ) (p : IssuePc) (s : SdifState) :
    Prop where
  cmdOwed : s.hc.cmdOwed = false
  dataOwed : s.hc.dataOwed = false
  undone : k ∉ s.doneReqs
  place : ∀ d, p = .dmaPrepare d → (s.cmds k).data = some d ∧ cfg.usesDma = true
  dtoRcvd : p.past v .clrDto = true → s.dtoRcvd = false
  cmdDone : p.past v .clrCmdDone = true → s.cmdDone = false
  expect : p.past v .setExpect = true → s.expectData = (s.cmds k).data.isSome
  buf : cfg.usesDma = false → p.past v .package = true →
    ∀ d ∈ (s.cmds k).data, s.datPkg.buf = d.data
  ring : cfg.usesDma = true → p.prepared v = true →
    ∀ d ∈ (s.cmds k).data, Target cfg d s.hc.ringBuf

/-- The request has been started and is not over, and the controller has
something to report. -/
structure InFlight (cfg : SdifConfig) (k : ℕ) (s : SdifState) : Prop where
  unanswered : ¬ Over s k
  started : (s.pc k).started = true
  expect : s.expectData = true
  cmdDone : s.hc.cmdOwed = true → s.cmdDone = false
  dtoRcvd : s.hc.dataOwed = true → s.dtoRcvd = false
  sink : s.hc.dataOwed = true → ∃ d ∈ (s.cmds k).data, SinkFits cfg d s.hc.sink

/-- A report that is to come may lead to a write. -/
def Awaited (s : SdifState) : Prop :=
  s.hc.dataOwed = true ∨ s.hc.cmdOwed = true ∧ s.expectData = true

structure BufferInv (cfg : SdifConfig) (s : SdifState) : Prop where
  count : ∀ k, s.pc k = .blockCount .start → s.expectData = false
  prepares : ∀ k p, s.pc k = .issue p → p ≠ .setReq → p ≠ .arm →
    Prepares cfg cfg.version k p s
  flight : Awaited s → ∃ k, InFlight cfg k s

/-! ## Up to the start -/

theorem bounceBuf_target (h : ¬ (d.data % cfg.dmaBufAligment ≠ 0 ∧ cfg.alignedDmaBufLen < d.len))
    (hr : cfg.rtems = true) : Target cfg d (bounceBuf cfg d) := by
  unfold bounceBuf
  split
  · exact Or.inl rfl
  · rename_i ha
    exact Or.inr ⟨hr, rfl, Nat.le_of_not_lt fun hlt => h ⟨ha, hlt⟩⟩

theorem Prepares.package {v : Version} {q : IssuePc} (h : Prepares cfg v k .package s)
    (hv : cfg.version = v) (hq : (packageStep cfg k s).pc k = .issue q)
    (hpc : s.pc k = .issue .package) : Prepares cfg v k q (packageStep cfg k s) := by
  cases v with
  | v1 =>
      simp only [packageStep, hv] at hq ⊢
      rw [goto_pc, CallPc.issue.injEq] at hq
      subst hq
      refine { h with
        place := fun _ hn => IssuePc.noConfusion hn
        dtoRcvd := fun hn => Bool.noConfusion hn
        buf := ?_
        ring := fun _ hn => Bool.noConfusion hn }
      intro _ _ d hd
      rw [Option.mem_def] at hd
      have hdata : (s.cmds k).data = some d := hd
      simp [SdifState.goto, hdata, prepareData]
  | v2 =>
      have hdma : cfg.usesDma = true := by simp [SdifConfig.usesDma, hv]
      simp only [packageStep, hv] at hq ⊢
      split at hq <;> rename_i hdata
      · rw [goto_pc, CallPc.issue.injEq] at hq
        subst hq
        refine { h with
          place := fun _ hn => IssuePc.noConfusion hn
          buf := fun hn => Bool.noConfusion (hdma.symm.trans hn)
          ring := ?_ }
        intro _ _ d hd
        cases hdata.symm.trans hd
      · split at hq
        · change s.pc k = _ at hq
          rw [hpc, CallPc.issue.injEq] at hq
          subst hq
          exact { h with }
        · rw [goto_pc, CallPc.issue.injEq] at hq
          subst hq
          refine { h with
            place := ?_
            buf := fun hn => Bool.noConfusion (hdma.symm.trans hn)
            ring := fun _ hn => Bool.noConfusion hn }
          intro d hd
          cases hd
          exact ⟨hdata, hdma⟩

theorem Prepares.dmaPrepare {v : Version} {q : IssuePc} {ok : Bool}
    (h : Prepares cfg v k (.dmaPrepare d) s) (hv : cfg.version = v)
    (hpc : s.pc k = .issue (.dmaPrepare d))
    (hq : (dmaPrepareStep cfg k ok d s).pc k = .issue q) :
    Prepares cfg v k q (dmaPrepareStep cfg k ok d s) := by
  obtain ⟨hdata, hdma⟩ := h.place d rfl
  have hpanic : s.panic.pc k = .issue q → Prepares cfg v k q s.panic := by
    intro hn
    change s.pc k = _ at hn
    rw [hpc, CallPc.issue.injEq] at hn
    subst hn
    exact { h with }
  -- the position behind it, with the address that goes into the ring
  have hnext : ∀ {mem : Mem} {pkg : DatPkg} {a : ℕ}, Target cfg d a →
      Prepares cfg v k (afterPrepare cfg)
        ({ s with mem := mem, datPkg := pkg, hc := { s.hc with ringBuf := a } }.goto k
          (.issue (afterPrepare cfg))) := by
    intro mem pkg a ha
    have hring : ∀ e ∈ (s.cmds k).data, Target cfg e a := by
      intro e he
      cases hdata.symm.trans he
      exact ha
    unfold afterPrepare
    rw [hv]
    cases v <;> exact { h with
      place := fun _ hn => IssuePc.noConfusion hn
      buf := fun hn => Bool.noConfusion (hdma.symm.trans hn)
      ring := fun _ _ => hring }
  unfold dmaPrepareStep at hq ⊢
  split at hq <;> rename_i hr
  · rw [if_pos hr]
    split at hq <;> rename_i hlong
    · rw [if_pos hlong]
      exact hpanic hq
    · rw [if_neg hlong]
      cases ok with
      | true =>
          simp only [if_true] at hq ⊢
          rw [goto_pc, CallPc.issue.injEq] at hq
          subst hq
          exact hnext (bounceBuf_target hlong hr)
      | false =>
          simp only [Bool.false_eq_true, if_false] at hq
          rw [SdifState.fail, goto_pc] at hq
          cases hq
  · rw [if_neg hr]
    split at hq <;> rename_i hnull
    · rw [if_pos hnull]
      exact hpanic hq
    · rw [if_neg hnull]
      cases ok with
      | true =>
          simp only [if_true] at hq ⊢
          rw [goto_pc, CallPc.issue.injEq] at hq
          subst hq
          exact hnext (Or.inl rfl)
      | false =>
          simp only [Bool.false_eq_true, if_false] at hq ⊢
          exact hpanic hq

theorem Prepares.command {v : Version} {q : IssuePc} (h : Prepares cfg v k .command s)
    (hpc : s.pc k = .issue .command) (hq : (commandStep cfg k s).pc k = .issue q) :
    Prepares cfg v k q (commandStep cfg k s) := by
  unfold commandStep at hq ⊢
  dsimp only at hq ⊢
  split at hq
  · change s.pc k = _ at hq
    rw [hpc, CallPc.issue.injEq] at hq
    subst hq
    exact { h with }
  · rw [goto_pc, CallPc.issue.injEq] at hq
    subst hq
    cases v <;> exact { h with
      place := fun _ hn => IssuePc.noConfusion hn
      dtoRcvd := fun hn => Bool.noConfusion hn }

theorem Prepares.setExpect {v : Version} {ok : Bool} {q : IssuePc}
    (h : Prepares cfg v k .setExpect s) (hv : cfg.version = v)
    (hq : (issueStep cfg k ok s .setExpect).pc k = .issue q) :
    Prepares cfg v k q (issueStep cfg k ok s .setExpect) := by
  simp only [issueStep] at hq ⊢
  rw [goto_pc, CallPc.issue.injEq] at hq
  subst hq
  cases v with
  | v1 =>
      cases hdata : (s.cmds k).data with
      | none =>
          simp only [afterFlags, hv, hdata]
          exact { h with
            place := fun _ hn => IssuePc.noConfusion hn
            expect := fun _ => (congrArg Option.isSome hdata).symm
            ring := fun _ _ d hd => (Option.some_ne_none d (Eq.trans hd.symm hdata)).elim }
      | some d =>
          cases hdma : cfg.usesDma with
          | true =>
              simp only [afterFlags, hv, hdata, hdma, if_true]
              refine { h with
                place := ?_
                expect := fun _ => (congrArg Option.isSome hdata).symm
                ring := fun _ hn => Bool.noConfusion hn }
              intro e he
              cases he
              exact ⟨hdata, hdma⟩
          | false =>
              simp only [afterFlags, hv, hdata, hdma, Bool.false_eq_true, if_false]
              exact { h with
                place := fun _ hn => IssuePc.noConfusion hn
                expect := fun _ => (congrArg Option.isSome hdata).symm
                ring := fun hn => Bool.noConfusion (hdma.symm.trans hn) }
  | v2 =>
      have hstart : afterFlags cfg (s.cmds k) = .start := by simp [afterFlags, hv]
      rw [hstart]
      exact { h with
        place := fun _ hn => IssuePc.noConfusion hn
        expect := fun _ => rfl }

/-- A step on the way to the start. -/
theorem Prepares.step {p q : IssuePc} {ok : Bool} (h : Prepares cfg cfg.version k p s)
    (hpc : s.pc k = .issue p) (hp : p ≠ .setReq) (hq : (issueStep cfg k ok s p).pc k = .issue q) :
    q = .arm ∨ Prepares cfg cfg.version k q (issueStep cfg k ok s p) := by
  generalize hv : cfg.version = v at h ⊢
  cases p with
  | setReq => exact absurd rfl hp
  | package => exact Or.inr (h.package hv hq hpc)
  | dmaPrepare d => exact Or.inr (h.dmaPrepare hv hpc hq)
  | command => exact Or.inr (h.command hpc hq)
  | setExpect => exact Or.inr (h.setExpect hv hq)
  | setCurcmd =>
      right
      simp only [issueStep] at hq ⊢
      rw [goto_pc, CallPc.issue.injEq] at hq
      subst hq
      cases v <;> exact { h with place := fun _ hn => IssuePc.noConfusion hn }
  | setError =>
      right
      simp only [issueStep] at hq ⊢
      rw [goto_pc, CallPc.issue.injEq] at hq
      subst hq
      cases v <;> exact { h with
        place := fun _ hn => IssuePc.noConfusion hn
        expect := fun hn => Bool.noConfusion hn
        buf := fun _ hn => Bool.noConfusion hn
        ring := fun _ hn => Bool.noConfusion hn }
  | clrDto =>
      right
      simp only [issueStep] at hq ⊢
      rw [goto_pc, CallPc.issue.injEq] at hq
      subst hq
      cases v <;> exact { h with
        place := fun _ hn => IssuePc.noConfusion hn
        dtoRcvd := fun _ => rfl }
  | clrCmdDone =>
      right
      simp only [issueStep] at hq ⊢
      rw [goto_pc, CallPc.issue.injEq] at hq
      subst hq
      cases v <;> exact { h with
        place := fun _ hn => IssuePc.noConfusion hn
        cmdDone := fun _ => rfl }
  | setPending =>
      right
      simp only [issueStep] at hq ⊢
      rw [goto_pc, CallPc.issue.injEq] at hq
      subst hq
      cases v <;> exact { h with place := fun _ hn => IssuePc.noConfusion hn }
  | start =>
      cases ok with
      | true =>
          simp only [issueStep, startStep, if_true] at hq
          rw [goto_pc, CallPc.issue.injEq] at hq
          exact Or.inl hq.symm
      | false =>
          simp only [issueStep, startStep, Bool.false_eq_true, if_false] at hq
          split at hq <;>
            · rw [SdifState.fail, goto_pc] at hq
              cases hq
  | arm =>
      simp only [issueStep] at hq
      rw [goto_pc] at hq
      cases hq

/-! ## One call at work -/

/-- The call has neither handed its command over nor given up. -/
def CallPc.working : CallPc → Bool
  | .new => false
  | .issue .arm => false
  | .unlock _ => false
  | .returned _ => false
  | _ => true

theorem CallPc.working_cases {p : CallPc} (h : p.working = true) :
    p ≠ .new ∧ (p.fresh = true ∨ ∃ i, p = .issue i ∧ i ≠ .setReq ∧ i ≠ .arm) := by
  cases p with
  | issue i =>
      refine ⟨CallPc.noConfusion, ?_⟩
      by_cases hi : i = .setReq
      · rw [hi]
        exact Or.inl rfl
      · refine Or.inr ⟨i, rfl, hi, ?_⟩
        rintro rfl
        cases h
  | new => cases h
  | unlock err => cases h
  | returned err => cases h
  | _ => exact ⟨CallPc.noConfusion, Or.inl rfl⟩

theorem not_over_of_issue {p : IssuePc} (hpc : s.pc k = .issue p) (hno : k ∉ s.doneReqs) :
    ¬ Over s k := by
  rintro (hdone | hfail)
  · exact hno hdone
  · rw [hpc] at hfail
    cases hfail

/-- The request of a call at work is not over. -/
theorem BufferInv.not_over (h : BufferInv cfg s) (hc : ClaimInv s)
    (hk : (s.pc k).working = true) : ¬ Over s k := by
  obtain ⟨-, hfresh | ⟨i, hi, hset, harm⟩⟩ := CallPc.working_cases hk
  · exact not_over_of_fresh (hc.fresh k hfresh) hfresh
  · exact not_over_of_issue hi (h.prepares k i hi hset harm).undone

/-- Only one call is at work. -/
theorem BufferInv.working_eq (h : BufferInv cfg s) (hc : ClaimInv s) (hi : CallInv cfg s)
    (hk : (s.pc k).working = true) (hj : (s.pc j).working = true) : j = k :=
  hc.unique (hi.born (CallPc.working_cases hk).1) (hi.born (CallPc.working_cases hj).1)
    (h.not_over hc hk) (h.not_over hc hj)

theorem CallPc.started_not_working {p : CallPc} (h : p.started = true) : p.working = false := by
  unfold started at h
  split at h
  · rfl
  · rfl
  · rfl
  · cases h

theorem CallPc.started_claimed {p : CallPc} (h : p.started = true) : p.claimed = true := by
  unfold started at h
  split at h
  · rfl
  · rfl
  · rfl
  · cases h

/-- While a call is at work, no report is awaited that may lead to a write. -/
theorem BufferInv.not_awaited (h : BufferInv cfg s) (hc : ClaimInv s) (hi : CallInv cfg s)
    (hk : (s.pc k).working = true) : ¬ Awaited s := by
  intro ha
  obtain ⟨j, hj⟩ := h.flight ha
  have hborn : s.pc j ≠ .new := CallPc.claimed_ne_new (CallPc.started_claimed hj.started)
  have hjk : j = k := hc.unique (hi.born (CallPc.working_cases hk).1) (hi.born hborn)
    (h.not_over hc hk) hj.unanswered
  rw [hjk] at hj
  exact Bool.noConfusion (hk.symm.trans (CallPc.started_not_working hj.started))

/-! ## The steps of a call -/

/-- Nothing more comes to be awaited, and nothing but the aligned buffer is
written. -/
structure Tame (cfg : SdifConfig) (s t : SdifState) : Prop where
  cmdOwed : t.hc.cmdOwed = s.hc.cmdOwed
  dataOwed : t.hc.dataOwed = s.hc.dataOwed
  expect : t.expectData = true → s.expectData = true
  writes : ∀ x, t.mem x ≠ s.mem x → Aligned cfg x

theorem Tame.of_mem (hcmd : t.hc.cmdOwed = s.hc.cmdOwed) (hdata : t.hc.dataOwed = s.hc.dataOwed)
    (hexp : t.expectData = true → s.expectData = true) (hmem : t.mem = s.mem) : Tame cfg s t :=
  ⟨hcmd, hdata, hexp, fun _ hx => absurd (congrFun hmem _) hx⟩

theorem Tame.awaited (h : Tame cfg s t) (ha : Awaited t) : Awaited s := by
  rcases ha with hd | ⟨hc, he⟩
  · exact Or.inl (h.dataOwed ▸ hd)
  · exact Or.inr ⟨h.cmdOwed ▸ hc, h.expect he⟩

theorem packageStep_tame : Tame cfg s (packageStep cfg k s) := by
  unfold packageStep
  dsimp only
  split
  · exact .of_mem rfl rfl id rfl
  · split
    · exact .of_mem rfl rfl id rfl
    · split <;> exact .of_mem rfl rfl id rfl

theorem dmaPrepareStep_tame {ok : Bool} : Tame cfg s (dmaPrepareStep cfg k ok d s) := by
  unfold dmaPrepareStep
  split <;> rename_i hr
  · split <;> rename_i hlong
    · exact .of_mem rfl rfl id rfl
    · dsimp only
      split <;> exact ⟨rfl, rfl, id, fun _ hx => bounceMem_inside hr hlong hx⟩
  · split
    · exact .of_mem rfl rfl id rfl
    · split <;> exact .of_mem rfl rfl id rfl

theorem blockCountStep_tame {p : BlockCountPc} {ok : Bool} (hp : p ≠ .start)
    (hs : blockCountStep cfg k ok s p = some s') : Tame cfg s s' := by
  cases p with
  | start => exact absurd rfl hp
  | lock =>
      obtain ⟨-, ht⟩ := Option.ite_none_right_eq_some.mp hs
      cases ht
      exact .of_mem rfl rfl id rfl
  | package =>
      simp only [blockCountStep] at hs
      split at hs <;>
        · cases hs
          exact .of_mem rfl rfl id rfl
  | setExpect =>
      cases hs
      exact .of_mem rfl rfl (fun hn => Bool.noConfusion hn) rfl
  | poll =>
      simp only [blockCountStep] at hs
      split at hs
      · cases hs
      · split at hs <;>
          · cases hs
            exact .of_mem rfl rfl id rfl
  | exit err =>
      simp only [blockCountStep] at hs
      split at hs <;>
        · cases hs
          exact .of_mem rfl rfl id rfl
  | _ =>
      cases hs
      exact .of_mem rfl rfl id rfl

theorem issueStep_tame {p : IssuePc} {ok : Bool} (hp : p ≠ .setExpect)
    (hstart : p ≠ .start ∨ ok = false) : Tame cfg s (issueStep cfg k ok s p) := by
  cases p with
  | setExpect => exact absurd rfl hp
  | package => exact packageStep_tame
  | dmaPrepare d => exact dmaPrepareStep_tame
  | command =>
      simp only [issueStep, commandStep]
      split <;> exact .of_mem rfl rfl id rfl
  | start =>
      rw [hstart.resolve_left fun hn => hn rfl]
      simp only [issueStep, startStep, Bool.false_eq_true, if_false]
      split <;> exact .of_mem rfl rfl id rfl
  | _ => exact .of_mem rfl rfl id rfl

/-- All steps are tame but those that start a command or set `expect_data`. -/
theorem callStep_tame {ok : Bool} (hs : callStep cfg k ok s = some s') :
    Tame cfg s s' ∨ s.pc k = .blockCount .start ∨ s.pc k = .issue .setExpect ∨
      s.pc k = .issue .start ∧ ok = true := by
  unfold callStep at hs
  split at hs <;> rename_i hpc
  · cases hs
  · obtain ⟨-, ht⟩ := Option.ite_none_right_eq_some.mp hs
    cases ht
    exact Or.inl (.of_mem rfl rfl id rfl)
  · cases hs
    left
    unfold busyStep
    split
    · exact .of_mem rfl rfl id rfl
    · split <;> exact .of_mem rfl rfl id rfl
  · cases hs
    left
    unfold preRequestStep
    split
    · split <;> exact .of_mem rfl rfl id rfl
    · exact .of_mem rfl rfl id rfl
  · rename_i p
    by_cases hp : p = .start
    · rw [hpc, hp]
      exact Or.inr (Or.inl rfl)
    · exact Or.inl (blockCountStep_tame hp hs)
  · cases hs
    left
    unfold filterStep
    split <;> exact .of_mem rfl rfl id rfl
  · obtain ⟨-, ht⟩ := Option.ite_none_right_eq_some.mp hs
    cases ht
    exact Or.inl (.of_mem rfl rfl id rfl)
  · rename_i p
    cases hs
    by_cases hexp : p = .setExpect
    · rw [hpc, hexp]
      exact Or.inr (Or.inr (Or.inl rfl))
    · by_cases hstart : p ≠ .start ∨ ok = false
      · exact Or.inl (issueStep_tame hexp hstart)
      · rw [not_or, not_not, Bool.not_eq_false] at hstart
        rw [hpc, hstart.1]
        exact Or.inr (Or.inr (Or.inr ⟨rfl, hstart.2⟩))
  · cases hs
    exact Or.inl (.of_mem rfl rfl id rfl)
  · cases hs

/-- The transfer has been started, with everything as it has to be. -/
theorem Prepares.inFlight {v : Version} (h : Prepares cfg v k .start s)
    (ha : Awaited (startStep cfg k true s)) : InFlight cfg k (startStep cfg k true s) := by
  have hexp : s.expectData = (s.cmds k).data.isSome := by
    cases v <;> exact h.expect rfl
  have hdone : s.cmdDone = false := by
    cases v <;> exact h.cmdDone rfl
  have hdto : s.dtoRcvd = false := by
    cases v <;> exact h.dtoRcvd rfl
  have htarget : ∀ d ∈ (s.cmds k).data,
      Target cfg d (if cfg.usesDma then s.hc.ringBuf else s.datPkg.buf) := by
    intro d hd
    cases hdma : cfg.usesDma with
    | true =>
        rw [if_pos rfl]
        cases v <;> exact h.ring hdma rfl d hd
    | false =>
        rw [if_neg Bool.false_ne_true]
        cases v <;> exact Or.inl (h.buf hdma rfl d hd)
  simp only [startStep, if_true] at ha ⊢
  have hsome : (s.cmds k).data.isSome = true := by
    rcases ha with hd | ⟨-, he⟩
    · exact hd
    · exact hexp.symm.trans he
  obtain ⟨d, hd⟩ := Option.isSome_iff_exists.mp hsome
  refine ⟨?_, ?_, hexp.trans hsome, fun _ => hdone, fun _ => hdto, ?_⟩
  · exact not_over_of_issue (goto_pc ..) h.undone
  · rw [goto_pc]
    rfl
  · refine fun _ => ⟨d, hd, ?_⟩
    intro a n hsink
    replace hsink : ((s.cmds k).data.bind fun d => if d.write then none
        else some (if cfg.usesDma then s.hc.ringBuf else s.datPkg.buf, d.len)) =
        some (a, n) := hsink
    rw [hd, Option.bind_some] at hsink
    split at hsink <;> rename_i hw
    · cases hsink
    · cases hsink
      exact ⟨htarget d hd, rfl, Bool.eq_false_iff.mpr hw⟩

/-- The store of `sc->req`. -/
theorem BufferInv.setReq (h : BufferInv cfg s) (hc : ClaimInv s) (hi : CallInv cfg s)
    (hpc : s.pc k = .issue .setReq) (howed : s.hc.cmdOwed = false) :
    Prepares cfg cfg.version k .setCurcmd
      ({ s with req := some k }.goto k (.issue .setCurcmd)) := by
  have hwork : (s.pc k).working = true := by
    rw [hpc]
    rfl
  have hfresh : (s.pc k).fresh = true := by
    rw [hpc]
    rfl
  have hdata : s.hc.dataOwed = false :=
    Bool.eq_false_iff.mpr fun hn => h.not_awaited hc hi hwork (Or.inl hn)
  refine ⟨howed, hdata, hc.fresh k hfresh, fun _ hn => IssuePc.noConfusion hn, ?_, ?_, ?_, ?_, ?_⟩
  all_goals
    cases cfg.version
    · intros
      contradiction
    · intros
      contradiction

theorem CallPc.issuing_iff {p : CallPc} :
    p.issuing = true ↔ ∃ i, p = .issue i ∧ i ≠ .setReq := by
  unfold issuing
  split <;> simp_all

theorem BufferInv.callPrepares {ok : Bool} {q : IssuePc} (h : BufferInv cfg s) (hc : ClaimInv s)
    (hi : CallInv cfg s) (hok : timely s (.call k ok)) (hs : callStep cfg k ok s = some s')
    (hq : s'.pc k = .issue q) (hset : q ≠ .setReq) (harm : q ≠ .arm) :
    Prepares cfg cfg.version k q s' := by
  have hissuing := (callStep_spec hs).issuing_of (CallPc.issuing_iff.mpr ⟨q, hq, hset⟩)
  rw [CallPc.issuing_iff] at hissuing
  rcases hissuing with ⟨p, hpc, hp⟩ | hpc
  · rw [callStep, hpc] at hs
    cases hs
    by_cases hparm : p = .arm
    · rw [hparm, issueStep, goto_pc] at hq
      cases hq
    · exact ((h.prepares k p hpc hp hparm).step hpc hp hq).resolve_left harm
  · rw [callStep, hpc] at hs
    cases hs
    rw [issueStep, goto_pc, CallPc.issue.injEq] at hq
    subst hq
    exact h.setReq hc hi hpc (hok hpc)

/-- What is awaited once the call has made its step. -/
theorem BufferInv.callFlight {ok : Bool} (h : BufferInv cfg s) (hc : ClaimInv s)
    (hi : CallInv cfg s) (hwork : (s.pc k).working = true)
    (hs : callStep cfg k ok s = some s') (ha : Awaited s') : ∃ j, InFlight cfg j s' := by
  have hnot := h.not_awaited hc hi hwork
  rcases callStep_tame hs with hmore | hpc | hpc | ⟨hpc, rfl⟩
  · exact absurd (hmore.awaited ha) hnot
  · -- the CMD23 takes no data
    rw [callStep, hpc] at hs
    have hexp := h.count k hpc
    simp only [blockCountStep] at hs
    split at hs <;> cases hs
    · rcases ha with hd | ⟨-, he⟩
      · cases hd
      · exact Bool.noConfusion (hexp.symm.trans he)
    · exact absurd ha hnot
  · have hp := h.prepares k _ hpc IssuePc.noConfusion IssuePc.noConfusion
    rw [callStep, hpc] at hs
    cases hs
    rcases ha with hd | ⟨hcmd, -⟩
    · exact Bool.noConfusion (hp.dataOwed.symm.trans hd)
    · exact Bool.noConfusion (hp.cmdOwed.symm.trans hcmd)
  · have hp := h.prepares k _ hpc IssuePc.noConfusion IssuePc.noConfusion
    rw [callStep, hpc] at hs
    cases hs
    exact ⟨k, hp.inFlight ha⟩

theorem issueStep_not_count {p : IssuePc} {ok : Bool} (hpc : s.pc k = .issue p) :
    (issueStep cfg k ok s p).pc k ≠ .blockCount .start := by
  have hpanic : s.panic.pc k ≠ .blockCount .start := by
    intro hn
    cases hpc.symm.trans hn
  have hgoto : ∀ {t : SdifState} {q : CallPc}, q ≠ .blockCount .start →
      (t.goto k q).pc k ≠ .blockCount .start := by
    intro t q hne
    rwa [goto_pc]
  cases p with
  | package =>
      simp only [issueStep, packageStep]
      split
      · exact hgoto CallPc.noConfusion
      · split
        · exact hgoto CallPc.noConfusion
        · split
          · exact hpanic
          · exact hgoto CallPc.noConfusion
  | dmaPrepare d =>
      simp only [issueStep, dmaPrepareStep]
      split
      · split
        · exact hpanic
        · split <;> exact hgoto CallPc.noConfusion
      · split
        · exact hpanic
        · split
          · exact hgoto CallPc.noConfusion
          · exact hpanic
  | command =>
      simp only [issueStep, commandStep]
      split
      · exact hpanic
      · exact hgoto CallPc.noConfusion
  | start =>
      simp only [issueStep, startStep]
      split
      · exact hgoto CallPc.noConfusion
      · split <;> exact hgoto CallPc.noConfusion
  | _ => exact hgoto CallPc.noConfusion

/-- `expect_data` has been cleared where a CMD23 is about to be started. -/
theorem callStep_count {ok : Bool} (hs : callStep cfg k ok s = some s')
    (hq : s'.pc k = .blockCount .start) : s'.expectData = false := by
  have hgoto : ∀ {t : SdifState} {q : CallPc}, q ≠ .blockCount .start →
      t.goto k q = s' → s'.expectData = false := by
    rintro t q hne rfl
    rw [goto_pc] at hq
    exact absurd hq hne
  unfold callStep at hs
  split at hs <;> rename_i hpc
  · cases hs
  · exact hgoto CallPc.noConfusion (Option.some.inj (Option.ite_none_right_eq_some.mp hs).2)
  · have hs := Option.some.inj hs
    unfold busyStep at hs
    split at hs
    · exact hgoto CallPc.noConfusion hs
    · split at hs <;> exact hgoto CallPc.noConfusion hs
  · have hs := Option.some.inj hs
    unfold preRequestStep at hs
    split at hs
    · split at hs <;> exact hgoto (by simp) hs
    · exact hgoto CallPc.noConfusion hs
  · rename_i p
    cases p with
    | setExpect =>
        cases hs
        rfl
    | lock =>
        exact hgoto (by simp) (Option.some.inj (Option.ite_none_right_eq_some.mp hs).2)
    | package =>
        simp only [blockCountStep] at hs
        split at hs
        · cases hs
          cases hpc.symm.trans hq
        · exact hgoto (by simp) (Option.some.inj hs)
    | start =>
        simp only [blockCountStep] at hs
        split at hs <;> exact hgoto (by simp) (Option.some.inj hs)
    | poll =>
        simp only [blockCountStep] at hs
        split at hs
        · cases hs
        · split at hs <;> exact hgoto (by simp) (Option.some.inj hs)
    | exit err =>
        simp only [blockCountStep] at hs
        split at hs <;> exact hgoto CallPc.noConfusion (Option.some.inj hs)
    | _ => exact hgoto (by simp) (Option.some.inj hs)
  · have hs := Option.some.inj hs
    unfold filterStep at hs
    split at hs <;> exact hgoto CallPc.noConfusion hs
  · exact hgoto CallPc.noConfusion (Option.some.inj (Option.ite_none_right_eq_some.mp hs).2)
  · cases hs
    exact absurd hq (issueStep_not_count hpc)
  · exact hgoto CallPc.noConfusion (Option.some.inj hs)
  · cases hs

theorem CallPc.started_not_failed {p : CallPc} (h : p.started = true) : p.failed = false := by
  unfold started at h
  split at h
  · rfl
  · rfl
  · rfl
  · cases h

/-- What is in flight stays so when nothing of it changes. -/
theorem InFlight.frame (h : InFlight cfg k s) (hdone : t.doneReqs = s.doneReqs)
    (hpc : (t.pc k).started = true) (hhc : t.hc = s.hc) (hcmds : t.cmds = s.cmds)
    (hflags : (t.expectData, t.cmdDone, t.dtoRcvd) = (s.expectData, s.cmdDone, s.dtoRcvd)) :
    InFlight cfg k t := by
  obtain ⟨hexp, hflags⟩ := Prod.mk.inj hflags
  obtain ⟨hcmd, hdto⟩ := Prod.mk.inj hflags
  refine ⟨?_, hpc, hexp.trans h.expect, ?_, ?_, ?_⟩
  · rintro (hd | hf)
    · exact h.unanswered (Or.inl (hdone ▸ hd))
    · exact Bool.noConfusion ((CallPc.started_not_failed hpc).symm.trans hf)
  · rw [hhc, hcmd]
    exact h.cmdDone
  · rw [hhc, hdto]
    exact h.dtoRcvd
  · rw [hhc, hcmds]
    exact h.sink

/-- A call that is at work is the only one. -/
theorem BufferInv.callWorking {ok : Bool} (h : BufferInv cfg s) (hc : ClaimInv s)
    (hi : CallInv cfg s) (hok : timely s (.call k ok)) (hwork : (s.pc k).working = true)
    (hs : callStep cfg k ok s = some s') : BufferInv cfg s' := by
  have hstep := callStep_spec hs
  have hother : ∀ j, j ≠ k → (s'.pc j).working = true → False := by
    intro j hjk hj
    rw [hstep.others j hjk] at hj
    exact hjk (h.working_eq hc hi hwork hj)
  refine ⟨?_, ?_, h.callFlight hc hi hwork hs⟩
  · intro j hj
    by_cases hjk : j = k
    · rw [hjk] at hj
      exact callStep_count hs hj
    · exact (hother j hjk (by rw [hj]; rfl)).elim
  · intro j p hj hset harm
    by_cases hjk : j = k
    · rw [hjk] at hj ⊢
      exact h.callPrepares hc hi hok hs hj hset harm
    · refine (hother j hjk ?_).elim
      rw [hj]
      cases p with
      | arm => exact absurd rfl harm
      | _ => rfl

/-- A step that only moves a call which is not at work. -/
theorem BufferInv.frame (h : BufferInv cfg s) (hdone : t.doneReqs = s.doneReqs)
    (hcount : ∀ j, t.pc j = .blockCount .start → s.pc j = .blockCount .start)
    (hissue : ∀ j p, t.pc j = .issue p → p ≠ .setReq → p ≠ .arm → s.pc j = .issue p)
    (hstarted : ∀ j, (s.pc j).started = true → (t.pc j).started = true)
    (hhc : t.hc = s.hc) (hcmds : t.cmds = s.cmds) (hpkg : t.datPkg = s.datPkg)
    (hflags : (t.expectData, t.cmdDone, t.dtoRcvd) = (s.expectData, s.cmdDone, s.dtoRcvd)) :
    BufferInv cfg t := by
  have hflags' := hflags
  obtain ⟨hexp, hflags'⟩ := Prod.mk.inj hflags'
  obtain ⟨hcmd, hdto⟩ := Prod.mk.inj hflags'
  refine ⟨fun j hj => hexp.trans (h.count j (hcount j hj)), ?_, ?_⟩
  · intro j p hj hset harm
    have hp := h.prepares j p (hissue j p hj hset harm) hset harm
    refine ⟨?_, ?_, ?_, ?_, ?_, ?_, ?_, ?_, ?_⟩
    · rw [hhc]
      exact hp.cmdOwed
    · rw [hhc]
      exact hp.dataOwed
    · rw [hdone]
      exact hp.undone
    · rw [hcmds]
      exact hp.place
    · rw [hdto]
      exact hp.dtoRcvd
    · rw [hcmd]
      exact hp.cmdDone
    · rw [hexp, hcmds]
      exact hp.expect
    · rw [hcmds, hpkg]
      exact hp.buf
    · rw [hcmds, hhc]
      exact hp.ring
  · intro ha
    have hawait : Awaited s := by
      rw [Awaited, hhc, hexp] at ha
      exact ha
    obtain ⟨j, hj⟩ := h.flight hawait
    exact ⟨j, hj.frame hdone (hstarted j hj.started) hhc hcmds hflags⟩

theorem CallPc.not_working_cases {p : CallPc} (h : p.working = false) :
    p = .new ∨ p = .issue .arm ∨ (∃ err, p = .unlock err) ∨ ∃ err, p = .returned err := by
  unfold working at h
  split at h <;> simp_all

theorem BufferInv.callStep {ok : Bool} (h : BufferInv cfg s) (hc : ClaimInv s)
    (hi : CallInv cfg s) (hok : timely s (.call k ok)) (hs : callStep cfg k ok s = some s') :
    BufferInv cfg s' := by
  cases hwork : (s.pc k).working with
  | true => exact h.callWorking hc hi hok hwork hs
  | false =>
      -- the pieces of the frame that are about the call itself
      have hmove : ∀ {t : SdifState} {q : CallPc}, t.pc = s.pc → q ≠ .blockCount .start →
          (∀ p, q ≠ .issue p) → ((s.pc k).started = true → q.started = true) →
          (∀ j, (t.goto k q).pc j = .blockCount .start → s.pc j = .blockCount .start) ∧
          (∀ j p, (t.goto k q).pc j = .issue p → p ≠ .setReq → p ≠ .arm → s.pc j = .issue p) ∧
          ∀ j, (s.pc j).started = true → ((t.goto k q).pc j).started = true := by
        intro t q hp hcount hissue hstarted
        simp only [SdifState.goto, hp, Function.update_apply]
        refine ⟨fun j hj => ?_, fun j p hj _ _ => ?_, fun j hj => ?_⟩
        · split at hj
          · exact absurd hj hcount
          · exact hj
        · split at hj
          · exact absurd hj (hissue p)
          · exact hj
        · split
          · rename_i hjk
            exact hstarted (hjk ▸ hj)
          · exact hj
      rcases CallPc.not_working_cases hwork with hpc | hpc | ⟨err, hpc⟩ | ⟨err, hpc⟩
      · rw [Sdif.callStep, hpc] at hs
        cases hs
      · rw [Sdif.callStep, hpc] at hs
        cases hs
        obtain ⟨hcount, hissue, hstarted⟩ := hmove (t := { s with callout := .armed })
          (q := .unlock none) rfl CallPc.noConfusion (fun _ => CallPc.noConfusion) fun _ => rfl
        exact h.frame rfl hcount hissue hstarted rfl rfl rfl rfl
      · rw [Sdif.callStep, hpc] at hs
        cases hs
        obtain ⟨hcount, hissue, hstarted⟩ := hmove (t := { s with lock := none })
          (q := .returned err) rfl CallPc.noConfusion (fun _ => CallPc.noConfusion) (by
            rw [hpc]
            cases err <;> exact id)
        exact h.frame rfl hcount hissue hstarted rfl rfl rfl rfl
      · rw [Sdif.callStep, hpc] at hs
        cases hs

/-! ## The other events -/

/-- Nothing is at work or in flight when a request is submitted. -/
theorem BufferInv.submit {cmd : MmcCommand} {bytes : List (BitVec 8)} (h : BufferInv cfg s)
    (hc : ClaimInv s) (hi : CallInv cfg s) (hover : requestsOver s) :
    BufferInv cfg (submit cfg cmd bytes s) := by
  have hidle : ∀ j, (s.pc j).working = false := by
    intro j
    rw [Bool.eq_false_iff]
    intro hj
    exact h.not_over hc hj (hover j (hi.born (CallPc.working_cases hj).1))
  have hpc : ∀ j, ((Sdif.submit cfg cmd bytes s).pc j) = entry cfg ∨
      ((Sdif.submit cfg cmd bytes s).pc j).working = false := by
    intro j
    rw [submit_pc]
    split
    · exact Or.inl rfl
    · exact Or.inr (hidle j)
  have hentry : ∀ p, p = .blockCount .start ∨ (∃ i, p = .issue i) → entry cfg ≠ p := by
    unfold entry
    split <;> simp
  refine ⟨?_, ?_, ?_⟩
  · intro j hj
    rcases hpc j with hnew | hold
    · exact absurd (hnew.symm.trans hj) (hentry _ (Or.inl rfl))
    · rw [hj] at hold
      cases hold
  · intro j p hj hset harm
    rcases hpc j with hnew | hold
    · exact absurd (hnew.symm.trans hj) (hentry _ (Or.inr ⟨p, rfl⟩))
    · rw [hj] at hold
      cases p with
      | arm => exact absurd rfl harm
      | _ => cases hold
  · intro ha
    obtain ⟨j, hj⟩ := h.flight ha
    have hborn := hi.born (CallPc.claimed_ne_new (CallPc.started_claimed hj.started))
    exact absurd (hover j hborn) hj.unanswered

/-- A report that is owed finds no call before its start. -/
theorem BufferInv.report (h : BufferInv cfg s)
    (howed : s.hc.cmdOwed = true ∨ s.hc.dataOwed = true) (hp : t.pc = s.pc)
    (hexp : t.expectData = s.expectData) (hflight : Awaited t → ∃ j, InFlight cfg j t) :
    BufferInv cfg t := by
  refine ⟨?_, ?_, hflight⟩
  · intro j hj
    rw [hp] at hj
    rw [hexp]
    exact h.count j hj
  · intro j p hj hset harm
    rw [hp] at hj
    have hprep := h.prepares j p hj hset harm
    rcases howed with hcmd | hdata
    · exact Bool.noConfusion (hprep.cmdOwed.symm.trans hcmd)
    · exact Bool.noConfusion (hprep.dataOwed.symm.trans hdata)

theorem finishCommand_expect (s : SdifState) :
    (finishCommand cfg s).expectData = s.expectData := by
  unfold finishCommand
  split
  · rfl
  · split
    · split <;> rfl
    · rfl

theorem BufferInv.commandDone {resp : Resp} (h : BufferInv cfg s)
    (howed : s.hc.cmdOwed = true) : BufferInv cfg (commandDone cfg resp s) := by
  have hd : DoneEvent s (Sdif.commandDone cfg resp s) _ := commandDone_spec resp s
  have hhc : (Sdif.commandDone cfg resp s).hc =
      { s.hc with cmdOwed := false, respRegs := resp } := commandDone_hc resp s
  -- only the data can still be awaited
  have hawait : Awaited (Sdif.commandDone cfg resp s) → s.hc.dataOwed = true := by
    rintro (hdata | ⟨hcmd, -⟩)
    · rwa [hhc] at hdata
    · rw [hhc] at hcmd
      cases hcmd
  cases hfin : !s.expectData || s.dtoRcvd with
  | true =>
      refine h.report (Or.inl howed) hd.pc ?_ fun ha => ?_
      · rw [Sdif.commandDone, if_pos hfin, finishCommand_expect]
        rfl
      · obtain ⟨j, hj⟩ := h.flight (Or.inl (hawait ha))
        rw [hj.expect, hj.dtoRcvd (hawait ha)] at hfin
        cases hfin
  | false =>
      have hstep : Sdif.commandDone cfg resp s = noteCommandDone cfg resp s := by
        rw [Sdif.commandDone, if_neg (Bool.eq_false_iff.mp hfin)]
      refine h.report (Or.inl howed) hd.pc ?_ fun ha => ?_
      · rw [hstep]
        rfl
      · obtain ⟨j, hj⟩ := h.flight (Or.inl (hawait ha))
        rw [hstep]
        exact ⟨j, hj.unanswered, hj.started, hj.expect, fun hn => Bool.noConfusion hn, hj.dtoRcvd,
          hj.sink⟩

theorem BufferInv.dataDone {bytes : List (BitVec 8)} (h : BufferInv cfg s)
    (howed : s.hc.dataOwed = true) : BufferInv cfg (dataDone cfg bytes s) := by
  have hd : DoneEvent s (Sdif.dataDone cfg bytes s) _ := dataDone_spec bytes s
  have hhc : (Sdif.dataDone cfg bytes s).hc = { s.hc with dataOwed := false } :=
    dataDone_hc bytes s
  obtain ⟨j, hj⟩ := h.flight (Or.inl howed)
  have hexp : (Sdif.dataDone cfg bytes s).expectData = s.expectData := by
    unfold Sdif.dataDone
    split
    · rfl
    · split
      · rw [finishCommand_expect]
        rfl
      · rfl
  refine h.report (Or.inr howed) hd.pc hexp fun ha => ?_
  -- `CMD_DONE` is still to come, so the request is not completed yet
  have hcmd : s.hc.cmdOwed = true := by
    rcases ha with hdata | ⟨hcmd, -⟩
    · rw [hhc] at hdata
      cases hdata
    · rwa [hhc] at hcmd
  have hnote : InFlight cfg j (noteDataDone bytes s) :=
    ⟨hj.unanswered, hj.started, hj.expect, hj.cmdDone, fun hn => Bool.noConfusion hn,
      fun hn => Bool.noConfusion hn⟩
  refine ⟨j, ?_⟩
  unfold Sdif.dataDone
  split
  · exact hnote.frame rfl hnote.started rfl rfl rfl
  · rw [if_neg]
    · exact hnote
    · rw [hj.cmdDone hcmd]
      exact Bool.false_ne_true

/-- An event that leaves the calls and the controller alone. -/
theorem BufferInv.idle (h : BufferInv cfg s) (hp : t.pc = s.pc) (hdone : t.doneReqs = s.doneReqs)
    (hhc : t.hc = s.hc) (hcmds : t.cmds = s.cmds) (hpkg : t.datPkg = s.datPkg)
    (hflags : (t.expectData, t.cmdDone, t.dtoRcvd) = (s.expectData, s.cmdDone, s.dtoRcvd)) :
    BufferInv cfg t := by
  refine h.frame hdone ?_ ?_ ?_ hhc hcmds hpkg hflags
  · intro j hj
    rwa [hp] at hj
  · intro j p hj _ _
    rwa [hp] at hj
  · intro j hj
    rwa [hp]

theorem BufferInv.timeout (h : BufferInv cfg s) (hi : CallInv cfg s) (hlock : s.lock = none) :
    BufferInv cfg (timeout cfg s) := by
  rcases timeout_cases cfg s with ⟨b, hs⟩ | ⟨r, cmds, c, -, -, -, -, hs⟩
  · rw [hs]
    exact h.idle rfl rfl rfl rfl rfl rfl
  · rw [hs]
    refine ⟨h.count, ?_, ?_⟩
    · intro j p hj _ _
      have hheld := hi.locked j (by rw [show s.pc j = .issue p from hj]; rfl)
      rw [hlock] at hheld
      cases hheld
    · rintro (hdata | ⟨hcmd, -⟩)
      · cases hdata
      · cases hcmd

theorem eventStep_bufferInv {e : SdifEvent} (h : BufferInv cfg s) (hc : ClaimInv s)
    (hi : CallInv cfg s) (hdom : oneAtATime s e) (hok : timely s e)
    (hs : eventStep cfg s e = some s') : BufferInv cfg s' := by
  cases e with
  | submit cmd bytes =>
      cases hs
      exact h.submit hc hi hdom
  | call k ok => exact h.callStep hc hi hok hs
  | cmdDone resp =>
      cases hs
      exact h.commandDone hok
  | dataDone bytes =>
      cases hs
      exact h.dataDone hok
  | errOccure =>
      cases hs
      unfold errorOccurred noteError
      split <;> split <;> exact h.idle rfl rfl rfl rfl rfl rfl
  | expire =>
      obtain ⟨-, ht⟩ := Option.ite_none_right_eq_some.mp hs
      cases ht
      exact h.idle rfl rfl rfl rfl rfl rfl
  | timeout =>
      obtain ⟨⟨-, hlock⟩, ht⟩ := Option.ite_none_right_eq_some.mp hs
      cases ht
      exact h.timeout hi hlock
  | updateIos powerUp useHold =>
      obtain ⟨-, ht⟩ := Option.ite_none_right_eq_some.mp hs
      cases ht
      exact h.idle rfl rfl rfl rfl rfl rfl

theorem buffer_reachable_inv
    (h : (((sdifSystem cfg).restrict oneAtATime).restrict timely).Reachable s) :
    s.panicked = false → BufferInv cfg s := by
  apply h.restrict_invariant
  · rintro s ⟨mem, need, rfl⟩ -
    refine ⟨fun _ hn => CallPc.noConfusion hn, fun _ _ hn => CallPc.noConfusion hn, ?_⟩
    rintro (hdata | ⟨hcmd, -⟩)
    · cases hdata
    · cases hcmd
  · intro s e s' hr hb hok hs _
    obtain ⟨hdom, hs⟩ := System.restrict_step.mp hs
    obtain ⟨hrun, hs⟩ := sdifStep_iff.mp hs
    exact eventStep_bufferInv (hb hrun) (claim_reachable_inv hr hrun)
      (sdif_reachable_callInv hr.of_restrict) hdom hok hs

/-! ## What is written -/

/-- A call writes to the aligned buffer only. -/
theorem callStep_writes {ok : Bool} {x : ℕ} (hs : callStep cfg k ok s = some s')
    (hx : s'.mem x ≠ s.mem x) : Aligned cfg x := by
  rcases callStep_tame hs with htame | hpc | hpc | ⟨hpc, rfl⟩
  · exact htame.writes x hx
  · rw [callStep, hpc] at hs
    simp only [blockCountStep] at hs
    split at hs <;> cases hs <;> exact absurd rfl hx
  · rw [callStep, hpc] at hs
    cases hs
    exact absurd rfl hx
  · rw [callStep, hpc] at hs
    cases hs
    exact absurd rfl hx

/-- `sdif_finish_command` writes to the buffer of the request it completes. -/
theorem finishCommand_writes {x : ℕ} (hx : (finishCommand cfg s).mem x ≠ s.mem x) :
    s.expectData = true ∧ ∃ r, s.req = some r ∧ ∃ d ∈ (s.cmds r).data,
      d.read = true ∧ Inside d.data d.len x := by
  unfold finishCommand at hx
  split at hx
  · exact absurd rfl hx
  · rename_i r hr
    split at hx
    · split at hx
      · rename_i response mem _ hcopy
        replace hx : mem x ≠ s.mem x := hx
        unfold copyBack at hcopy
        split at hcopy <;> rename_i hexp
        · obtain ⟨d, hd, rfl⟩ := Option.map_eq_some_iff.mp hcopy
          rw [Bool.and_eq_true] at hexp
          exact ⟨hexp.1, r, hr, d, hd, copyMem_inside hx⟩
        · cases hcopy
          exact absurd rfl hx
      · exact absurd rfl hx
    · exact absurd rfl hx

/-- The copy back of a request in flight goes to a buffer that is lent. -/
theorem InFlight.lent {x : ℕ} (h : InFlight cfg j s) (hc : ClaimInv s) (hi : CallInv cfg s)
    (hwrite : ∃ r, s.req = some r ∧ ∃ d ∈ (s.cmds r).data,
      d.read = true ∧ Inside d.data d.len x) : Lent s x := by
  obtain ⟨r, hr, d, hd, hread, hin⟩ := hwrite
  have hclaimed := CallPc.started_claimed h.started
  have hreq := hc.req j h.unanswered hclaimed
  rw [hr, Option.some.injEq] at hreq
  subst hreq
  exact ⟨r, hi.born (CallPc.claimed_ne_new hclaimed), h.unanswered, d, hd, Or.inl hread, hin⟩

theorem BufferInv.commandDone_writes {resp : Resp} {x : ℕ} (h : BufferInv cfg s)
    (hc : ClaimInv s) (hi : CallInv cfg s) (howed : s.hc.cmdOwed = true)
    (hx : (Sdif.commandDone cfg resp s).mem x ≠ s.mem x) : Lent s x := by
  unfold Sdif.commandDone at hx
  split at hx
  · obtain ⟨hexp, hwrite⟩ := finishCommand_writes (s := noteCommandDone cfg resp s) hx
    obtain ⟨j, hj⟩ := h.flight (Or.inr ⟨howed, hexp⟩)
    exact hj.lent hc hi hwrite
  · exact absurd rfl hx

/-- The data goes to the buffer of the transfer. -/
theorem InFlight.storeData_writes {bytes : List (BitVec 8)} {x : ℕ} (h : InFlight cfg j s)
    (hi : CallInv cfg s) (howed : s.hc.dataOwed = true) (hx : storeData bytes s x ≠ s.mem x) :
    Lent s x ∨ Aligned cfg x := by
  obtain ⟨d, hd, hfits⟩ := h.sink howed
  have hborn := hi.born (CallPc.claimed_ne_new (CallPc.started_claimed h.started))
  cases hsink : s.hc.sink with
  | none =>
      rw [storeData, hsink] at hx
      exact absurd rfl hx
  | some p =>
      obtain ⟨a, n⟩ := p
      obtain ⟨htarget, rfl, hw⟩ := hfits a n hsink
      rw [storeData, hsink] at hx
      have hin := inside_of_writeMem (List.length_take_le ..) hx
      rcases htarget with rfl | ⟨hr, rfl, hlen⟩
      · exact Or.inl ⟨j, hborn, h.unanswered, d, hd, Or.inr hw, hin⟩
      · exact Or.inr ⟨hr, hin.1, hin.2.trans_le (Nat.add_le_add_left hlen _)⟩

theorem BufferInv.dataDone_writes {bytes : List (BitVec 8)} {x : ℕ} (h : BufferInv cfg s)
    (hc : ClaimInv s) (hi : CallInv cfg s) (howed : s.hc.dataOwed = true)
    (hx : (Sdif.dataDone cfg bytes s).mem x ≠ s.mem x) : Lent s x ∨ Aligned cfg x := by
  obtain ⟨j, hj⟩ := h.flight (Or.inl howed)
  by_cases hstore : storeData bytes s x = s.mem x
  · unfold Sdif.dataDone at hx
    split at hx
    · exact absurd hstore hx
    · split at hx
      · rw [← hstore] at hx
        obtain ⟨-, hwrite⟩ := finishCommand_writes (s := noteDataDone bytes s) hx
        exact Or.inl (hj.lent hc hi hwrite)
      · exact absurd hstore hx
  · exact hj.storeData_writes hi howed hstore

/-- The client's bytes are put there with the request. -/
def SdifEvent.fills (e : SdifEvent) (x : ℕ) : Prop :=
  ∃ cmd bytes, e = .submit cmd bytes ∧ ∃ d ∈ cmd.data, Inside d.data d.len x

theorem fillBuffer_writes {data : Option MmcData} {bytes : List (BitVec 8)} {m : Mem} {x : ℕ}
    (hx : fillBuffer data bytes m x ≠ m x) : ∃ d ∈ data, Inside d.data d.len x := by
  unfold fillBuffer at hx
  split at hx
  · exact absurd rfl hx
  · exact ⟨_, rfl, inside_of_writeMem (List.length_take_le ..) hx⟩

/-- **One event.** -/
theorem eventStep_writes {e : SdifEvent} {x : ℕ} (h : BufferInv cfg s) (hc : ClaimInv s)
    (hi : CallInv cfg s) (hok : timely s e) (hs : eventStep cfg s e = some s')
    (hx : s'.mem x ≠ s.mem x) : Aligned cfg x ∨ Lent s x ∨ e.fills x := by
  cases e with
  | submit cmd bytes =>
      cases hs
      exact Or.inr (Or.inr ⟨cmd, bytes, rfl, fillBuffer_writes hx⟩)
  | call k ok => exact Or.inl (callStep_writes hs hx)
  | cmdDone resp =>
      cases hs
      exact Or.inr (Or.inl (h.commandDone_writes hc hi hok hx))
  | dataDone bytes =>
      cases hs
      rcases h.dataDone_writes hc hi hok hx with hlent | hal
      · exact Or.inr (Or.inl hlent)
      · exact Or.inl hal
  | errOccure =>
      cases hs
      unfold errorOccurred noteError at hx
      split at hx <;> split at hx <;> exact absurd rfl hx
  | expire =>
      obtain ⟨-, ht⟩ := Option.ite_none_right_eq_some.mp hs
      cases ht
      exact absurd rfl hx
  | timeout =>
      obtain ⟨-, ht⟩ := Option.ite_none_right_eq_some.mp hs
      cases ht
      rcases timeout_cases cfg s with ⟨b, hs⟩ | ⟨r, cmds, c, -, -, -, -, hs⟩ <;>
        · rw [hs] at hx
          exact absurd rfl hx
  | updateIos powerUp useHold =>
      obtain ⟨-, ht⟩ := Option.ite_none_right_eq_some.mp hs
      cases ht
      exact absurd rfl hx

/-! ## Runs -/

theorem eventStep_requests {e : SdifEvent} (he : e.submits = 0)
    (hs : eventStep cfg s e = some s') : SameRequests s s' := by
  cases e with
  | submit cmd bytes => cases he
  | call k ok => exact callStep_requests hs
  | updateIos powerUp useHold =>
      obtain ⟨-, ht⟩ := Option.ite_none_right_eq_some.mp hs
      cases ht
      exact .refl s
  | _ => exact (eventStep_quiet hs rfl).requests

/-- A request keeps its buffer. -/
theorem SameRequests.data (h : SameRequests s t) (k : ℕ) : (t.cmds k).data = (s.cmds k).data := by
  have hdata : (t.cmds k).request.data = (s.cmds k).request.data := by rw [h k]
  exact hdata

/-- No buffer comes to be lent but that of a new request. -/
theorem eventStep_lent {e : SdifEvent} {x : ℕ} (hdom : oneAtATime s e)
    (hs : eventStep cfg s e = some s') (hx : Lent s' x) : Lent s x ∨ e.fills x := by
  obtain ⟨k, hk, hopen, d, hd, hread, hin⟩ := hx
  by_cases he : e.submits = 0
  · have hkept := eventStep_answersKept he hs
    rw [(eventStep_requests he hs).data k] at hd
    exact Or.inl ⟨k, hkept.submitted ▸ hk, fun ho => hopen (hkept.answered k ho), d, hd, hread, hin⟩
  · cases e with
    | submit cmd bytes =>
        cases hs
        rw [submitted_submit] at hk
        rcases Nat.lt_succ_iff_lt_or_eq.mp hk with hlt | rfl
        · exact absurd (submit_over hlt (hdom k hlt)) hopen
        · refine Or.inr ⟨cmd, bytes, rfl, d, ?_, hin⟩
          simpa [submit] using hd
    | _ => exact absurd rfl he

/-- A CMD23 is not answered in time, but before the next transfer is started: all
requests are over, and yet the controller owes data. -/
example :
    (((sdifSystem bounceSdif).restrict oneAtATime).run (attached (fun _ => 0#8) false)
      (.submit readTwoBlocks [] :: calls 0 9 ++ [.call 0 false] ++ calls 0 3 ++
        [.submit readUnaligned []] ++ calls 1 5 ++ [.cmdDone ⟨0#32, 0#32, 0#32, 0#32⟩] ++
        calls 1 9)).map (fun s => (decide (requestsOver s), s.hc.dataOwed)) =
      some (true, true) := by
  decide

end Phytium.Sdif
