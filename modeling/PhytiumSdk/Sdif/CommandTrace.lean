import PhytiumSdk.Lib.Record
import PhytiumSdk.Sdif.RequestSteps

/-!
# SDIF: what is handed to the controller

The machine of `Request` with a record beside it: every command the controller
library has accepted, with the packages it was given, every `CMD23` and whether
`sdif_set_block_count` found it completed, and every command that was prepared
and then dropped because a library call failed. `Tracked` says what the packages
and the end of the record are at each position of a call, so that at the moment
a command is handed over both are known.
-/

namespace Phytium.Sdif

open Lib

variable {cfg : SdifConfig}

/-! ## The record -/

inductive TraceItem where
  /-- `MMC_SET_BLOCK_COUNT` for a request -/
  | blockCount (req : ℕ) (pkg : CmdPkg)
  /-- `sdif_set_block_count` has seen the request line and the card idle -/
  | counted (req : ℕ)
  /-- the command of a request, with the data package it points to -/
  | command (req : ℕ) (cmd : MmcCommand) (pkg : CmdPkg) (dat : Option DatPkg)
  /-- the DMA preparation or the start of a request has failed -/
  | dropped (req : ℕ)
  /-- `update_ios` has powered the card up -/
  | powerUp
deriving DecidableEq

/-- The items that belong to the command line of the card. -/
def TraceItem.onBus : TraceItem → Bool
  | .blockCount _ _ => true
  | .counted _ => true
  | .command _ _ _ _ => true
  | .dropped _ => false
  | .powerUp => false

structure TraceState where
  sdif : SdifState
  trace : List TraceItem

/-- The data package the command package points to. -/
def SdifState.handedData (s : SdifState) : Option DatPkg :=
  if s.cmdPkg.dataP then some s.datPkg else none

/-- What a step of the `k`-th call adds to the record. -/
def callNote (s : SdifState) (k : ℕ) (ok : Bool) : CallPc → Option TraceItem
  | .blockCount .start => if ok then some (.blockCount k s.cmdPkg) else none
  | .blockCount .busy => if ok then some (.counted k) else none
  | .issue (.dmaPrepare _) => if ok then none else some (.dropped k)
  | .issue .start =>
      some (if ok then .command k (s.cmds k) s.cmdPkg s.handedData else .dropped k)
  | _ => none

/-- What an event adds to the record. -/
def noted (s : SdifState) : SdifEvent → Option TraceItem
  | .call k ok => callNote s k ok (s.pc k)
  | .updateIos true _ => some .powerUp
  | _ => none

/-- The driver's own step, and the record of it. -/
def traceStep (cfg : SdifConfig) (s : TraceState) (e : SdifEvent) : Option TraceState :=
  (sdifStep cfg s.sdif e).map fun t => ⟨t, s.trace ++ (noted s.sdif e).toList⟩

def traceSystem (cfg : SdifConfig) : System TraceState SdifEvent where
  init := fun s => (sdifSystem cfg).init s.sdif ∧ s.trace = []
  step := traceStep cfg

/-- The part of the record that is about the command line. -/
def bus (tr : List TraceItem) : List TraceItem := tr.filter TraceItem.onBus

theorem bus_append (tr us : List TraceItem) : bus (tr ++ us) = bus tr ++ bus us :=
  List.filter_append ..

theorem traceStep_iff {s s' : TraceState} {e : SdifEvent} :
    traceStep cfg s e = some s' ↔ sdifStep cfg s.sdif e = some s'.sdif ∧
      s'.trace = s.trace ++ (noted s.sdif e).toList := by
  simp only [traceStep, Option.map_eq_some_iff]
  constructor
  · rintro ⟨t, ht, rfl⟩
    exact ⟨ht, rfl⟩
  · rintro ⟨ht, htr⟩
    refine ⟨s'.sdif, ht, ?_⟩
    cases s'
    exact congrArg _ htr.symm

/-! ## Properties of the commands handed over -/

/-- `P` holds of every command in the record, given what went before it. -/
def EachCommand (P : List TraceItem → ℕ → MmcCommand → CmdPkg → Option DatPkg → Prop)
    (tr : List TraceItem) : Prop :=
  Each (fun pre i => ∀ k cmd pkg dat, i = .command k cmd pkg dat → P pre k cmd pkg dat) tr

/-- `P` holds of the command the `k`-th call is about to hand over. -/
def TraceState.Hands (P : List TraceItem → ℕ → MmcCommand → CmdPkg → Option DatPkg → Prop)
    (s : TraceState) (k : ℕ) : Prop :=
  P s.trace k (s.sdif.cmds k) s.sdif.cmdPkg s.sdif.handedData

section Each

variable {P : List TraceItem → ℕ → MmcCommand → CmdPkg → Option DatPkg → Prop}

/-- The only step that hands a command over. -/
theorem noted_command_iff {s : SdifState} {e : SdifEvent} {k : ℕ} {cmd : MmcCommand}
    {pkg : CmdPkg} {dat : Option DatPkg} :
    noted s e = some (.command k cmd pkg dat) ↔
      e = .call k true ∧ s.pc k = .issue .start ∧ s.cmds k = cmd ∧ s.cmdPkg = pkg ∧
        s.handedData = dat := by
  constructor
  · intro h
    cases e with
    | call j ok =>
        simp only [noted] at h
        unfold callNote at h
        split at h <;> rename_i hpc <;> cases ok <;> cases h
        exact ⟨rfl, hpc, rfl, rfl, rfl⟩
    | updateIos powerUp useHold => cases powerUp <;> cases h
    | _ => cases h
  · rintro ⟨rfl, hpc, rfl, rfl, rfl⟩
    simp [noted, callNote, hpc]

/-- The step hands a command over only if the condition holds for it. -/
def HandsOnly (cond : TraceState → ℕ → Prop) (s : TraceState) (e : SdifEvent) : Prop :=
  ∀ k, e = .call k true → s.sdif.pc k = .issue .start → cond s k

/-- What a step records has the property just when what it hands over has it. -/
theorem noted_hands_iff {s : TraceState} {e : SdifEvent} :
    (∀ i, noted s.sdif e = some i →
      ∀ k cmd pkg dat, i = .command k cmd pkg dat → P s.trace k cmd pkg dat) ↔
    HandsOnly (TraceState.Hands P) s e := by
  constructor
  · intro h k he hpc
    exact h _ (noted_command_iff.mpr ⟨he, hpc, rfl, rfl, rfl⟩) _ _ _ _ rfl
  · rintro h i hn k cmd pkg dat rfl
    obtain ⟨he, hpc, rfl, rfl, rfl⟩ := noted_command_iff.mp hn
    exact h k he hpc

/-- **The rule for commands**: where a condition decides whether the command
about to be handed over has the property, all commands of a run have it just
when every command is handed over under the condition. -/
theorem always_eachCommand_iff {cond : TraceState → ℕ → Prop}
    (hcond : ∀ s k, (traceSystem cfg).Reachable s → s.sdif.panicked = false →
      s.sdif.pc k = .issue .start → (s.Hands P k ↔ cond s k))
    {s : TraceState} (hs : (traceSystem cfg).init s) (es : List SdifEvent) :
    (traceSystem cfg).Always s es (fun t => EachCommand P t.trace) ↔
      (traceSystem cfg).Meets (HandsOnly cond) s es := by
  refine System.always_each_iff TraceState.trace (fun s => noted s.sdif) ?_ ?_ ?_ hs es
  · rintro t ⟨-, hnil⟩
    exact hnil
  · intro t e t' hst
    exact (traceStep_iff.mp hst).2
  · intro t e t' ht hst
    have hrun := (sdifStep_iff.mp (traceStep_iff.mp hst).1).1
    rw [noted_hands_iff]
    refine forall_congr' fun k => forall_congr' fun _ => ?_
    exact forall_congr' fun hpc => hcond t k ht hrun hpc

end Each

/-! ## The packages and the record at each position -/

/-- A command as it was submitted. -/
def MmcCommand.request (cmd : MmcCommand) : MmcCommand :=
  { cmd with resp := ⟨0#32, 0#32, 0#32, 0#32⟩, error := .none }

/-- A command package without its response. -/
def CmdPkg.words (pkg : CmdPkg) : CmdPkg := { pkg with response := ⟨0#32, 0#32, 0#32, 0#32⟩ }

/-- The last thing on the command line. -/
def lastBus (tr : List TraceItem) : Option TraceItem := (bus tr).getLast?

@[simp] theorem lastBus_append_nil (tr : List TraceItem) : lastBus (tr ++ []) = lastBus tr := by
  rw [List.append_nil]

@[simp] theorem lastBus_append_singleton (tr : List TraceItem) (i : TraceItem) :
    lastBus (tr ++ [i]) = if i.onBus then some i else lastBus tr := by
  unfold lastBus
  rw [bus_append]
  cases hi : i.onBus with
  | false => simp [bus, hi]
  | true => simp [bus, hi]

/-- The package of a `CMD23` carries the block count of the request. -/
def Carries (cmd : MmcCommand) (pkg : CmdPkg) : Prop :=
  ∃ d, cmd.data = some d ∧ pkg.cmdarg &&& 0xFFFF#32 = blockCountArg d

/-- The data package either driver builds. -/
def dataPackage (cfg : SdifConfig) (cmd : MmcCommand) (d : MmcData) : Option DatPkg :=
  match cfg.version with
  | .v1 => some (prepareData d)
  | .v2 => prepareDataTransfer cfg.masks cfg.nonRemovable cmd d

/-- The data package is that of the command, but for the address of the
buffer. -/
def DataBuilt (cfg : SdifConfig) (cmd : MmcCommand) (pkg : CmdPkg) (dat : DatPkg) : Prop :=
  pkg.dataP = cmd.data.isSome ∧
    ∀ d, cmd.data = some d → ∃ built, dataPackage cfg cmd d = some built ∧
      dat = { built with buf := dat.buf }

/-- The raw command is that of the command. -/
def WordBuilt (cfg : SdifConfig) (cmd : MmcCommand) (pkg : CmdPkg) : Prop :=
  match cfg.version with
  | .v1 => ∃ useHold init,
      pkg.rawcmd = prepareRawCmd cfg.masks cfg.autoStop useHold init cmd
  | .v2 => ∃ f, pkg.rawcmd = rawCommandOf cfg.masks cfg.nonRemovable cmd.opcode f false false

/-- The first driver goes on with the block count told to the card. -/
def Announced (cfg : SdifConfig) (k : ℕ) (cmd : MmcCommand) (last : Option TraceItem) : Prop :=
  cfg.version = .v1 → needsBlockCount cfg cmd = true → last = some (.counted k)

def CountTracked (cfg : SdifConfig) (k : ℕ) (cmd : MmcCommand) (pkg : CmdPkg)
    (last : Option TraceItem) : BlockCountPc → Prop
  | .lock => True
  | .package => True
  | .poll => ∃ p, last = some (.blockCount k p)
  | .busy => ∃ p, last = some (.blockCount k p)
  | .exit none => Announced cfg k cmd last
  | .exit (some _) => True
  | _ => Carries cmd pkg

def IssueTracked (cfg : SdifConfig) (cmd : MmcCommand) (pkg : CmdPkg) (dat : DatPkg) :
    IssuePc → Prop
  | .setReq => True
  | .setCurcmd => True
  | .setError => True
  | .package => True
  | .dmaPrepare _ => DataBuilt cfg cmd pkg dat ∧ (cfg.version = .v1 → WordBuilt cfg cmd pkg)
  | .command => cfg.version = .v2 ∧ DataBuilt cfg cmd pkg dat
  | .arm => True
  | _ => DataBuilt cfg cmd pkg dat ∧ WordBuilt cfg cmd pkg

/-- What is known where the `k`-th call stands; `last` is the last thing on the
command line. -/
def Tracked (cfg : SdifConfig) (k : ℕ) (cmd : MmcCommand) (pkg : CmdPkg) (dat : DatPkg)
    (last : Option TraceItem) : CallPc → Prop
  | .blockCount p => needsBlockCount cfg cmd = true ∧ CountTracked cfg k cmd pkg last p
  | .filter none => Announced cfg k cmd last
  | .mainLock => cfg.version = .v2
  | .issue p => (p ≠ .arm → Announced cfg k cmd last) ∧ IssueTracked cfg cmd pkg dat p
  | _ => True

def TrackedAt (cfg : SdifConfig) (s : SdifState) (k : ℕ) (last : Option TraceItem)
    (p : CallPc) : Prop :=
  Tracked cfg k (s.cmds k).request s.cmdPkg.words s.datPkg last p

section Tracking

variable {s s' t : SdifState} {k : ℕ} {ok : Bool} {tr : List TraceItem} {p : CallPc}
variable {cmd : MmcCommand} {pkg pkg' : CmdPkg} {dat dat' : DatPkg}
variable {last last' : Option TraceItem}

/-- Only a call that has the lock has anything to lose. -/
theorem Tracked.frame (h : Tracked cfg k cmd pkg dat last p)
    (hsame : p.locked cfg.version = true → pkg' = pkg ∧ dat' = dat ∧ last' = last) :
    Tracked cfg k cmd pkg' dat' last' p := by
  cases p with
  | blockCount p =>
      cases p with
      | lock => exact h
      | _ =>
          obtain ⟨rfl, rfl, rfl⟩ := hsame rfl
          exact h
  | filter err =>
      cases err with
      | none =>
          intro hv
          obtain ⟨-, -, rfl⟩ := hsame (by simp [CallPc.locked, hv])
          exact h hv
      | some e => trivial
  | issue p =>
      obtain ⟨rfl, rfl, rfl⟩ := hsame rfl
      exact h
  | mainLock => exact h
  | _ => trivial

theorem TrackedAt.goto (h : TrackedAt cfg t k last p) :
    TrackedAt cfg (t.goto k p) k last ((t.goto k p).pc k) := by
  rw [goto_pc]
  exact h

theorem request_setErr (s : SdifState) (k j : ℕ) (e : MmcErr) :
    ((s.setErr k e).cmds j).request = (s.cmds j).request := by
  by_cases hj : j = k
  · subst hj
    simp [SdifState.setErr, MmcCommand.request]
  · simp [SdifState.setErr, Function.update_of_ne hj]

theorem blockCountPkg_carries {useHold : Bool} {d : MmcData}
    (hd : cmd.data = some d) (h : blockCountPkg cfg useHold d = some pkg) :
    Carries cmd pkg.words := by
  refine ⟨d, hd, ?_⟩
  have hlow : blockCountArg d &&& 0xFFFF#32 = blockCountArg d := by
    rw [blockCountArg, BitVec.and_assoc, BitVec.and_self]
  unfold blockCountPkg at h
  split at h
  · cases h
    change (blockCountArg d ||| bitIf cfg.nonRemovable (1#32 <<< 31)) &&& 0xFFFF#32 = _
    rw [BitVec.and_or_distrib_right, hlow]
    cases cfg.nonRemovable with
    | false => exact BitVec.or_zero
    | true => exact BitVec.or_zero
  · obtain ⟨f, -, rfl⟩ := Option.map_eq_some_iff.mp h
    exact hlow

/-! ### One step of the call itself -/

theorem TrackedAt.takeLock (hs : s.takeLock k p = some s') (h : TrackedAt cfg s k last p) :
    TrackedAt cfg s' k last (s'.pc k) := by
  obtain ⟨-, ht⟩ := Option.ite_none_right_eq_some.mp hs
  cases ht
  exact TrackedAt.goto h

/-- A step that puts nothing on record. -/
theorem TrackedAt.unnoted {q : CallPc} (hnote : callNote s k ok q = none)
    (h : TrackedAt cfg s' k (lastBus tr) p) :
    TrackedAt cfg s' k (lastBus (tr ++ (callNote s k ok q).toList)) p := by
  rw [hnote, Option.toList_none, List.append_nil]
  exact h

theorem blockCountStep_tracked {q : BlockCountPc}
    (hs : blockCountStep cfg k ok s q = some s') (hrun : s'.panicked = false)
    (h : TrackedAt cfg s k (lastBus tr) (.blockCount q)) :
    TrackedAt cfg s' k (lastBus (tr ++ (callNote s k ok (.blockCount q)).toList)) (s'.pc k) := by
  obtain ⟨hneeds, hq⟩ := h
  cases q with
  | lock => exact TrackedAt.takeLock hs ⟨hneeds, trivial⟩
  | package =>
      dsimp only [blockCountStep] at hs
      split at hs
      · cases hs
        cases hrun
      · rename_i pkg hpkg
        cases hs
        obtain ⟨d, hd, hpkg⟩ := Option.bind_eq_some_iff.mp hpkg
        have hcarry : Carries (s.cmds k).request pkg.words := blockCountPkg_carries hd hpkg
        exact TrackedAt.goto ⟨hneeds, hcarry⟩
  | start =>
      dsimp only [blockCountStep] at hs
      cases ok with
      | false =>
          cases hs
          exact TrackedAt.goto ⟨hneeds, trivial⟩
      | true =>
          cases hs
          refine TrackedAt.goto ⟨hneeds, s.cmdPkg, ?_⟩
          simp [callNote, TraceItem.onBus]
  | poll =>
      obtain ⟨p, hlast⟩ := hq
      dsimp only [blockCountStep] at hs
      split at hs
      · cases hs
      · cases ok with
        | false =>
            cases hs
            exact TrackedAt.goto ⟨hneeds, trivial⟩
        | true =>
            cases hs
            refine TrackedAt.goto ⟨hneeds, p, ?_⟩
            simpa [callNote] using hlast
  | busy =>
      cases hs
      cases ok with
      | false => exact TrackedAt.goto ⟨hneeds, trivial⟩
      | true =>
          refine TrackedAt.goto ⟨hneeds, fun _ _ => ?_⟩
          simp [callNote, TraceItem.onBus]
  | exit err =>
      have hfilter : TrackedAt cfg s k (lastBus tr) (.filter err) := by
        cases err with
        | none => exact hq
        | some e => trivial
      refine TrackedAt.unnoted rfl ?_
      dsimp only [blockCountStep] at hs
      split at hs
      · cases hs
        exact TrackedAt.goto hfilter
      · cases hs
        exact TrackedAt.goto hfilter
  | _ =>
      cases hs
      refine TrackedAt.goto ⟨hneeds, ?_⟩
      exact hq

/-- The packages of `phytium_sdif_request`, in the order of each driver. -/
theorem packageStep_tracked (hrun : (packageStep cfg k s).panicked = false)
    (h : Announced cfg k (s.cmds k).request last) :
    TrackedAt cfg (packageStep cfg k s) k last ((packageStep cfg k s).pc k) := by
  revert hrun
  unfold packageStep
  dsimp only
  split
  · rename_i hv
    intro _
    refine TrackedAt.goto ⟨fun _ => h, ⟨rfl, ?_⟩, ?_⟩
    · intro d hd
      have hd' : (s.cmds k).data = some d := hd
      refine ⟨prepareData d, by simp [dataPackage, hv], ?_⟩
      simp [hd', prepareData]
    · simp only [WordBuilt, hv]
      exact ⟨s.useHold, s.cardNeedInit, rfl⟩
  · rename_i hv
    split
    · rename_i hd
      intro _
      refine TrackedAt.goto ⟨fun _ => h, hv, ?_, ?_⟩
      · change false = (s.cmds k).data.isSome
        rw [hd]
        rfl
      · intro d hd'
        exact absurd (hd.symm.trans hd') (Option.some_ne_none d).symm
    · rename_i d hd
      split
      · intro hrun
        cases hrun
      · rename_i pkg hpkg
        intro _
        refine TrackedAt.goto ⟨fun _ => h, ⟨?_, ?_⟩, ?_⟩
        · change true = (s.cmds k).data.isSome
          rw [hd]
          rfl
        · intro d' hd'
          obtain rfl : d = d' := Option.some.inj (hd.symm.trans hd')
          refine ⟨pkg, ?_, rfl⟩
          simp only [dataPackage, hv]
          exact hpkg
        · intro hv1
          rw [hv] at hv1
          cases hv1

theorem DataBuilt.setBuf {buf : ℕ} (h : DataBuilt cfg cmd pkg dat) :
    DataBuilt cfg cmd pkg { dat with buf := buf } := by
  refine ⟨h.1, ?_⟩
  intro d hd
  obtain ⟨built, hbuilt, hdat⟩ := h.2 d hd
  refine ⟨built, hbuilt, ?_⟩
  rw [hdat]

/-- What `sdif_dma_prepare` is followed by. -/
theorem IssueTracked.afterPrepare (hd : DataBuilt cfg cmd pkg dat)
    (hw : cfg.version = .v1 → WordBuilt cfg cmd pkg) :
    IssueTracked cfg cmd pkg dat (afterPrepare cfg) := by
  unfold Sdif.afterPrepare
  split
  · rename_i hv
    exact ⟨hd, hw hv⟩
  · rename_i hv
    exact ⟨hv, hd⟩

theorem IssueTracked.afterFlags (cmd' : MmcCommand) (hd : DataBuilt cfg cmd pkg dat)
    (hw : WordBuilt cfg cmd pkg) : IssueTracked cfg cmd pkg dat (afterFlags cfg cmd') := by
  unfold Sdif.afterFlags
  split
  · split
    · exact ⟨hd, fun _ => hw⟩
    · exact ⟨hd, hw⟩
  · exact ⟨hd, hw⟩

theorem TrackedAt.fail {e : MmcErr} {err : Option Errno} :
    TrackedAt cfg (t.fail k e err) k last ((t.fail k e err).pc k) := by
  unfold SdifState.fail
  exact TrackedAt.goto trivial

theorem dmaPrepareStep_tracked {d : MmcData}
    (hrun : (dmaPrepareStep cfg k ok d s).panicked = false)
    (h : TrackedAt cfg s k last (.issue (.dmaPrepare d))) :
    TrackedAt cfg (dmaPrepareStep cfg k ok d s) k last
      ((dmaPrepareStep cfg k ok d s).pc k) := by
  obtain ⟨hann, hdata, hword⟩ := h
  have hann' := hann IssuePc.noConfusion
  rcases dmaPrepareStep_cases cfg k ok d s with hstep | ⟨-, mem, buf, ring, hstep⟩ | ⟨-, hstep⟩
  · rw [hstep] at hrun
    cases hrun
  · rw [hstep]
    exact TrackedAt.goto ⟨fun _ => hann', IssueTracked.afterPrepare hdata.setBuf hword⟩
  · rw [hstep]
    exact TrackedAt.fail

theorem issueStep_tracked {q : IssuePc} (hrun : (issueStep cfg k ok s q).panicked = false)
    (h : TrackedAt cfg s k (lastBus tr) (.issue q)) :
    TrackedAt cfg (issueStep cfg k ok s q) k
      (lastBus (tr ++ (callNote s k ok (.issue q)).toList)) ((issueStep cfg k ok s q).pc k) := by
  have hann := h.1
  have hbuilt := h.2
  cases q with
  | package =>
      exact TrackedAt.unnoted rfl (packageStep_tracked hrun (hann IssuePc.noConfusion))
  | dmaPrepare d =>
      have hlast : lastBus (tr ++ (callNote s k ok (.issue (.dmaPrepare d))).toList) =
          lastBus tr := by
        cases ok with
        | false => simp [callNote, TraceItem.onBus]
        | true => simp [callNote]
      rw [hlast]
      exact dmaPrepareStep_tracked hrun h
  | command =>
      refine TrackedAt.unnoted rfl ?_
      obtain ⟨hv, hdata⟩ := hbuilt
      dsimp only [issueStep] at hrun ⊢
      rcases commandStep_cases cfg k s with ⟨-, hstep⟩ | ⟨pkg, hpkg, hstep⟩
      · rw [hstep] at hrun
        cases hrun
      · rw [hstep]
        obtain ⟨f, -, rfl⟩ := Option.map_eq_some_iff.mp hpkg
        refine TrackedAt.goto ⟨fun _ => hann IssuePc.noConfusion, hdata, ?_⟩
        simp only [WordBuilt, hv]
        exact ⟨f, rfl⟩
  | start =>
      change TrackedAt cfg (startStep cfg k ok s) k _ ((startStep cfg k ok s).pc k)
      unfold startStep
      cases ok with
      | true => exact TrackedAt.goto ⟨fun hn => absurd rfl hn, trivial⟩
      | false =>
          rw [if_neg Bool.false_ne_true]
          split
          · exact TrackedAt.fail
          · exact TrackedAt.fail
  | arm => exact TrackedAt.goto trivial
  | setExpect =>
      refine TrackedAt.unnoted rfl ?_
      refine TrackedAt.goto ⟨fun _ => hann IssuePc.noConfusion, ?_⟩
      exact IssueTracked.afterFlags _ hbuilt.1 hbuilt.2
  | setError =>
      refine TrackedAt.unnoted rfl ?_
      refine TrackedAt.goto ⟨fun _ => ?_, trivial⟩
      rw [request_setErr]
      exact hann IssuePc.noConfusion
  | _ =>
      refine TrackedAt.unnoted rfl ?_
      exact TrackedAt.goto ⟨fun _ => hann IssuePc.noConfusion, hbuilt⟩

/-- **What is known of a call after its own step.** -/
theorem callStep_tracked (hs : callStep cfg k ok s = some s') (hrun : s'.panicked = false)
    (h : TrackedAt cfg s k (lastBus tr) (s.pc k)) :
    TrackedAt cfg s' k (lastBus (tr ++ (callNote s k ok (s.pc k)).toList)) (s'.pc k) := by
  unfold callStep at hs
  split at hs <;> rename_i hpc <;> rw [hpc] at h ⊢
  · cases hs
  · exact TrackedAt.takeLock hs trivial
  · cases hs
    unfold busyStep
    split
    · exact TrackedAt.goto trivial
    · split
      · exact TrackedAt.goto trivial
      · exact TrackedAt.goto trivial
  · cases hs
    unfold preRequestStep
    split
    · rename_i hneeds
      split
      · exact TrackedAt.goto ⟨hneeds, trivial⟩
      · exact TrackedAt.goto ⟨hneeds, trivial⟩
    · rename_i hneeds
      refine TrackedAt.goto fun _ hn => ?_
      exact absurd hn hneeds
  · exact blockCountStep_tracked hs hrun h
  · cases hs
    refine TrackedAt.unnoted rfl ?_
    unfold filterStep
    split <;> rename_i hfilter hv
    · exact TrackedAt.goto trivial
    · exact TrackedAt.goto trivial
    · split at hfilter
      · cases hfilter
      · subst hfilter
        exact TrackedAt.goto ⟨fun _ => h, trivial⟩
    · exact TrackedAt.goto hv
  · have hv : cfg.version = .v2 := h
    refine TrackedAt.takeLock hs ⟨fun _ hv1 => ?_, trivial⟩
    rw [hv] at hv1
    cases hv1
  · cases hs
    exact issueStep_tracked hrun h
  · cases hs
    exact TrackedAt.goto trivial
  · cases hs

/-! ### What the other steps leave alone -/

/-- The requests are the ones submitted. -/
def SameRequests (s t : SdifState) : Prop := ∀ r, (t.cmds r).request = (s.cmds r).request

theorem SameRequests.refl (s : SdifState) : SameRequests s s := fun _ => rfl

theorem issueStep_requests {q : IssuePc} : SameRequests s (issueStep cfg k ok s q) := by
  have hfail : ∀ {t : SdifState} {e : MmcErr} {err : Option Errno}, t.cmds = s.cmds →
      SameRequests s (t.fail k e err) := by
    intro t e err ht r
    have hset := request_setErr t k r e
    rw [ht] at hset
    exact hset
  cases q with
  | setError => exact fun r => request_setErr s k r .none
  | package =>
      dsimp only [issueStep, packageStep]
      split
      · exact .refl s
      · split
        · exact .refl s
        · split
          · exact .refl s
          · exact .refl s
  | dmaPrepare d =>
      dsimp only [issueStep]
      rcases dmaPrepareStep_cases cfg k ok d s with hstep | ⟨-, mem, buf, ring, hstep⟩ |
        ⟨-, hstep⟩
      · rw [hstep]
        exact .refl s
      · rw [hstep]
        exact .refl s
      · rw [hstep]
        exact hfail rfl
  | command =>
      dsimp only [issueStep]
      rcases commandStep_cases cfg k s with ⟨-, hstep⟩ | ⟨pkg, -, hstep⟩
      · rw [hstep]
        exact .refl s
      · rw [hstep]
        exact .refl s
  | start =>
      dsimp only [issueStep, startStep]
      split
      · exact .refl s
      · split
        · exact hfail rfl
        · exact hfail rfl
  | _ => exact .refl s

theorem SameRequests.takeLock (hs : s.takeLock k p = some s') : SameRequests s s' := by
  obtain ⟨-, ht⟩ := Option.ite_none_right_eq_some.mp hs
  cases ht
  exact .refl s

theorem blockCountStep_requests {q : BlockCountPc} (hs : blockCountStep cfg k ok s q = some s') :
    SameRequests s s' := by
  intro r
  rw [(blockCountStep_cases hs).cmds]

theorem callStep_requests (hs : callStep cfg k ok s = some s') : SameRequests s s' := by
  unfold callStep at hs
  split at hs
  · cases hs
  · exact .takeLock hs
  · cases hs
    unfold busyStep
    split
    · exact .refl s
    · split <;> exact .refl s
  · cases hs
    unfold preRequestStep
    split
    · split <;> exact .refl s
    · exact .refl s
  · exact blockCountStep_requests hs
  · cases hs
    unfold filterStep
    split <;> exact .refl s
  · exact .takeLock hs
  · cases hs
    exact issueStep_requests
  · cases hs
    exact .refl s
  · cases hs

/-- Without the lock a call touches neither the packages nor the command
line. -/
theorem callStep_unlocked (hs : callStep cfg k ok s = some s')
    (hl : (s.pc k).locked cfg.version = false) :
    s'.cmdPkg = s.cmdPkg ∧ s'.datPkg = s.datPkg ∧ callNote s k ok (s.pc k) = none := by
  have htake : ∀ {q : CallPc}, s.takeLock k q = some s' →
      s'.cmdPkg = s.cmdPkg ∧ s'.datPkg = s.datPkg := by
    intro q hs
    obtain ⟨-, ht⟩ := Option.ite_none_right_eq_some.mp hs
    cases ht
    exact ⟨rfl, rfl⟩
  unfold callStep at hs
  split at hs <;> rename_i hpc <;> rw [hpc] at hl ⊢
  · cases hs
  · obtain ⟨hcmd, hdat⟩ := htake hs
    exact ⟨hcmd, hdat, rfl⟩
  · cases hs
    unfold busyStep
    split
    · exact ⟨rfl, rfl, rfl⟩
    · split <;> exact ⟨rfl, rfl, rfl⟩
  · cases hs
    unfold preRequestStep
    split
    · split <;> exact ⟨rfl, rfl, rfl⟩
    · exact ⟨rfl, rfl, rfl⟩
  · rename_i q
    cases q with
    | lock =>
        obtain ⟨hcmd, hdat⟩ := htake hs
        exact ⟨hcmd, hdat, rfl⟩
    | _ => cases hl
  · cases hs
    unfold filterStep
    split <;> exact ⟨rfl, rfl, rfl⟩
  · obtain ⟨hcmd, hdat⟩ := htake hs
    exact ⟨hcmd, hdat, rfl⟩
  · cases hl
  · cases hl
  · cases hs

/-- The calls, their requests and, but for the response, the packages are the
same. -/
structure SameWork (s t : SdifState) : Prop where
  requests : SameRequests s t
  words : t.cmdPkg.words = s.cmdPkg.words
  datPkg : t.datPkg = s.datPkg
  pc : t.pc = s.pc
  subs : t.subs = s.subs
  lock : t.lock = s.lock

/-- What the interrupt handlers and the timeout leave alone. -/
structure Quiet (s t : SdifState) : Prop extends SameWork s t where
  cardNeedInit : t.cardNeedInit = s.cardNeedInit

theorem Quiet.trans (h : Quiet s t) (h' : Quiet t s') : Quiet s s' :=
  ⟨⟨fun r => (h'.requests r).trans (h.requests r), h'.words.trans h.words,
    h'.datPkg.trans h.datPkg, h'.pc.trans h.pc, h'.subs.trans h.subs, h'.lock.trans h.lock⟩,
    h'.cardNeedInit.trans h.cardNeedInit⟩

theorem Quiet.of_eq (hcmds : t.cmds = s.cmds) (hwords : t.cmdPkg.words = s.cmdPkg.words)
    (hrest : (t.datPkg, t.pc, t.subs, t.lock, t.cardNeedInit) =
      (s.datPkg, s.pc, s.subs, s.lock, s.cardNeedInit)) : Quiet s t := by
  simp only [Prod.mk.injEq] at hrest
  obtain ⟨hdat, hpc, hsubs, hlock, hneed⟩ := hrest
  exact ⟨⟨fun r => by rw [hcmds], hwords, hdat, hpc, hsubs, hlock⟩, hneed⟩

theorem retire_requests (r : ℕ) (response : Resp) (mem : Mem) (s : SdifState) :
    SameRequests s (retire cfg r response mem s) := by
  intro j
  by_cases hj : j = r
  · subst hj
    simp [retire, MmcCommand.request]
  · simp [retire, Function.update_of_ne hj]

theorem finishCommand_quiet (s : SdifState) : Quiet s (finishCommand cfg s) := by
  unfold finishCommand
  split
  · exact .of_eq rfl rfl rfl
  · split
    · split
      · rename_i response mem _ _
        exact ⟨⟨retire_requests _ response mem s, rfl, rfl, rfl, rfl, rfl⟩, rfl⟩
      · exact .of_eq rfl rfl rfl
    · exact .of_eq rfl rfl rfl

theorem noteCommandDone_quiet (resp : Resp) (s : SdifState) :
    Quiet s (noteCommandDone cfg resp s) := by
  refine .of_eq rfl ?_ rfl
  dsimp only [noteCommandDone]
  split <;> rfl

theorem commandDone_quiet (resp : Resp) (s : SdifState) :
    Quiet s (commandDone cfg resp s) := by
  unfold commandDone
  split
  · exact (noteCommandDone_quiet resp s).trans (finishCommand_quiet _)
  · exact noteCommandDone_quiet resp s

theorem dataDone_quiet (bytes : List (BitVec 8)) (s : SdifState) :
    Quiet s (dataDone cfg bytes s) := by
  have hnote : Quiet s (noteDataDone bytes s) := .of_eq rfl rfl rfl
  unfold dataDone
  split
  · exact .of_eq rfl rfl rfl
  · split
    · exact hnote.trans (finishCommand_quiet _)
    · exact hnote

theorem errorOccurred_quiet (s : SdifState) : Quiet s (errorOccurred cfg s) := by
  have hnote : Quiet s (noteError s) := by
    unfold noteError
    split <;> exact .of_eq rfl rfl rfl
  unfold errorOccurred
  split
  · exact hnote.trans (.of_eq rfl rfl rfl)
  · exact hnote

theorem timeout_quiet (s : SdifState) : Quiet s (timeout cfg s) := by
  unfold timeout
  split
  · exact .of_eq rfl rfl rfl
  · exact .of_eq rfl rfl rfl
  · split
    · exact .of_eq rfl rfl rfl
    · exact ⟨⟨fun j => request_setErr _ _ j _, rfl, rfl, rfl, rfl, rfl⟩, rfl⟩

/-- The events of the controller and the clock. -/
def SdifEvent.external : SdifEvent → Bool
  | .submit _ _ => false
  | .call _ _ => false
  | .cmdDone _ => true
  | .dataDone _ => true
  | .errOccure => true
  | .expire => true
  | .timeout => true
  | .updateIos _ _ => false

theorem eventStep_quiet {e : SdifEvent} (hs : eventStep cfg s e = some s')
    (he : e.external = true) : Quiet s s' := by
  cases e with
  | cmdDone resp =>
      cases hs
      exact commandDone_quiet resp s
  | dataDone bytes =>
      cases hs
      exact dataDone_quiet bytes s
  | errOccure =>
      cases hs
      exact errorOccurred_quiet s
  | expire =>
      obtain ⟨-, ht⟩ := Option.ite_none_right_eq_some.mp hs
      cases ht
      exact .of_eq rfl rfl rfl
  | timeout =>
      obtain ⟨-, ht⟩ := Option.ite_none_right_eq_some.mp hs
      cases ht
      exact timeout_quiet s
  | _ => cases he

/-! ### The invariant -/

/-- What holds of the calls and the record in every state. -/
structure TraceInv (cfg : SdifConfig) (s : TraceState) : Prop where
  calls : CallInv cfg s.sdif
  tracked : ∀ k, TrackedAt cfg s.sdif k (lastBus s.trace) (s.sdif.pc k)
  counts : ∀ r p, .blockCount r p ∈ s.trace → r < s.sdif.submitted ∧
    needsBlockCount cfg (s.sdif.cmds r).request = true ∧ Carries (s.sdif.cmds r).request p
  paired : ∀ pre r, pre ++ [.counted r] <+: bus s.trace → ∃ p, pre.getLast? = some (.blockCount r p)

/-- An event that is no step of a call. -/
theorem TraceInv.work {s s' : TraceState} (h : TraceInv cfg s) (hc : CallInv cfg s'.sdif)
    (hw : SameWork s.sdif s'.sdif) {i : Option TraceItem}
    (htr : s'.trace = s.trace ++ i.toList) (hi : i = none ∨ i = some .powerUp) :
    TraceInv cfg s' := by
  have hbus : bus s'.trace = bus s.trace := by
    rw [htr, bus_append]
    rcases hi with rfl | rfl <;> simp [bus, TraceItem.onBus]
  have hsub : s'.sdif.submitted = s.sdif.submitted := congrArg List.length hw.subs
  refine ⟨hc, ?_, ?_, ?_⟩
  · intro k
    have hk := h.tracked k
    unfold TrackedAt lastBus at hk ⊢
    rwa [hw.requests k, hw.words, hw.datPkg, hbus, hw.pc]
  · intro r p hmem
    have hmem' : .blockCount r p ∈ s.trace := by
      rw [htr, List.mem_append] at hmem
      rcases hmem with hmem | hmem
      · exact hmem
      · rcases hi with rfl | rfl <;> simp at hmem
    rw [hsub, hw.requests r]
    exact h.counts r p hmem'
  · rw [hbus]
    exact h.paired

/-- A new call. -/
theorem TraceInv.submit {s s' : TraceState} {bytes : List (BitVec 8)} (h : TraceInv cfg s)
    (hc : CallInv cfg s'.sdif) (hs : s'.sdif = submit cfg cmd bytes s.sdif)
    (htr : s'.trace = s.trace) : TraceInv cfg s' := by
  have hold : ∀ r, r < s.sdif.submitted → s'.sdif.cmds r = s.sdif.cmds r := by
    intro r hr
    rw [hs]
    exact Function.update_of_ne (Nat.ne_of_lt hr) ..
  have hsub : s'.sdif.submitted = s.sdif.submitted + 1 := by
    rw [hs]
    simp [Sdif.submit, SdifState.submitted]
  refine ⟨hc, ?_, ?_, ?_⟩
  · intro k
    rw [hs, submit_pc, htr]
    split
    · unfold entry
      split <;> trivial
    · rename_i hk
      by_cases hb : s.sdif.pc k = .new
      · rw [hb]
        trivial
      · have hk' := h.tracked k
        have hcmd : (s'.sdif.cmds k).request = (s.sdif.cmds k).request := by
          rw [hold k (h.calls.born hb)]
        rw [hs] at hcmd
        unfold TrackedAt at hk' ⊢
        rwa [hcmd]
  · intro r p hmem
    rw [htr] at hmem
    obtain ⟨hr, hneeds, hcarry⟩ := h.counts r p hmem
    rw [hold r hr, hsub]
    exact ⟨Nat.lt_succ_of_lt hr, hneeds, hcarry⟩
  · rw [htr]
    exact h.paired

/-- What a call may record, and where. -/
theorem callNote_cases {i : TraceItem} (h : callNote s k ok p = some i) :
    p = .blockCount .start ∧ i = .blockCount k s.cmdPkg ∨
    p = .blockCount .busy ∧ i = .counted k ∨
    p = .issue .start ∧ i = .command k (s.cmds k) s.cmdPkg s.handedData ∨
    i = .dropped k := by
  unfold callNote at h
  split at h <;> cases ok <;> cases h
  · exact Or.inl ⟨rfl, rfl⟩
  · exact Or.inr (Or.inl ⟨rfl, rfl⟩)
  · exact Or.inr (Or.inr (Or.inr rfl))
  · exact Or.inr (Or.inr (Or.inr rfl))
  · exact Or.inr (Or.inr (Or.inl ⟨rfl, rfl⟩))

/-- A step of a call. -/
theorem TraceInv.call {s s' : TraceState} (h : TraceInv cfg s) (hc : CallInv cfg s'.sdif)
    (hs : callStep cfg k ok s.sdif = some s'.sdif) (hrun : s'.sdif.panicked = false)
    (htr : s'.trace = s.trace ++ (callNote s.sdif k ok (s.sdif.pc k)).toList) :
    TraceInv cfg s' := by
  have hreq := callStep_requests hs
  have hstep := callStep_spec hs
  have hsub : s'.sdif.submitted = s.sdif.submitted := congrArg List.length hstep.subs
  have hown := h.tracked k
  refine ⟨hc, ?_, ?_, ?_⟩
  · intro j
    by_cases hjk : j = k
    · subst hjk
      rw [htr]
      exact callStep_tracked hs hrun (h.tracked j)
    · have hj := h.tracked j
      unfold TrackedAt at hj ⊢
      rw [hreq j, hstep.others j hjk]
      refine hj.frame fun hlj => ?_
      have hlk : (s.sdif.pc k).locked cfg.version = false := by
        by_contra hn
        rw [Bool.not_eq_false] at hn
        have hlock := (h.calls.locked j hlj).symm.trans (h.calls.locked k hn)
        exact hjk (Option.some.inj hlock)
      obtain ⟨hcmd, hdat, hnote⟩ := callStep_unlocked hs hlk
      rw [hcmd, hdat, htr, hnote]
      exact ⟨rfl, rfl, lastBus_append_nil _⟩
  · intro r p hmem
    rw [hsub, hreq r]
    rw [htr, List.mem_append] at hmem
    rcases hmem with hmem | hmem
    · exact h.counts r p hmem
    · rw [Option.mem_toList] at hmem
      rcases callNote_cases hmem with ⟨hpc, hi⟩ | ⟨-, hi⟩ | ⟨-, hi⟩ | hi <;> cases hi
      rw [hpc] at hown
      exact ⟨h.calls.born hstep.entered, hown.1, hown.2⟩
  · intro pre r hpre
    rw [htr, bus_append] at hpre
    cases hn : callNote s.sdif k ok (s.sdif.pc k) with
    | none =>
        rw [hn, Option.toList_none] at hpre
        exact h.paired pre r (by simpa [bus] using hpre)
    | some i =>
        rw [hn, Option.toList_some] at hpre
        cases hon : i.onBus with
        | false =>
            have hnil : bus [i] = [] := by
              simp [bus, hon]
            rw [hnil, List.append_nil] at hpre
            exact h.paired pre r hpre
        | true =>
            have hone : bus [i] = [i] := by
              simp [bus, hon]
            rw [hone] at hpre
            rcases List.prefix_concat_iff.mp hpre with heq | hpre
            · obtain ⟨rfl, hlast⟩ := List.append_inj' heq rfl
              obtain rfl := List.singleton_inj.mp hlast
              rcases callNote_cases hn with ⟨-, hi⟩ | ⟨hpc, hi⟩ | ⟨-, hi⟩ | hi <;> cases hi
              rw [hpc] at hown
              exact hown.2
            · exact h.paired pre r hpre

theorem traceStep_inv {s s' : TraceState} {e : SdifEvent} (h : TraceInv cfg s)
    (hs : traceStep cfg s e = some s') (hrun' : s'.sdif.panicked = false) : TraceInv cfg s' := by
  obtain ⟨hsdif, htr⟩ := traceStep_iff.mp hs
  obtain ⟨hrun, hevent⟩ := sdifStep_iff.mp hsdif
  have hc := eventStep_callInv h.calls hevent
  cases e with
  | submit cmd bytes =>
      exact h.submit hc (Option.some.inj hevent).symm (htr.trans (List.append_nil _))
  | call k ok => exact h.call hc hevent hrun' htr
  | updateIos powerUp useHold =>
      obtain ⟨-, ht⟩ := Option.ite_none_right_eq_some.mp hevent
      have hw : SameWork s.sdif s'.sdif := by
        rw [← Option.some.inj ht]
        exact ⟨fun _ => rfl, rfl, rfl, rfl, rfl, rfl⟩
      cases powerUp with
      | false => exact h.work hc hw htr (Or.inl rfl)
      | true => exact h.work hc hw htr (Or.inr rfl)
  | _ =>
      have hq := eventStep_quiet hevent rfl
      exact h.work hc hq.toSameWork htr (Or.inl rfl)

/-- **What is known in every state of a run.** -/
theorem trace_reachable_inv {s : TraceState} (h : (traceSystem cfg).Reachable s) :
    s.sdif.panicked = false → TraceInv cfg s := by
  refine h.invariant (P := fun s => s.sdif.panicked = false → TraceInv cfg s) ?_ ?_
  · rintro s ⟨⟨mem, need, hs⟩, htr⟩ -
    have hcalls : CallInv cfg s.sdif := sdif_reachable_callInv (.init ⟨mem, need, hs⟩)
    refine ⟨hcalls, ?_, ?_, ?_⟩
    · intro k
      rw [hs]
      trivial
    · intro r p hmem
      rw [htr] at hmem
      cases hmem
    · intro pre r hpre
      rw [htr] at hpre
      have hlen := hpre.length_le
      simp [bus] at hlen
  · intro s e s' hs hst hrun
    exact traceStep_inv (hs (sdifStep_iff.mp (traceStep_iff.mp hst).1).1) hst hrun

/-! ### At the moment a command is handed over -/

section Handing

variable {s : TraceState}

/-- The command package points to the data package of the request. -/
theorem TraceInv.handed_data (h : TraceInv cfg s) (hpc : s.sdif.pc k = .issue .start)
    {d : MmcData} (hd : (s.sdif.cmds k).data = some d) :
    ∃ built buf, dataPackage cfg (s.sdif.cmds k) d = some built ∧
      s.sdif.handedData = some { built with buf := buf } := by
  have hk := h.tracked k
  rw [hpc] at hk
  obtain ⟨-, ⟨hp, hbuilt⟩, -⟩ := hk
  have hp' : s.sdif.cmdPkg.dataP = (s.sdif.cmds k).data.isSome := hp
  obtain ⟨built, hb, hdat⟩ := hbuilt d hd
  refine ⟨built, s.sdif.datPkg.buf, hb, ?_⟩
  rw [SdifState.handedData, hp', hd, ← hdat]
  rfl

/-- Without data it points to nothing. -/
theorem TraceInv.handed_none (h : TraceInv cfg s) (hpc : s.sdif.pc k = .issue .start)
    (hd : (s.sdif.cmds k).data = none) : s.sdif.handedData = none := by
  have hk := h.tracked k
  rw [hpc] at hk
  obtain ⟨-, ⟨hp, -⟩, -⟩ := hk
  have hp' : s.sdif.cmdPkg.dataP = (s.sdif.cmds k).data.isSome := hp
  rw [SdifState.handedData, hp', hd]
  rfl

theorem TraceInv.handed_word (h : TraceInv cfg s) (hpc : s.sdif.pc k = .issue .start) :
    WordBuilt cfg (s.sdif.cmds k) s.sdif.cmdPkg := by
  have hk := h.tracked k
  rw [hpc] at hk
  exact hk.2.2

theorem TraceInv.handed_counted (h : TraceInv cfg s) (hpc : s.sdif.pc k = .issue .start)
    (hv : cfg.version = .v1) (hneeds : needsBlockCount cfg (s.sdif.cmds k) = true) :
    lastBus s.trace = some (.counted k) := by
  have hk := h.tracked k
  rw [hpc] at hk
  exact hk.1 IssuePc.noConfusion hv hneeds

/-- A completed `CMD23` stands behind the command that was sent. -/
theorem TraceInv.counted (h : TraceInv cfg s) (hlast : lastBus s.trace = some (.counted k)) :
    ∃ b q, bus s.trace = b ++ [.blockCount k q, .counted k] := by
  obtain ⟨pre, hpre⟩ := List.getLast?_eq_some_iff.mp hlast
  obtain ⟨q, hq⟩ := h.paired pre k (by rw [hpre])
  obtain ⟨b, hb⟩ := List.getLast?_eq_some_iff.mp hq
  refine ⟨b, q, ?_⟩
  rw [hpre, hb, List.append_assoc]
  rfl

theorem mem_bus_iff {i : TraceItem} : i ∈ bus tr ↔ i ∈ tr ∧ i.onBus = true :=
  List.mem_filter

end Handing

end Tracking

end Phytium.Sdif
