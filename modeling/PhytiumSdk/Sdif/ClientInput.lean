import PhytiumSdk.Sdif.CommandTrace
import PhytiumSdk.Sdif.IosMessage
import PhytiumSdk.Sdif.Service

/-!
# SDIF v2 and what its clients pass

The tables of `phytium_sdif_v2_wrapper.c` panic on a value they do not list, and
`sdif_v2_dma_prepare` over data it cannot transfer. Requests, settings and the
controller's reports come in any order here; `halted` says that a client's
request or settings have led into one of those branches. What is to hold is that
they never do, and that no request with an unlisted opcode is taken for done.
-/

namespace Phytium.Sdif

open Lib

/-- The opcodes of `sdif_v2_prepare_sd_command_flags`. -/
def sdOpcodes : List ℕ := [0, 2, 3, 6, 7, 8, 9, 11, 13, 16, 17, 18, 23, 24, 25, 41, 51, 55]

/-- The opcodes of `sdif_v2_prepare_mmc_command_flags`. -/
def mmcOpcodes : List ℕ := [0, 1, 2, 3, 6, 7, 8, 9, 13, 16, 17, 18, 23, 24, 25]

/-- The table for the card has the opcode. -/
def opcodeListed (nonRemovable : Bool) (opcode : BitVec 32) : Bool :=
  opcode.toNat ∈ if nonRemovable then mmcOpcodes else sdOpcodes

/-- A panic branch is not taken: the table has the opcode when a package is
built, and the data can be transferred. Without RTEMS `bus_dmamap_load` has to
succeed. -/
def CallServed (cfg : SdifConfig) (k : ℕ) (ok : Bool) (s : SdifState) : Prop :=
  match s.pc k with
  | .issue .package =>
      (s.cmds k).data.isSome = true → opcodeListed cfg.nonRemovable (s.cmds k).opcode = true
  | .issue .command => opcodeListed cfg.nonRemovable (s.cmds k).opcode = true
  | .issue (.dmaPrepare d) => transferable cfg d = true ∧ (cfg.rtems = true ∨ ok = true)
  | _ => True

/-- The settings that have changed, as far as they are looked at, are ones the
tables have. -/
def IosServed (nonRemovable voltOk : Bool) (s : IosState) : Prop :=
  (nonRemovable = true ∨ s.curios.vdd = s.ios.vdd ∨ s.ios.vdd.toNat ∈ [5, 20, 21]) ∧
    (nonRemovable = true ∨ s.curios.vdd = s.ios.vdd ∨ voltOk = true →
      (s.curios.busWidth = s.ios.busWidth ∨ s.ios.busWidth.toNat ∈ [0, 2, 3]) ∧
      (s.curios.timing = s.ios.timing ∨ s.ios.timing.toNat ≤ 9) ∧
      (s.curios.powerMode = s.ios.powerMode ∨ s.ios.powerMode.toNat ≤ 2))

/-! ## The driver with its clients -/

structure ClientState where
  sdif : SdifState
  ios : IosState
  /-- a client's request or settings have led to a panic -/
  halted : Bool

inductive ClientEvent where
  | driver (e : SdifEvent)
  | ios (e : IosEvent)

/-- The step of a request call. -/
def SdifEvent.isCall : SdifEvent → Bool
  | .call _ _ => true
  | _ => false

/-- `phytium_sdif_v2_update_ios` runs with the lock. -/
def IosEvent.locks : IosEvent → Bool
  | .writeIvar _ _ => false
  | .update _ _ => true

def clientStep (cfg : SdifConfig) (s : ClientState) (e : ClientEvent) : Option ClientState :=
  if s.halted || s.sdif.panicked then none
  else
    match e with
    | .driver e =>
        (sdifStep cfg s.sdif e).map fun t =>
          { s with sdif := t, halted := e.isCall && t.panicked }
    | .ios e =>
        if e.locks && s.sdif.lock.isSome then none
        else
          match iosStep cfg.nonRemovable s.ios e with
          | some t => some { s with ios := t }
          | none => some { s with halted := true }

def clientSystem (cfg : SdifConfig) : System ClientState ClientEvent where
  init := fun s => (∃ mem need, s.sdif = attached mem need) ∧ s.ios = iosAttached ∧
    s.halted = false
  step := clientStep cfg

/-- No panic, and a request with an opcode the table does not have is reported
as an error. -/
structure ClientsServed (cfg : SdifConfig) (s : ClientState) : Prop where
  running : s.halted = false
  refused : ∀ k, opcodeListed cfg.nonRemovable (s.sdif.cmds k).opcode = false →
    s.sdif.pc k ≠ .returned none

/-- The step takes no panic branch. -/
def clientOk (cfg : SdifConfig) (s : ClientState) : ClientEvent → Prop
  | .driver (.call k ok) => CallServed cfg k ok s.sdif
  | .ios (.update voltOk _) => IosServed cfg.nonRemovable voltOk s.ios
  | _ => True

variable {cfg : SdifConfig} {s s' : SdifState} {k : ℕ} {ok : Bool} {p : CallPc}
variable {cmd : MmcCommand}

/-! ## The tables -/

theorem prepareSdCommandFlags_isSome (opcode argument : BitVec 32) :
    (prepareSdCommandFlags opcode argument).isSome = decide (opcode.toNat ∈ sdOpcodes) := by
  unfold prepareSdCommandFlags
  split <;> simp_all [sdOpcodes]
  all_goals split <;> rfl

theorem prepareMmcCommandFlags_isSome (opcode argument : BitVec 32) :
    (prepareMmcCommandFlags opcode argument).isSome = decide (opcode.toNat ∈ mmcOpcodes) := by
  unfold prepareMmcCommandFlags
  split <;> simp_all [mmcOpcodes]
  split <;> rfl

/-- The tables list the opcodes, whatever the argument. -/
theorem prepareCommandFlags_isSome (nonRemovable : Bool) (opcode argument : BitVec 32) :
    (prepareCommandFlags nonRemovable opcode argument).isSome =
      opcodeListed nonRemovable opcode := by
  cases nonRemovable with
  | true => exact prepareMmcCommandFlags_isSome opcode argument
  | false => exact prepareSdCommandFlags_isSome opcode argument

theorem msgBusWidth_isSome (v : BitVec 32) :
    (msgBusWidth v).isSome = decide (v.toNat ∈ [0, 2, 3]) := by
  unfold msgBusWidth
  split <;> simp_all

theorem msgPowerMode_isSome (v : BitVec 32) :
    (msgPowerMode v).isSome = decide (v.toNat ≤ 2) := by
  unfold msgPowerMode
  split <;> simp_all
  omega

theorem msgTiming_isSome (nonRemovable : Bool) (v : BitVec 32) :
    (msgTiming nonRemovable v).isSome = decide (v.toNat ≤ 9) := by
  unfold msgTiming
  split <;> simp_all
  · split <;> rfl
  · omega

/-! ## Where a call stands -/

/-- What a call has found out about its command. -/
def Standing (cfg : SdifConfig) (cmd : MmcCommand) : CallPc → Prop
  | .blockCount _ => needsBlockCount cfg cmd = true
  | .issue (.dmaPrepare d) => cmd.data = some d
  | .issue p => 5 < p.rank .v2 → opcodeListed cfg.nonRemovable cmd.opcode = true
  | .unlock none => opcodeListed cfg.nonRemovable cmd.opcode = true
  | .returned none => opcodeListed cfg.nonRemovable cmd.opcode = true
  | _ => True

def StandingAt (cfg : SdifConfig) (s : SdifState) (k : ℕ) : Prop :=
  Standing cfg (s.cmds k).request (s.pc k)

theorem StandingAt.goto {t : SdifState} (h : Standing cfg cmd p) :
    Standing cfg cmd ((t.goto k p).pc k) := by
  rwa [goto_pc]

theorem StandingAt.takeLock (hs : s.takeLock k p = some s') (h : Standing cfg cmd p) :
    Standing cfg cmd (s'.pc k) := by
  obtain ⟨-, ht⟩ := Option.ite_none_right_eq_some.mp hs
  cases ht
  exact StandingAt.goto h

theorem StandingAt.blockCount {b : BlockCountPc} (hs : blockCountStep cfg k ok s b = some s')
    (hpc : s.pc k = .blockCount b) (h : needsBlockCount cfg cmd = true) :
    Standing cfg cmd (s'.pc k) := by
  rcases (blockCountStep_cases hs).place with ⟨-, rfl⟩ | ⟨-, ⟨b', hpc'⟩ | ⟨err, hpc'⟩⟩
  · change Standing cfg cmd (s.pc k)
    rw [hpc]
    exact h
  · rw [hpc']
    exact h
  · rw [hpc']
    trivial

/-- The opcode is looked up in `sdif_v2_prepare_command_transfer`. -/
theorem StandingAt.issue {q : IssuePc} (hv : cfg.version = .v2)
    (hrun : (issueStep cfg k ok s q).panicked = false)
    (h : Standing cfg (s.cmds k).request (.issue q)) :
    Standing cfg (s.cmds k).request ((issueStep cfg k ok s q).pc k) := by
  have hearly : ∀ {t : SdifState} {c : IssuePc}, (∀ d, c ≠ .dmaPrepare d) → c.rank .v2 ≤ 5 →
      Standing cfg (s.cmds k).request ((t.goto k (.issue c)).pc k) := by
    intro t c hc hle
    refine StandingAt.goto ?_
    cases c with
    | dmaPrepare d => exact absurd rfl (hc d)
    | _ => exact fun hlt => absurd hlt (Nat.not_lt.mpr hle)
  cases q with
  | setReq => exact hearly (fun _ => IssuePc.noConfusion) (by decide)
  | setCurcmd => exact hearly (fun _ => IssuePc.noConfusion) (by decide)
  | setError => exact hearly (fun _ => IssuePc.noConfusion) (by decide)
  | package =>
      revert hrun
      dsimp only [issueStep, packageStep]
      rw [hv]
      dsimp only
      split
      · intro _
        exact hearly (fun _ => IssuePc.noConfusion) (by decide)
      · rename_i d hd
        split
        · intro hrun
          cases hrun
        · intro _
          exact StandingAt.goto hd
  | dmaPrepare d =>
      dsimp only [issueStep] at hrun ⊢
      have hafter : ∀ {t : SdifState}, Standing cfg (s.cmds k).request
          ((t.goto k (.issue (afterPrepare cfg))).pc k) := by
        intro t
        rw [afterPrepare, hv]
        exact hearly (fun _ => IssuePc.noConfusion) (by decide)
      rcases dmaPrepareStep_cases cfg k ok d s with hstep | ⟨-, mem, buf, ring, hstep⟩ |
        ⟨-, hstep⟩
      · rw [hstep] at hrun
        cases hrun
      · rw [hstep]
        exact hafter
      · rw [hstep]
        exact StandingAt.goto trivial
  | command =>
      dsimp only [issueStep] at hrun ⊢
      rcases commandStep_cases cfg k s with ⟨-, hstep⟩ | ⟨pkg, hpkg, hstep⟩
      · rw [hstep] at hrun
        cases hrun
      · rw [hstep]
        refine StandingAt.goto fun _ => ?_
        obtain ⟨f, hf, -⟩ := Option.map_eq_some_iff.mp hpkg
        change opcodeListed cfg.nonRemovable (s.cmds k).opcode = true
        rw [← prepareCommandFlags_isSome _ _ (s.cmds k).arg, hf]
        rfl
  | setExpect =>
      have hlisted := h (by decide)
      refine StandingAt.goto ?_
      rw [afterFlags, hv]
      exact fun _ => hlisted
  | start =>
      have hlisted := h (by decide)
      dsimp only [issueStep, startStep]
      split
      · exact StandingAt.goto fun _ => hlisted
      · rw [hv]
        exact StandingAt.goto hlisted
  | arm => exact StandingAt.goto (h (by decide))
  | _ => exact StandingAt.goto fun _ => h (by decide)

theorem callStep_standing (hv : cfg.version = .v2) (hs : callStep cfg k ok s = some s')
    (hrun : s'.panicked = false) (h : StandingAt cfg s k) : StandingAt cfg s' k := by
  unfold StandingAt at h ⊢
  rw [callStep_requests hs k]
  unfold callStep at hs
  split at hs <;> rename_i hpc <;> rw [hpc] at h
  · cases hs
  · exact StandingAt.takeLock hs trivial
  · cases hs
    unfold busyStep
    split
    · exact StandingAt.goto trivial
    · split <;> exact StandingAt.goto trivial
  · cases hs
    unfold preRequestStep
    split
    · rename_i hneeds
      split <;> exact StandingAt.goto hneeds
    · exact StandingAt.goto trivial
  · exact StandingAt.blockCount hs hpc h
  · cases hs
    unfold filterStep
    split
    · exact StandingAt.goto trivial
    · exact StandingAt.goto trivial
    · exact StandingAt.goto fun hlt => absurd hlt (by decide)
    · exact StandingAt.goto trivial
  · exact StandingAt.takeLock hs fun hlt => absurd hlt (by decide)
  · cases hs
    exact StandingAt.issue hv hrun h
  · rename_i err
    cases hs
    refine StandingAt.goto ?_
    cases err with
    | none => exact h
    | some e => trivial
  · cases hs

/-! ## One step -/

/-- The package of the block count command is always built. -/
theorem blockCountPkg_isSome (hv : cfg.version = .v2) (hneeds : needsBlockCount cfg cmd = true)
    (useHold : Bool) : (cmd.data.bind (blockCountPkg cfg useHold)).isSome = true := by
  unfold needsBlockCount at hneeds
  rw [Bool.and_eq_true] at hneeds
  obtain ⟨d, hd⟩ := Option.isSome_iff_exists.mp hneeds.2
  rw [hd, Option.bind_some, blockCountPkg, hv]
  simp [prepareCommandTransfer, prepareCommandFlags_setBlockCount]

theorem takeLock_panicked (hs : s.takeLock k p = some s') : s'.panicked = s.panicked := by
  obtain ⟨-, ht⟩ := Option.ite_none_right_eq_some.mp hs
  cases ht
  rfl

theorem blockCountStep_panicked {b : BlockCountPc} (hv : cfg.version = .v2)
    (hs : blockCountStep cfg k ok s b = some s')
    (h : needsBlockCount cfg (s.cmds k) = true) : s'.panicked = s.panicked := by
  rcases (blockCountStep_cases hs).place with ⟨hnone, -⟩ | ⟨hrun, -⟩
  · have hsome := blockCountPkg_isSome hv h s.useHold
    rw [hnone] at hsome
    cases hsome
  · exact hrun

theorem prepareDataTransfer_isSome (cfg : SdifConfig) (cmd : MmcCommand) (d : MmcData) :
    (prepareDataTransfer cfg.masks cfg.nonRemovable cmd d).isSome =
      opcodeListed cfg.nonRemovable cmd.opcode := by
  rw [prepareDataTransfer, prepareRawCommand, Option.isSome_map, Option.isSome_map,
    prepareCommandFlags_isSome]

theorem prepareCommandTransfer_isSome (cfg : SdifConfig) (opcode argument : BitVec 32) :
    (prepareCommandTransfer cfg.masks cfg.nonRemovable opcode argument).isSome =
      opcodeListed cfg.nonRemovable opcode := by
  rw [prepareCommandTransfer, Option.isSome_map, prepareCommandFlags_isSome]

theorem packageStep_panicked_iff (hv : cfg.version = .v2) (hrun : s.panicked = false) :
    (packageStep cfg k s).panicked = false ↔
      ((s.cmds k).data.isSome = true →
        opcodeListed cfg.nonRemovable (s.cmds k).opcode = true) := by
  unfold packageStep
  rw [hv]
  dsimp only
  split
  · rename_i hd
    rw [hd]
    exact iff_of_true hrun fun hn => Bool.noConfusion hn
  · rename_i d hd
    rw [hd]
    have hlisted := prepareDataTransfer_isSome cfg (s.cmds k) d
    split
    · rename_i hnone
      rw [hnone] at hlisted
      rw [← hlisted]
      exact iff_of_false (fun hp => Bool.noConfusion hp) fun h => Bool.noConfusion (h rfl)
    · rename_i pkg hpkg
      rw [hpkg] at hlisted
      rw [← hlisted]
      exact iff_of_true hrun fun _ => rfl

theorem dmaPrepareStep_panicked_iff {d : MmcData} (hv : cfg.version = .v2)
    (hrun : s.panicked = false) :
    (dmaPrepareStep cfg k ok d s).panicked = false ↔
      transferable cfg d = true ∧ (cfg.rtems = true ∨ ok = true) := by
  have hdma : cfg.usesDma = true := by simp [SdifConfig.usesDma, hv]
  unfold dmaPrepareStep transferable
  rw [if_pos hdma]
  cases hr : cfg.rtems with
  | true =>
      rw [if_pos rfl, if_pos rfl]
      split
      · rename_i hbig
        refine iff_of_false (fun hp => Bool.noConfusion hp) ?_
        simp [hbig.1, Nat.not_le.mpr hbig.2]
      · rename_i hfits
        rw [not_and_or, not_not, Nat.not_lt] at hfits
        have hroom : (d.data % cfg.dmaBufAligment == 0 || decide (d.len ≤ cfg.alignedDmaBufLen)) =
            true := by simpa using hfits
        cases ok with
        | false => exact iff_of_true hrun ⟨hroom, Or.inl rfl⟩
        | true => exact iff_of_true hrun ⟨hroom, Or.inl rfl⟩
  | false =>
      rw [if_neg Bool.false_ne_true, if_neg Bool.false_ne_true]
      split
      · rename_i hnull
        refine iff_of_false (fun hp => Bool.noConfusion hp) ?_
        simp [hnull]
      · rename_i hdata
        have hptr : (d.data != 0) = true := by simpa using hdata
        cases ok with
        | false => exact iff_of_false (fun hp => Bool.noConfusion hp) (by simp)
        | true => exact iff_of_true hrun ⟨hptr, Or.inr rfl⟩

theorem commandStep_panicked_iff (hrun : s.panicked = false) :
    (commandStep cfg k s).panicked = false ↔
      opcodeListed cfg.nonRemovable (s.cmds k).opcode = true := by
  have hlisted := prepareCommandTransfer_isSome cfg (s.cmds k).opcode (s.cmds k).arg
  rcases commandStep_cases cfg k s with ⟨hnone, hstep⟩ | ⟨pkg, hpkg, hstep⟩
  · rw [hnone] at hlisted
    rw [← hlisted, hstep]
    exact iff_of_false (fun hp => Bool.noConfusion hp) fun h => Bool.noConfusion h
  · rw [hpkg] at hlisted
    rw [← hlisted, hstep]
    exact iff_of_true hrun rfl

/-- **A step of a call** panics just when it is not served. -/
theorem callStep_panicked_iff (hv : cfg.version = .v2) (h : StandingAt cfg s k)
    (hrun : s.panicked = false) (hs : callStep cfg k ok s = some s') :
    s'.panicked = false ↔ CallServed cfg k ok s := by
  have hsame : s'.panicked = s.panicked → CallServed cfg k ok s →
      (s'.panicked = false ↔ CallServed cfg k ok s) := by
    intro hp hserved
    rw [hp]
    exact iff_of_true hrun hserved
  unfold StandingAt at h
  unfold CallServed at hsame ⊢
  unfold callStep at hs
  split at hs <;> rename_i hpc <;> rw [hpc] at h hsame ⊢
  · cases hs
  · exact hsame (takeLock_panicked hs) trivial
  · cases hs
    refine hsame ?_ trivial
    unfold busyStep
    split
    · rfl
    · split <;> rfl
  · cases hs
    refine hsame ?_ trivial
    unfold preRequestStep
    split
    · split <;> rfl
    · rfl
  · exact hsame (blockCountStep_panicked hv hs h) trivial
  · cases hs
    refine hsame ?_ trivial
    unfold filterStep
    split <;> rfl
  · exact hsame (takeLock_panicked hs) trivial
  · rename_i q
    cases hs
    cases q with
    | package => exact packageStep_panicked_iff hv hrun
    | dmaPrepare d => exact dmaPrepareStep_panicked_iff hv hrun
    | command => exact commandStep_panicked_iff hrun
    | start =>
        refine hsame ?_ trivial
        dsimp only [issueStep, startStep]
        split
        · rfl
        · split <;> rfl
    | _ => exact hsame rfl trivial
  · cases hs
    exact hsame rfl trivial
  · cases hs

/-- `sdif_v2_prepare_update_ios`, called for a setting that has changed. -/
theorem patchIos_isSome (nonRemovable : Bool) (type : IosType) (c v : BitVec 32)
    (m : SetIosMsg) :
    (patchIos nonRemovable type c v m).isSome = true ↔
      c = v ∨ match type with
        | .powerMode => v.toNat ≤ 2
        | .busWidth => v.toNat ∈ [0, 2, 3]
        | .timing => v.toNat ≤ 9
        | .clock => True := by
  unfold patchIos
  split
  · rename_i hsame
    exact iff_of_true rfl (Or.inl hsame)
  · rename_i hchanged
    rw [or_iff_right hchanged]
    cases type with
    | powerMode => rw [prepareUpdateIos, Option.isSome_map, msgPowerMode_isSome, decide_eq_true_iff]
    | busWidth => rw [prepareUpdateIos, Option.isSome_map, msgBusWidth_isSome, decide_eq_true_iff]
    | timing => rw [prepareUpdateIos, Option.isSome_map, msgTiming_isSome, decide_eq_true_iff]
    | clock => exact iff_of_true rfl trivial

/-- One thing after the other succeeds. -/
theorem isSome_bind_iff {α β : Type*} {o : Option α} {f : α → Option β} {P : Prop}
    (h : ∀ a, (f a).isSome = true ↔ P) : (o.bind f).isSome = true ↔ o.isSome = true ∧ P := by
  cases o with
  | none => simp
  | some a => simpa using h a

theorem targetIos_isSome (nonRemovable : Bool) (s : IosState) :
    (targetIos nonRemovable s).isSome = true ↔
      (s.curios.busWidth = s.ios.busWidth ∨ s.ios.busWidth.toNat ∈ [0, 2, 3]) ∧
      (s.curios.timing = s.ios.timing ∨ s.ios.timing.toNat ≤ 9) ∧
      (s.curios.powerMode = s.ios.powerMode ∨ s.ios.powerMode.toNat ≤ 2) := by
  have hpatch := fun type c v m => patchIos_isSome nonRemovable type c v m
  have htiming := fun m => (isSome_bind_iff fun m' =>
    hpatch .powerMode s.curios.powerMode s.ios.powerMode m').trans
      (and_congr_left' (hpatch .timing s.curios.timing s.ios.timing m))
  have hwidth := fun m => (isSome_bind_iff htiming).trans
    (and_congr_left' (hpatch .busWidth s.curios.busWidth s.ios.busWidth m))
  have hclock := (isSome_bind_iff hwidth).trans
    (and_congr_left' (hpatch .clock s.curios.clock s.ios.clock s.curMsg))
  exact hclock.trans (and_iff_right (Or.inr trivial))

theorem prepareUpdateVoltage_isSome (v : BitVec 32) :
    (prepareUpdateVoltage v).isSome = decide (v.toNat ∈ [5, 20, 21]) := by
  have hnat : ∀ c : BitVec 32, v = c ↔ v.toNat = c.toNat := fun c => BitVec.toNat_inj.symm
  unfold prepareUpdateVoltage
  simp only [hnat, vdd180, vdd330, vdd340, BitVec.toNat_ofNat]
  split
  · simp_all
  · split <;> simp_all

/-- **A call of `phytium_sdif_v2_update_ios`** returns just when it is served. -/
theorem updateIosV2_isSome_iff (nonRemovable voltOk ok : Bool) (s : IosState) :
    (updateIosV2 nonRemovable voltOk ok s).isSome = true ↔ IosServed nonRemovable voltOk s := by
  have htarget : ((targetIos nonRemovable s).bind fun target =>
      if ok then some ((⟨s.ios, s.ios, target, some (s.ios, target)⟩ : IosState), none)
      else some (s, some Errno.eio)).isSome = true ↔
        (targetIos nonRemovable s).isSome = true := by
    refine (isSome_bind_iff (P := True) fun target => ?_).trans (and_iff_left trivial)
    split <;> simp
  unfold updateIosV2 updateVolt IosServed
  by_cases hkeep : nonRemovable = true ∨ s.curios.vdd = s.ios.vdd
  · have hgoes : nonRemovable = true ∨ s.curios.vdd = s.ios.vdd ∨ voltOk = true :=
      hkeep.imp_right Or.inl
    have hlisted : nonRemovable = true ∨ s.curios.vdd = s.ios.vdd ∨
        s.ios.vdd.toNat ∈ [5, 20, 21] := hkeep.imp_right Or.inl
    rw [if_pos hkeep, and_iff_right hlisted, imp_iff_right hgoes, ← targetIos_isSome]
    exact htarget
  · obtain ⟨hrem, hchanged⟩ := not_or.mp hkeep
    rw [if_neg hkeep, or_iff_right hrem, or_iff_right hchanged, or_iff_right hrem,
      or_iff_right hchanged]
    have hvolt := prepareUpdateVoltage_isSome s.ios.vdd
    cases hv : prepareUpdateVoltage s.ios.vdd with
    | none =>
        rw [hv] at hvolt
        have hno : s.ios.vdd.toNat ∉ [5, 20, 21] := of_decide_eq_false hvolt.symm
        exact iff_of_false (fun hp => Bool.noConfusion hp) fun h => hno h.1
    | some volt =>
        rw [hv] at hvolt
        have hyes : s.ios.vdd.toNat ∈ [5, 20, 21] := of_decide_eq_true hvolt.symm
        rw [and_iff_right hyes, ← targetIos_isSome]
        cases voltOk with
        | false => exact iff_of_true rfl fun hn => Bool.noConfusion hn
        | true =>
            rw [imp_iff_right rfl]
            exact htarget

/-! ## Every run -/

/-- No panic so far, and the calls stand where they should. -/
structure ClientInv (cfg : SdifConfig) (s : ClientState) : Prop where
  running : s.halted = false
  standing : ∀ k, StandingAt cfg s.sdif k

theorem StandingAt.frame {t : SdifState} (h : StandingAt cfg s k) (hpc : t.pc k = s.pc k)
    (hreq : (t.cmds k).request = (s.cmds k).request) : StandingAt cfg t k := by
  unfold StandingAt at h ⊢
  rwa [hpc, hreq]

/-- A step of the driver that does not panic in a call. -/
theorem eventStep_standing {e : SdifEvent} (hv : cfg.version = .v2)
    (hs : eventStep cfg s e = some s') (hrun : e.isCall = true → s'.panicked = false)
    (h : ∀ k, StandingAt cfg s k) : ∀ k, StandingAt cfg s' k := by
  intro j
  cases e with
  | submit cmd bytes =>
      cases hs
      rcases eq_or_ne j s.submitted with rfl | hj
      · unfold StandingAt
        rw [submit_pc, if_pos rfl, entry, hv]
        trivial
      · refine (h j).frame ?_ ?_
        · rw [submit_pc, if_neg hj]
        · simp only [submit, Function.update_of_ne hj]
  | call k ok =>
      rcases eq_or_ne j k with rfl | hj
      · exact callStep_standing hv hs (hrun rfl) (h j)
      · exact (h j).frame ((callStep_spec hs).others j hj) (callStep_requests hs j)
  | updateIos powerUp useHold =>
      obtain ⟨-, ht⟩ := Option.ite_none_right_eq_some.mp hs
      cases ht
      exact (h j).frame rfl rfl
  | _ =>
      have hquiet := eventStep_quiet hs rfl
      exact (h j).frame (congrFun hquiet.pc j) (hquiet.requests j)

/-- **One step**: it halts the driver just when it is not served. -/
theorem ClientInv.step {s s' : ClientState} {e : ClientEvent} (hv : cfg.version = .v2)
    (h : ClientInv cfg s) (hs : clientStep cfg s e = some s') :
    (s'.halted = false ↔ clientOk cfg s e) ∧
      (s'.halted = false → ∀ k, StandingAt cfg s'.sdif k) := by
  unfold clientStep at hs
  split at hs
  · cases hs
  · rename_i hgo
    rw [Bool.or_eq_true, not_or, Bool.not_eq_true, Bool.not_eq_true] at hgo
    cases e with
    | driver e =>
        obtain ⟨t, ht, rfl⟩ := Option.map_eq_some_iff.mp hs
        have hevent := (sdifStep_iff.mp ht).2
        refine ⟨?_, fun hrun => ?_⟩
        · cases e with
          | call k ok => exact callStep_panicked_iff hv (h.standing k) hgo.2 hevent
          | _ => exact iff_of_true rfl trivial
        · refine eventStep_standing hv hevent (fun hcall => ?_) h.standing
          have hboth : (e.isCall && t.panicked) = false := hrun
          rwa [hcall, Bool.true_and] at hboth
    | ios e =>
        dsimp only at hs
        split at hs
        · cases hs
        · cases e with
          | writeIvar which value =>
              cases hs
              exact ⟨iff_of_true h.running trivial, fun _ => h.standing⟩
          | update voltOk ok =>
              have hserved := updateIosV2_isSome_iff cfg.nonRemovable voltOk ok s.ios
              cases hcall : updateIosV2 cfg.nonRemovable voltOk ok s.ios with
              | none =>
                  rw [hcall] at hserved
                  simp only [iosStep, hcall, Option.map_none] at hs
                  cases hs
                  refine ⟨iff_of_false (fun hn => Bool.noConfusion hn) ?_,
                    fun hn => Bool.noConfusion hn⟩
                  exact fun hok => Bool.noConfusion (hserved.mpr hok)
              | some r =>
                  rw [hcall] at hserved
                  simp only [iosStep, hcall, Option.map_some] at hs
                  cases hs
                  exact ⟨iff_of_true h.running (hserved.mp rfl), fun _ => h.standing⟩

theorem ClientInv.served {s : ClientState} (h : ClientInv cfg s) : ClientsServed cfg s := by
  refine ⟨h.running, ?_⟩
  intro k hlisted hpc
  have hstand := h.standing k
  unfold StandingAt at hstand
  rw [hpc] at hstand
  exact Bool.false_ne_true (hlisted.symm.trans hstand)

theorem clientInv_init {s : ClientState} (h : (clientSystem cfg).init s) : ClientInv cfg s := by
  obtain ⟨⟨mem, need, hsdif⟩, -, hrun⟩ := h
  refine ⟨hrun, fun k => ?_⟩
  rw [hsdif]
  trivial

/-- **Clients are served** along a run of the second driver if and only if every
step of a call and every update of the settings in it is. -/
theorem clients_served_iff (cfg : SdifConfig) (hv : cfg.version = .v2) {s₀ : ClientState}
    (h₀ : (clientSystem cfg).init s₀) (es : List ClientEvent) :
    (clientSystem cfg).Always s₀ es (ClientsServed cfg) ↔
      (clientSystem cfg).Meets (clientOk cfg) s₀ es := by
  classical
  have hinv : ∀ t, ((clientSystem cfg).restrict (clientOk cfg)).Reachable t →
      ClientInv cfg t := by
    intro t ht
    refine ht.restrict_invariant (P := ClientInv cfg) (fun t h => clientInv_init h) ?_
    intro t e t' _ hP hok hst
    obtain ⟨hiff, hstand⟩ := hP.step hv hst
    exact ⟨hiff.mpr hok, hstand (hiff.mpr hok)⟩
  refine System.always_iff_meets h₀ (fun t ht => (hinv t ht).served) ?_ es
  intro t e t' ht hn hst hserved
  exact hn (((hinv t ht).step hv hst).1.mp hserved.running)

/-- In the RTEMS build all data of the size the driver announces can be
transferred. -/
theorem transferable_of_len {d : MmcData} (hr : cfg.rtems = true)
    (hbuf : cfg.alignedDmaBufLen = sdifMaxData cfg.version * mmcSectorSize)
    (hlen : d.len ≤ sdifMaxData cfg.version * mmcSectorSize) : transferable cfg d = true := by
  unfold transferable
  split
  · rw [hbuf, decide_eq_true hlen, Bool.or_true]
  · rfl

/-- A client of a driver that has just been attached. -/
def clientAttached : ClientState := ⟨attached (fun _ => 0#8) false, iosAttached, false⟩

/-- A bus width of 4 is asked for, and set. -/
theorem clients_served_width4 :
    (clientSystem (sampleSdif .v2)).Always clientAttached
      [.ios (.writeIvar .busWidth busWidth4), .ios (.update true true)]
      (ClientsServed (sampleSdif .v2)) := by
  refine (clients_served_iff (sampleSdif .v2) rfl ⟨⟨_, _, rfl⟩, rfl, rfl⟩ _).mpr ?_
  refine System.meets_cons.mpr ?_
  rintro t ⟨⟩
  refine ⟨trivial, System.meets_cons.mpr ?_⟩
  intro t' _
  refine ⟨⟨Or.inr (Or.inl rfl), fun _ => ?_⟩, System.meets_nil t'⟩
  exact ⟨Or.inr (by decide), Or.inl rfl, Or.inl rfl⟩

/-- `MMC_ERASE` -/
def eraseCommand : MmcCommand :=
  ⟨38#32, 0#32, true, false, true, none, ⟨0#32, 0#32, 0#32, 0#32⟩, .none⟩

/-- An erase halts the system, and so does a timing the table ends before. -/
theorem clients_not_served :
    (¬ ∀ s, (clientSystem (sampleSdif .v2)).Reachable s → ClientsServed (sampleSdif .v2) s) ∧
      ((clientSystem (sampleSdif .v2)).run clientAttached
        [.ios (.writeIvar .timing 10#32), .ios (.update true true)]).map ClientState.halted =
          some true := by
  constructor
  · intro h
    have hreach : ∀ es s, (clientSystem (sampleSdif .v2)).run clientAttached es = some s →
        (clientSystem (sampleSdif .v2)).Reachable s :=
      fun _ _ hs => System.reachable_of_run _ ⟨⟨_, _, rfl⟩, rfl, rfl⟩ hs
    have hserved := h _ (hreach (.driver (.submit eraseCommand []) ::
      (calls 0 9).map ClientEvent.driver) _ rfl)
    exact absurd hserved.running (by decide)
  · rfl

end Phytium.Sdif
