import PhytiumSdk.Sdif.BlockCount
import PhytiumSdk.Sdif.ErrorReport

/-!
# SDIF: the end of a transfer of several blocks

A transfer of several blocks ends by its count, which `CMD23` tells the card, or
by the automatic stop. `sdif_pre_request` chooses the first, and the builder of
the raw command the second; the second driver never asks for the automatic stop.

`CMD23` and the command it is for are two commands, and what is between them is
the driver's to keep empty. A call can give up its request there, and in the
second driver it lets go of the lock. `CountInv` says where the call stands whose
`CMD23` is the last thing on the command line, in runs in which no call gives up
there and no other call takes the lock meanwhile.
-/

namespace Phytium.Sdif

open Lib Lib.Mask

variable {cfg : SdifConfig} {s : TraceState} {k : ℕ} {cmd : MmcCommand}

/-! ## Bounded transfers -/

/-- One of the raw commands asks for the automatic stop. -/
def stops (K : CmdMasks) (pkg : CmdPkg) (dat : Option DatPkg) : Bool :=
  has pkg.rawcmd K.sendStop || dat.any fun p => has p.rawcmd K.sendStop

/-- A `CMD23` with the count of the transfer has been completed for the request,
and nothing has been on the command line since. -/
def Told (pre : List TraceItem) (k : ℕ) (dat : Option DatPkg) : Prop :=
  ∃ b q, bus pre = b ++ [.blockCount k q, .counted k] ∧
    ∀ p, dat = some p → (q.cmdarg &&& 0xFFFF#32).toNat = p.blkcnt

/-- No `CMD23` was sent for the request. -/
def Untold (pre : List TraceItem) (k : ℕ) : Prop := ∀ q, .blockCount k q ∉ pre

/-- The last thing on the command line is a `CMD23` of request `r`. -/
def EndsInCount (pre : List TraceItem) (r : ℕ) : Prop :=
  lastBus pre = some (.counted r) ∨ ∃ q, lastBus pre = some (.blockCount r q)

/-- The last thing on the command line is a `CMD23`. -/
def AfterCount (pre : List TraceItem) : Prop := ∃ r, EndsInCount pre r

/-- The request transfers several blocks. -/
def transfersBlocks (cmd : MmcCommand) : Bool := multiBlock cmd.opcode && cmd.data.isSome

/-- A transfer of several blocks ends in one of the two ways, and no other
command with either. -/
def Bounded (K : CmdMasks) (pre : List TraceItem) (k : ℕ) (cmd : MmcCommand) (pkg : CmdPkg)
    (dat : Option DatPkg) : Prop :=
  if transfersBlocks cmd then
    Xor (Told pre k dat ∧ stops K pkg dat = false) (Untold pre k ∧ stops K pkg dat = true)
  else stops K pkg dat = false ∧ Untold pre k ∧ ¬ AfterCount pre

/-- The build and the request go together: the first driver has the automatic
stop, or a count that `CMD23` can tell; the second one does without the automatic
stop and has a count that `CMD23` can tell. -/
def BoundedWhen (cfg : SdifConfig) (cmd : MmcCommand) : Prop :=
  multiBlock cmd.opcode = true → ∀ d ∈ cmd.data,
    match cfg.version with
    | .v1 => cfg.autoStop = true ∨ mmcSectorSize ≤ d.len ∧ d.len / mmcSectorSize < 2 ^ 16
    | .v2 => cfg.autoStop = false ∧ d.len / mmcSectorSize < 2 ^ 16

/-! ## Between `CMD23` and the command -/

/-- A step from here may fail. -/
def CallPc.mayFail : CallPc → Bool
  | .blockCount .poll => true
  | .blockCount .busy => true
  | .issue (.dmaPrepare _) => true
  | .issue .start => true
  | _ => false

/-- The call stands between the lock around `CMD23` and the lock around the
command, if it has sent a `CMD23`. -/
def CallPc.between : CallPc → Bool
  | .filter none => true
  | .mainLock => true
  | _ => false

/-- `sdif_set_block_count` has succeeded, if it was called, and the command has not
been handed over. -/
def CallPc.announced : CallPc → Bool
  | .blockCount (.exit none) => true
  | .filter none => true
  | .mainLock => true
  | .issue .arm => false
  | .issue _ => true
  | _ => false

/-- `CMD23` has been started, if one was needed, and the command has not been
handed over. -/
def CallPc.counting : CallPc → Bool
  | .blockCount .poll => true
  | .blockCount .busy => true
  | p => p.announced

/-- No call gives its request up behind its `CMD23`. -/
def noneGivenUp (cfg : SdifConfig) (s : TraceState) : SdifEvent → Prop
  | .call k ok =>
      needsBlockCount cfg (s.sdif.cmds k) = true → (s.sdif.pc k).mayFail = true → ok = true
  | _ => True

/-- No call takes the lock while another one is between its `CMD23` and its
command. -/
def lockLeft (cfg : SdifConfig) (s : TraceState) : SdifEvent → Prop
  | .call k _ => (s.sdif.pc k).locking = true → ∀ r < s.sdif.submitted, r ≠ k →
      needsBlockCount cfg (s.sdif.cmds r) = true → (s.sdif.pc r).between = false
  | _ => True

instance (cfg : SdifConfig) (s : TraceState) : (e : SdifEvent) → Decidable (noneGivenUp cfg s e)
  | .call k ok =>
      inferInstanceAs (Decidable (needsBlockCount cfg (s.sdif.cmds k) = true →
        (s.sdif.pc k).mayFail = true → ok = true))
  | .submit _ _ | .cmdDone _ | .dataDone _ | .errOccure | .expire | .timeout | .updateIos _ _ =>
      isTrue trivial

instance (cfg : SdifConfig) (s : TraceState) : (e : SdifEvent) → Decidable (lockLeft cfg s e)
  | .call k _ =>
      inferInstanceAs (Decidable ((s.sdif.pc k).locking = true → ∀ r < s.sdif.submitted, r ≠ k →
        needsBlockCount cfg (s.sdif.cmds r) = true → (s.sdif.pc r).between = false))
  | .submit _ _ | .cmdDone _ | .dataDone _ | .errOccure | .expire | .timeout | .updateIos _ _ =>
      isTrue trivial

theorem CallPc.announced_of_between {p : CallPc} (h : p.between = true) : p.announced = true := by
  unfold between at h
  split at h
  · rfl
  · rfl
  · cases h

theorem CallPc.counting_of_announced {p : CallPc} (h : p.announced = true) :
    p.counting = true := by
  unfold counting
  split
  · rfl
  · rfl
  · exact h

/-- Without the lock it is between the two. -/
theorem CallPc.between_of_counting {p : CallPc} {v : Version} (h : p.counting = true)
    (hl : p.locked v = false) : p.between = true := by
  cases p with
  | blockCount p => cases p <;> first | exact Bool.noConfusion hl | exact Bool.noConfusion h
  | filter err => cases err <;> first | rfl | cases h
  | mainLock => rfl
  | issue p => cases hl
  | _ => cases h

theorem not_skipped_of_needs (h : needsBlockCount cfg cmd = true) : skipped cfg cmd = false := by
  unfold needsBlockCount at h
  simp only [Bool.and_eq_true, Bool.not_eq_true'] at h
  have hop : cmd.opcode = mmcReadMultipleBlock ∨ cmd.opcode = mmcWriteMultipleBlock := by
    simpa [multiBlock] using h.1.2
  unfold skipped
  rcases hop with hop | hop <;> rw [hop] <;> simp +decide

/-! ## One step of a call -/

section Counting

variable {t t' : SdifState} {ok : Bool}

/-- What a step does to a call that needs a `CMD23`, and what it puts on record: it
is away from the stretch between the two commands, or it goes through it. -/
inductive CountingStep (t : SdifState) (k : ℕ) (p q : CallPc) (i : Option TraceItem) : Prop where
  | away (hp : p.counting = false) (hq : q.counting = false) (hi : i = none)
  | start (hq : q = .blockCount .poll) (hi : i = some (.blockCount k t.cmdPkg))
  | poll (hp : p = .blockCount .poll) (hq : q = .blockCount .busy) (hi : i = none)
  | counted (hq : q = .blockCount (.exit none)) (hi : i = some (.counted k))
  | onward (hp : p.announced = true) (hq : q.announced = true) (hi : i = none)
  | handed (hq : q = .issue .arm)
      (hi : i = some (.command k (t.cmds k) t.cmdPkg t.handedData))

theorem CountingStep.leave {p q : CallPc} {i : Option TraceItem} (hp : p.counting = false)
    (hq : q.counting = false) (hi : i = none) :
    CountingStep t k p ((t'.goto k q).pc k) i := by
  rw [goto_pc]
  exact .away hp hq hi

theorem CountingStep.go {p q : CallPc} {i : Option TraceItem} (hp : p.announced = true)
    (hq : q.announced = true) (hi : i = none) :
    CountingStep t k p ((t'.goto k q).pc k) i := by
  rw [goto_pc]
  exact .onward hp hq hi

theorem announced_afterPrepare : (CallPc.issue (afterPrepare cfg)).announced = true := by
  unfold afterPrepare
  split <;> rfl

theorem announced_afterFlags : (CallPc.issue (afterFlags cfg cmd)).announced = true := by
  unfold afterFlags
  split
  · split <;> rfl
  · rfl

theorem takeLock_pc {p : CallPc} (hs : t.takeLock k p = some t') : t'.pc k = p := by
  obtain ⟨-, ht⟩ := Option.ite_none_right_eq_some.mp hs
  cases ht
  exact goto_pc ..

theorem blockCountStep_counting {p : BlockCountPc} (hs : blockCountStep cfg k ok t p = some t')
    (hrun : t'.panicked = false) (hok : (CallPc.blockCount p).mayFail = true → ok = true) :
    CountingStep t k (.blockCount p) (t'.pc k) (callNote t k ok (.blockCount p)) := by
  cases p with
  | lock =>
      rw [takeLock_pc hs]
      exact .away rfl rfl rfl
  | package =>
      dsimp only [blockCountStep] at hs
      split at hs
      · cases hs
        cases hrun
      · cases hs
        exact .leave rfl rfl rfl
  | start =>
      dsimp only [blockCountStep] at hs
      cases ok with
      | true =>
          cases hs
          exact .start (goto_pc ..) rfl
      | false =>
          cases hs
          exact .leave rfl rfl rfl
  | poll =>
      obtain rfl := hok rfl
      dsimp only [blockCountStep] at hs
      split at hs
      · cases hs
      · cases hs
        exact .poll rfl (goto_pc ..) rfl
  | busy =>
      obtain rfl := hok rfl
      cases hs
      exact .counted (goto_pc ..) rfl
  | exit err =>
      have hstep : CountingStep t k (.blockCount (.exit err)) (.filter err) none := by
        cases err with
        | none => exact .onward rfl rfl rfl
        | some e => exact .away rfl rfl rfl
      dsimp only [blockCountStep] at hs
      split at hs <;> cases hs
      · rw [goto_pc]
        exact hstep
      · rw [SdifState.dropLock, goto_pc]
        exact hstep
  | _ =>
      cases hs
      exact .leave rfl rfl rfl

theorem issueStep_counting {p : IssuePc} (hrun : (issueStep cfg k ok t p).panicked = false)
    (hok : (CallPc.issue p).mayFail = true → ok = true) :
    CountingStep t k (.issue p) ((issueStep cfg k ok t p).pc k)
      (callNote t k ok (.issue p)) := by
  cases p with
  | package =>
      revert hrun
      dsimp only [issueStep, packageStep]
      split
      · exact fun _ => .go rfl rfl rfl
      · split
        · exact fun _ => .go rfl rfl rfl
        · split
          · exact fun hrun => Bool.noConfusion hrun
          · exact fun _ => .go rfl rfl rfl
  | dmaPrepare d =>
      obtain rfl := hok rfl
      dsimp only [issueStep] at hrun ⊢
      rcases dmaPrepareStep_cases cfg k true d t with h | ⟨-, mem, buf, ring, h⟩ | ⟨hn, -⟩
      · rw [h] at hrun
        cases hrun
      · rw [h]
        exact .go rfl announced_afterPrepare rfl
      · cases hn
  | command =>
      dsimp only [issueStep] at hrun ⊢
      rcases commandStep_cases cfg k t with ⟨-, h⟩ | ⟨pkg, -, h⟩
      · rw [h] at hrun
        cases hrun
      · rw [h]
        exact .go rfl rfl rfl
  | setExpect => exact .go rfl announced_afterFlags rfl
  | start =>
      obtain rfl := hok rfl
      exact .handed (goto_pc ..) rfl
  | arm => exact .leave rfl rfl rfl
  | _ => exact .go rfl rfl rfl

/-- **What a step does to a call that needs a `CMD23`** and gives nothing up behind
it. -/
theorem callStep_counting (hs : callStep cfg k ok t = some t') (hrun : t'.panicked = false)
    (hneeds : needsBlockCount cfg (t.cmds k) = true)
    (hok : (t.pc k).mayFail = true → ok = true) :
    CountingStep t k (t.pc k) (t'.pc k) (callNote t k ok (t.pc k)) := by
  unfold callStep at hs
  split at hs <;> rename_i hpc <;> rw [hpc] at hok ⊢
  · cases hs
  · rw [takeLock_pc hs]
    exact .away rfl rfl rfl
  · cases hs
    unfold busyStep
    split
    · exact .leave rfl rfl rfl
    · split <;> exact .leave rfl rfl rfl
  · cases hs
    unfold preRequestStep
    rw [if_pos hneeds]
    split <;> exact .leave rfl rfl rfl
  · exact blockCountStep_counting hs hrun hok
  · rename_i err
    cases hs
    unfold filterStep
    rw [if_neg (by simp [not_skipped_of_needs hneeds])]
    cases err with
    | some e =>
        split <;> rename_i heq hv
        · exact .leave rfl rfl rfl
        · exact .leave rfl rfl rfl
        · cases heq
        · cases heq
    | none =>
        split <;> rename_i heq hv
        · cases heq
        · cases heq
        · exact .go rfl rfl rfl
        · exact .go rfl rfl rfl
  · rw [takeLock_pc hs]
    exact .onward rfl rfl rfl
  · cases hs
    exact issueStep_counting hrun hok
  · cases hs
    exact .leave rfl rfl rfl
  · cases hs

end Counting

/-! ## Whose `CMD23` is the last thing on the command line -/

/-- The `CMD23` at the end of the command line is that of a call between its two
commands, and such a call has the command line for itself; so while it does not
have the lock, nobody has. -/
structure CountInv (cfg : SdifConfig) (s : TraceState) : Prop where
  owner : ∀ r, EndsInCount s.trace r →
    needsBlockCount cfg (s.sdif.cmds r) = true ∧ (s.sdif.pc r).counting = true
  told : ∀ r, needsBlockCount cfg (s.sdif.cmds r) = true → (s.sdif.pc r).announced = true →
    lastBus s.trace = some (.counted r)
  free : ∀ r, needsBlockCount cfg (s.sdif.cmds r) = true → (s.sdif.pc r).between = true →
    (s.sdif.pc r).locked cfg.version = false → s.sdif.lock = none

section Invariant

variable {s' : TraceState} {ok : Bool}

/-- While a call is between its two commands, no other call has the lock. -/
theorem CountInv.alone (h : CountInv cfg s) (hc : CallInv cfg s.sdif) {r : ℕ}
    (hneeds : needsBlockCount cfg (s.sdif.cmds r) = true)
    (hcount : (s.sdif.pc r).counting = true)
    (hk : (s.sdif.pc k).locked cfg.version = true) : k = r := by
  have hlock := hc.locked k hk
  by_cases hr : (s.sdif.pc r).locked cfg.version = true
  · exact Option.some.inj (hlock.symm.trans (hc.locked r hr))
  · rw [Bool.not_eq_true] at hr
    have hfree := h.free r hneeds (CallPc.between_of_counting hcount hr) hr
    exact absurd (hlock.symm.trans hfree) (Option.some_ne_none k)

theorem needs_congr {c c' : MmcCommand} (h : c'.request = c.request) :
    needsBlockCount cfg c' = needsBlockCount cfg c := by
  have hop : c'.opcode = c.opcode := (congrArg MmcCommand.opcode h :)
  have hdata : c'.data = c.data := (congrArg MmcCommand.data h :)
  rw [needsBlockCount, needsBlockCount, hop, hdata]

/-- An event that is no step of a call. -/
theorem CountInv.work (h : CountInv cfg s) (hw : SameWork s.sdif s'.sdif)
    (hlast : lastBus s'.trace = lastBus s.trace) : CountInv cfg s' := by
  have hneeds (r : ℕ) : needsBlockCount cfg (s'.sdif.cmds r) =
      needsBlockCount cfg (s.sdif.cmds r) := needs_congr (hw.requests r)
  constructor
  · intro r hr
    rw [EndsInCount, hlast] at hr
    rw [hneeds, hw.pc]
    exact h.owner r hr
  · intro r hn ha
    rw [hneeds] at hn
    rw [hw.pc] at ha
    rw [hlast]
    exact h.told r hn ha
  · intro r hn hb hl
    rw [hneeds] at hn
    rw [hw.pc] at hb hl
    rw [hw.lock]
    exact h.free r hn hb hl

theorem TraceInv.endsInCount_lt (h : TraceInv cfg s) {r : ℕ} (hr : EndsInCount s.trace r) :
    r < s.sdif.submitted := by
  rcases hr with hlast | ⟨q, hlast⟩
  · obtain ⟨b, q, hbus⟩ := h.counted hlast
    refine (h.counts r q (mem_bus_iff.mp ?_).1).1
    rw [hbus]
    simp
  · exact (h.counts r q (mem_bus_iff.mp (List.mem_of_getLast? hlast)).1).1

theorem entry_counting : (entry cfg).counting = false := by
  unfold entry
  split <;> rfl

/-- A new call. -/
theorem CountInv.submit {bytes : List (BitVec 8)} (h : CountInv cfg s) (ht : TraceInv cfg s)
    (hs : s'.sdif = submit cfg cmd bytes s.sdif) (htr : s'.trace = s.trace) : CountInv cfg s' := by
  have hold : ∀ r, r ≠ s.sdif.submitted → s'.sdif.cmds r = s.sdif.cmds r ∧
      s'.sdif.pc r = s.sdif.pc r := by
    intro r hr
    rw [hs]
    exact ⟨Function.update_of_ne hr .., Function.update_of_ne hr ..⟩
  have hnew : (s'.sdif.pc s.sdif.submitted).counting = false := by
    rw [hs, submit_pc, if_pos rfl]
    exact entry_counting
  have hlock : s'.sdif.lock = s.sdif.lock := by
    rw [hs]
    rfl
  constructor
  · intro r hr
    rw [htr] at hr
    obtain ⟨hcmd, hpc⟩ := hold r (Nat.ne_of_lt (ht.endsInCount_lt hr))
    rw [hcmd, hpc]
    exact h.owner r hr
  · intro r hn ha
    by_cases hr : r = s.sdif.submitted
    · subst hr
      rw [CallPc.counting_of_announced ha] at hnew
      cases hnew
    · obtain ⟨hcmd, hpc⟩ := hold r hr
      rw [htr]
      exact h.told r (hcmd ▸ hn) (hpc ▸ ha)
  · intro r hn hb hl
    by_cases hr : r = s.sdif.submitted
    · subst hr
      rw [CallPc.counting_of_announced (CallPc.announced_of_between hb)] at hnew
      cases hnew
    · obtain ⟨hcmd, hpc⟩ := hold r hr
      rw [hlock]
      exact h.free r (hcmd ▸ hn) (hpc ▸ hb) (hpc ▸ hl)

/-- What a call that needs no `CMD23` puts on record is no `CMD23`. -/
theorem callNote_of_free (ht : TraceInv cfg s)
    (hneeds : needsBlockCount cfg (s.sdif.cmds k) = false) {r : ℕ}
    (hr : EndsInCount (s.trace ++ (callNote s.sdif k ok (s.sdif.pc k)).toList) r) :
    EndsInCount s.trace r := by
  have hk := ht.tracked k
  have hn : ∀ {p}, s.sdif.pc k ≠ .blockCount p := by
    intro p hpc
    rw [hpc] at hk
    have hneeds' : needsBlockCount cfg (s.sdif.cmds k) = true := hk.1
    rw [hneeds] at hneeds'
    cases hneeds'
  cases hi : callNote s.sdif k ok (s.sdif.pc k) with
  | none => simpa [EndsInCount, hi] using hr
  | some i =>
      rw [hi, Option.toList_some] at hr
      rcases callNote_cases hi with ⟨hpc, -⟩ | ⟨hpc, -⟩ | ⟨-, rfl⟩ | rfl
      · exact absurd hpc hn
      · exact absurd hpc hn
      · simp [EndsInCount, TraceItem.onBus] at hr
      · simpa [EndsInCount, TraceItem.onBus] using hr

theorem locking_between (hs : callStep cfg k ok s.sdif = some s'.sdif)
    (hwait : (s.sdif.pc k).locking = true) : (s'.sdif.pc k).between = false := by
  unfold callStep at hs
  split at hs <;> rename_i hpc <;> rw [hpc] at hwait
  · cases hs
  · rw [takeLock_pc hs]
    rfl
  · cases hwait
  · cases hwait
  · rename_i p
    cases p with
    | lock =>
        rw [takeLock_pc hs]
        rfl
    | _ => cases hwait
  · cases hwait
  · rw [takeLock_pc hs]
    rfl
  · cases hwait
  · cases hwait
  · cases hs

/-- What the calls other than the one that moves can rely on. -/
theorem CountInv.others (h : CountInv cfg s) (ht : TraceInv cfg s)
    (hs : callStep cfg k ok s.sdif = some s'.sdif)
    (htr : s'.trace = s.trace ++ (callNote s.sdif k ok (s.sdif.pc k)).toList)
    (hleft : lockLeft cfg s (.call k ok)) {r : ℕ} (hr : r ≠ k)
    (hneeds : needsBlockCount cfg (s.sdif.cmds r) = true)
    (hcount : (s.sdif.pc r).counting = true) :
    lastBus s'.trace = lastBus s.trace ∧
    ((s.sdif.pc r).between = true → (s.sdif.pc r).locked cfg.version = false →
      s'.sdif.lock = none) := by
  have hk : (s.sdif.pc k).locked cfg.version = false := by
    by_contra hn
    rw [Bool.not_eq_false] at hn
    exact hr (h.alone ht.calls hneeds hcount hn).symm
  obtain ⟨-, -, hnote⟩ := callStep_unlocked hs hk
  refine ⟨by rw [htr, hnote, Option.toList_none, List.append_nil], ?_⟩
  intro hb hl
  rcases (callStep_spec hs).lock with ⟨-, hlock, -⟩ | ⟨hwait, -⟩ | ⟨-, hlock, -⟩
  · exact hlock.trans (h.free r hneeds hb hl)
  · have hborn : r < s.sdif.submitted := by
      apply ht.calls.born
      intro hn
      rw [hn] at hb
      cases hb
    rw [hleft hwait r hborn hr hneeds] at hb
    cases hb
  · exact hlock

/-- The call that moves, if it needs a `CMD23`. -/
theorem CountInv.own (h : CountInv cfg s) (hs : callStep cfg k ok s.sdif = some s'.sdif)
    (htr : s'.trace = s.trace ++ (callNote s.sdif k ok (s.sdif.pc k)).toList)
    (hneeds : needsBlockCount cfg (s.sdif.cmds k) = true)
    (hstep : CountingStep s.sdif k (s.sdif.pc k) (s'.sdif.pc k)
      (callNote s.sdif k ok (s.sdif.pc k))) :
    (EndsInCount s'.trace k → (s'.sdif.pc k).counting = true) ∧
    ((s'.sdif.pc k).announced = true → lastBus s'.trace = some (.counted k)) ∧
    ((s'.sdif.pc k).between = true → (s'.sdif.pc k).locked cfg.version = false →
      s'.sdif.lock = none) := by
  have hquiet (hi : callNote s.sdif k ok (s.sdif.pc k) = none) : s'.trace = s.trace := by
    rw [htr, hi, Option.toList_none, List.append_nil]
  have hnoted {i : TraceItem} (hi : callNote s.sdif k ok (s.sdif.pc k) = some i)
      (hon : i.onBus = true) : lastBus s'.trace = some i := by
    rw [htr, hi, Option.toList_some, lastBus_append_singleton, if_pos hon]
  cases hstep with
  | away hp hq hi =>
      refine ⟨?_, ?_, ?_⟩
      · intro he
        rw [hquiet hi] at he
        rw [(h.owner k he).2] at hp
        cases hp
      · intro ha
        rw [CallPc.counting_of_announced ha] at hq
        cases hq
      · intro hb
        rw [CallPc.counting_of_announced (CallPc.announced_of_between hb)] at hq
        cases hq
  | start hq =>
      rw [hq]
      exact ⟨fun _ => rfl, fun ha => Bool.noConfusion ha, fun hb => Bool.noConfusion hb⟩
  | poll _ hq =>
      rw [hq]
      exact ⟨fun _ => rfl, fun ha => Bool.noConfusion ha, fun hb => Bool.noConfusion hb⟩
  | counted hq hi =>
      rw [hq]
      exact ⟨fun _ => rfl, fun _ => hnoted hi rfl, fun hb => Bool.noConfusion hb⟩
  | onward hp hq hi =>
      refine ⟨fun _ => CallPc.counting_of_announced hq, ?_, ?_⟩
      · rw [hquiet hi]
        exact fun _ => h.told k hneeds hp
      · intro hb hl
        rcases (callStep_spec hs).lock with ⟨-, hlock, hsame⟩ | ⟨hwait, -⟩ | ⟨-, hlock, -⟩
        · -- the call was without the lock before
          rw [hsame] at hl
          have hbefore :=
            CallPc.between_of_counting (CallPc.counting_of_announced hp) hl
          exact hlock.trans (h.free k hneeds hbefore hl)
        · -- with the lock taken it is behind the stretch
          rw [locking_between hs hwait] at hb
          cases hb
        · exact hlock
  | handed hq hi =>
      rw [hq]
      refine ⟨?_, fun ha => Bool.noConfusion ha, fun hb => Bool.noConfusion hb⟩
      rw [EndsInCount, hnoted hi rfl]
      rintro (he | ⟨q, he⟩) <;> cases he

/-- **A step of a call.** -/
theorem CountInv.call (h : CountInv cfg s) (ht : TraceInv cfg s)
    (hs : callStep cfg k ok s.sdif = some s'.sdif) (hrun : s'.sdif.panicked = false)
    (htr : s'.trace = s.trace ++ (callNote s.sdif k ok (s.sdif.pc k)).toList)
    (hkept : noneGivenUp cfg s (.call k ok)) (hleft : lockLeft cfg s (.call k ok)) :
    CountInv cfg s' := by
  have hspec := callStep_spec hs
  have hneeds (r : ℕ) : needsBlockCount cfg (s'.sdif.cmds r) =
      needsBlockCount cfg (s.sdif.cmds r) := needs_congr (callStep_requests hs r)
  have hown (hn : needsBlockCount cfg (s.sdif.cmds k) = true) :=
    h.own hs htr hn (callStep_counting hs hrun hn (hkept hn))
  constructor
  · intro r hr
    rw [hneeds]
    by_cases hn : needsBlockCount cfg (s.sdif.cmds k) = true
    · by_cases hrk : r = k
      · subst hrk
        exact ⟨hn, (hown hn).1 hr⟩
      · -- what the call has put on record is its own
        have hold : EndsInCount s.trace r := by
          cases hi : callNote s.sdif k ok (s.sdif.pc k) with
          | none => simpa [EndsInCount, htr, hi] using hr
          | some i =>
              rw [htr, hi, Option.toList_some] at hr
              rcases callNote_cases hi with ⟨-, rfl⟩ | ⟨-, rfl⟩ | ⟨-, rfl⟩ | rfl
              · simp [EndsInCount, TraceItem.onBus, Ne.symm hrk] at hr
              · simp [EndsInCount, TraceItem.onBus, Ne.symm hrk] at hr
              · simp [EndsInCount, TraceItem.onBus] at hr
              · simpa [EndsInCount, TraceItem.onBus] using hr
        rw [hspec.others r hrk]
        exact h.owner r hold
    · rw [Bool.not_eq_true] at hn
      rw [htr] at hr
      obtain ⟨hnr, hcr⟩ := h.owner r (callNote_of_free ht hn hr)
      have hrk : r ≠ k := by
        rintro rfl
        rw [hn] at hnr
        cases hnr
      rw [hspec.others r hrk]
      exact ⟨hnr, hcr⟩
  · intro r hn ha
    rw [hneeds] at hn
    by_cases hrk : r = k
    · subst hrk
      exact (hown hn).2.1 ha
    · rw [hspec.others r hrk] at ha
      rw [(h.others ht hs htr hleft hrk hn (CallPc.counting_of_announced ha)).1]
      exact h.told r hn ha
  · intro r hn hb hl
    rw [hneeds] at hn
    by_cases hrk : r = k
    · subst hrk
      exact (hown hn).2.2 hb hl
    · rw [hspec.others r hrk] at hb hl
      have hcount := CallPc.counting_of_announced (CallPc.announced_of_between hb)
      exact (h.others ht hs htr hleft hrk hn hcount).2 hb hl

theorem traceStep_countInv {e : SdifEvent} (h : CountInv cfg s) (ht : TraceInv cfg s)
    (hkept : noneGivenUp cfg s e) (hleft : lockLeft cfg s e) (hs : traceStep cfg s e = some s')
    (hrun : s'.sdif.panicked = false) : CountInv cfg s' := by
  obtain ⟨hsdif, htr⟩ := traceStep_iff.mp hs
  have hevent := (sdifStep_iff.mp hsdif).2
  cases e with
  | submit cmd bytes =>
      exact h.submit ht (Option.some.inj hevent).symm (htr.trans (List.append_nil _))
  | call k ok => exact h.call ht hevent hrun htr hkept hleft
  | updateIos powerUp useHold =>
      obtain ⟨-, hu⟩ := Option.ite_none_right_eq_some.mp hevent
      have hw : SameWork s.sdif s'.sdif := by
        rw [← Option.some.inj hu]
        exact ⟨fun _ => rfl, rfl, rfl, rfl, rfl, rfl⟩
      refine h.work hw ?_
      rw [htr]
      cases powerUp <;> simp [noted, TraceItem.onBus]
  | _ =>
      have hq := eventStep_quiet hevent rfl
      refine h.work hq.toSameWork ?_
      rw [htr]
      simp [noted]

/-- **What holds in every state** of a run in which no call gives up behind its
`CMD23` and none takes the lock while another is between its two commands. -/
theorem count_reachable_inv
    (h : (((traceSystem cfg).restrict (noneGivenUp cfg)).restrict (lockLeft cfg)).Reachable s) :
    s.sdif.panicked = false → CountInv cfg s := by
  refine h.restrict_invariant (P := fun s => s.sdif.panicked = false → CountInv cfg s) ?_ ?_
  · rintro s ⟨⟨mem, need, hs⟩, htr⟩ -
    constructor
    · intro r hr
      rw [htr] at hr
      rcases hr with hr | ⟨q, hr⟩ <;> cases hr
    · intro r _ ha
      rw [hs] at ha
      cases ha
    · intro r _ hb
      rw [hs] at hb
      cases hb
  · intro s e s' hreach hi hleft hs hrun
    obtain ⟨hkept, hs⟩ := System.restrict_step.mp hs
    have hon := (sdifStep_iff.mp (traceStep_iff.mp hs).1).1
    exact traceStep_countInv (hi hon) (trace_reachable_inv hreach.of_restrict hon) hkept hleft hs
      hrun

end Invariant

/-! ## At the moment a command is handed over -/

theorem dataPackage_stops (hK : cfg.masks.Distinct) {d : MmcData} {p : DatPkg}
    (h : dataPackage cfg cmd d = some p) : has p.rawcmd cfg.masks.sendStop = false := by
  unfold dataPackage at h
  split at h
  · cases h
    simp [prepareData, has]
  · obtain ⟨raw, hraw, rfl⟩ := Option.map_eq_some_iff.mp h
    obtain ⟨f, -, rfl⟩ := Option.map_eq_some_iff.mp hraw
    exact has_rawCommandOf hK cfg.nonRemovable cmd.opcode f true d.write .sendStop

/-- Only the first driver ever asks for the automatic stop. -/
theorem TraceInv.handed_stops (h : TraceInv cfg s) (hK : cfg.masks.Distinct)
    (hpc : s.sdif.pc k = .issue .start) :
    stops cfg.masks s.sdif.cmdPkg s.sdif.handedData =
      (cfg.version == .v1 && cfg.autoStop && transfersBlocks (s.sdif.cmds k)) := by
  have hdat : (s.sdif.handedData.any fun p => has p.rawcmd cfg.masks.sendStop) = false := by
    cases hd : (s.sdif.cmds k).data with
    | none =>
        rw [h.handed_none hpc hd]
        rfl
    | some d =>
        obtain ⟨built, buf, hbuilt, hdat⟩ := h.handed_data hpc hd
        have hraw := dataPackage_stops hK hbuilt
        rw [hdat]
        exact hraw
  have hword := h.handed_word hpc
  rw [stops, hdat, Bool.or_false]
  unfold WordBuilt at hword
  split at hword <;> rename_i hv <;> rw [hv]
  · obtain ⟨useHold, init, hword⟩ := hword
    rw [hword]
    have hbit := has_prepareRawCmd hK cfg.autoStop useHold init (s.sdif.cmds k) .sendStop
    refine hbit.trans ?_
    rw [rawCmdHas, transfersBlocks]
    cases (s.sdif.cmds k).data.isSome <;> simp
  · obtain ⟨f, hword⟩ := hword
    rw [hword]
    exact has_rawCommandOf hK cfg.nonRemovable _ f false false .sendStop

/-- A `CMD23` is sent only for a request that needs one. -/
theorem TraceInv.untold (h : TraceInv cfg s)
    (hneeds : needsBlockCount cfg (s.sdif.cmds k) = false) : Untold s.trace k := by
  intro q hq
  have hk : needsBlockCount cfg (s.sdif.cmds k) = true := (h.counts k q hq).2.1
  rw [hneeds] at hk
  cases hk

theorem TraceInv.told_iff (h : TraceInv cfg s) (hpc : s.sdif.pc k = .issue .start)
    {d : MmcData} (hd : (s.sdif.cmds k).data = some d) :
    Told s.trace k s.sdif.handedData ↔ lastBus s.trace = some (.counted k) ∧
      d.len / mmcSectorSize % 2 ^ 16 = programmedBlocks cfg.version d.len := by
  obtain ⟨p, hdat, -, hcount⟩ := h.handed_geometry hpc hd
  have hmem : ∀ {b q}, bus s.trace = b ++ [.blockCount k q, .counted k] →
      .blockCount k q ∈ s.trace := by
    intro b q hbus
    refine (mem_bus_iff.mp ?_).1
    rw [hbus]
    simp
  constructor
  · rintro ⟨b, q, hbus, htold⟩
    refine ⟨?_, ?_⟩
    · simp [lastBus, hbus]
    · rw [← (h.count_told (hmem hbus) hd).2, htold p hdat, hcount]
  · rintro ⟨hlast, heq⟩
    obtain ⟨b, q, hbus⟩ := h.counted hlast
    refine ⟨b, q, hbus, ?_⟩
    intro p' hp'
    obtain rfl : p = p' := Option.some.inj (hdat.symm.trans hp')
    rw [(h.count_told (hmem hbus) hd).2, heq, hcount]

/-- The count in `CMD23` is the one the first driver programs. -/
theorem programmedBlocks_v1 (len : ℕ) :
    len / mmcSectorSize % 2 ^ 16 = programmedBlocks .v1 len ↔
      mmcSectorSize ≤ len ∧ len / mmcSectorSize < 2 ^ 16 := by
  have hone : mmcSectorSize ≤ len ↔ 1 ≤ len / mmcSectorSize :=
    (Nat.one_le_div_iff (by decide)).symm
  rw [hone]
  change _ = (if len / mmcSectorSize < 1 then 1 else len / mmcSectorSize) ↔ _
  generalize len / mmcSectorSize = n
  split <;> omega

/-- At a command that transfers several blocks. -/
theorem bounded_blocks_iff (h : TraceInv cfg s) (hc : CountInv cfg s)
    (hpc : s.sdif.pc k = .issue .start) (htr : transfersBlocks (s.sdif.cmds k) = true) :
    Xor (Told s.trace k s.sdif.handedData ∧ (cfg.version == .v1 && cfg.autoStop) = false)
        (Untold s.trace k ∧ (cfg.version == .v1 && cfg.autoStop) = true) ↔
      BoundedWhen cfg (s.sdif.cmds k) := by
  obtain ⟨hm, hsome⟩ := Bool.and_eq_true_iff.mp htr
  obtain ⟨d, hd⟩ := Option.isSome_iff_exists.mp hsome
  have hneeds : needsBlockCount cfg (s.sdif.cmds k) = !cfg.autoStop := by
    rw [needsBlockCount, hm, hd]
    simp
  have hwhen : BoundedWhen cfg (s.sdif.cmds k) ↔
      match cfg.version with
      | .v1 => cfg.autoStop = true ∨ mmcSectorSize ≤ d.len ∧ d.len / mmcSectorSize < 2 ^ 16
      | .v2 => cfg.autoStop = false ∧ d.len / mmcSectorSize < 2 ^ 16 := by
    unfold BoundedWhen
    rw [hm, hd]
    simp
  have htold := h.told_iff hpc hd
  rw [hwhen]
  cases ha : cfg.autoStop with
  | true =>
      rw [ha] at hneeds
      have huntold := h.untold hneeds
      have hlast : lastBus s.trace ≠ some (.counted k) := by
        intro hlast
        rw [(hc.owner k (Or.inl hlast)).1] at hneeds
        cases hneeds
      rw [htold]
      cases cfg.version with
      | v1 => simp [Xor, huntold]
      | v2 => simp [Xor, hlast]
  | false =>
      rw [ha] at hneeds
      have hlast : lastBus s.trace = some (.counted k) := by
        apply hc.told k hneeds
        rw [hpc]
        rfl
      rw [htold]
      cases hv : cfg.version with
      | v1 =>
          rw [programmedBlocks_v1]
          simp [Xor, hlast]
      | v2 =>
          have hsmall : d.len / mmcSectorSize % 2 ^ 16 = programmedBlocks .v2 d.len ↔
              d.len / mmcSectorSize < 2 ^ 16 := Nat.mod_eq_iff_lt (by decide)
          rw [hsmall]
          simp [Xor, hlast]

/-- At any other command. -/
theorem CountInv.not_afterCount (h : CountInv cfg s) (hc : CallInv cfg s.sdif)
    (hpc : s.sdif.pc k = .issue .start)
    (hneeds : needsBlockCount cfg (s.sdif.cmds k) = false) : ¬ AfterCount s.trace := by
  rintro ⟨r, hr⟩
  obtain ⟨hn, hcount⟩ := h.owner r hr
  have hk : (s.sdif.pc k).locked cfg.version = true := by
    rw [hpc]
    rfl
  obtain rfl := h.alone hc hn hcount hk
  rw [hneeds] at hn
  cases hn

theorem bounded_iff (h : TraceInv cfg s) (hc : CountInv cfg s) (hK : cfg.masks.Distinct)
    (hpc : s.sdif.pc k = .issue .start) :
    s.Hands (Bounded cfg.masks) k ↔ BoundedWhen cfg (s.sdif.cmds k) := by
  have hstops := h.handed_stops hK hpc
  unfold TraceState.Hands Bounded
  rw [hstops]
  cases htr : transfersBlocks (s.sdif.cmds k) with
  | true =>
      rw [if_pos rfl, Bool.and_true]
      exact bounded_blocks_iff h hc hpc htr
  | false =>
      have hneeds : needsBlockCount cfg (s.sdif.cmds k) = false := by
        rw [transfersBlocks] at htr
        rw [needsBlockCount, Bool.and_assoc, htr, Bool.and_false]
      have hwhen : BoundedWhen cfg (s.sdif.cmds k) := by
        intro hm d hd
        rw [transfersBlocks, hm, Option.mem_def.mp hd] at htr
        cases htr
      rw [if_neg Bool.false_ne_true, Bool.and_false]
      exact iff_of_true ⟨rfl, h.untold hneeds, hc.not_afterCount h.calls hpc hneeds⟩ hwhen

/-! ## Every run -/

/-- A command is handed over only if the build and the request go together. -/
def boundedOk (cfg : SdifConfig) : TraceState → SdifEvent → Prop :=
  HandsOnly fun s k => BoundedWhen cfg (s.sdif.cmds k)

instance (cfg : SdifConfig) (cmd : MmcCommand) : Decidable (BoundedWhen cfg cmd) := by
  unfold BoundedWhen
  cases cfg.version <;> infer_instance

instance (cfg : SdifConfig) (s : TraceState) : (e : SdifEvent) → Decidable (boundedOk cfg s e)
  | .call k true =>
      decidable_of_iff (s.sdif.pc k = .issue .start → BoundedWhen cfg (s.sdif.cmds k))
        ⟨fun h j he => by
          cases he
          exact h, fun h => h k rfl⟩
  | .call _ false | .submit _ _ | .cmdDone _ | .dataDone _ | .errOccure | .expire | .timeout
  | .updateIos _ _ => isTrue fun _ he => by cases he

/-- Without the automatic stop, one read of two blocks up to `callout_reset`. -/
def countedRead : List SdifEvent :=
  .submit readTwoBlocks [] :: calls 0 9 ++ [.cmdDone ⟨0x900#32, 0#32, 0#32, 0#32⟩] ++ calls 0 15

/-- A `CMD23` that is not seen to end: its call gives up, and another request's
command follows. -/
def givenUpRun : List SdifEvent :=
  .submit readTwoBlocks [] :: calls 0 9 ++ [.call 0 false] ++ calls 0 3 ++
    .submit sendStatus [] :: calls 1 13

/-- Another call takes the lock between `CMD23` and the command. -/
def slippedInRun : List SdifEvent :=
  .submit readTwoBlocks [] :: calls 0 9 ++ [.cmdDone ⟨0x900#32, 0#32, 0#32, 0#32⟩] ++ calls 0 4 ++
    .submit sendStatus [] :: calls 1 14

/-- A run that ends behind a `CMD23` of one request with the command of another,
which needs none. -/
theorem not_bounded_after_count {M : System TraceState SdifEvent} {es : List SdifEvent}
    {t : TraceState} {pre : List TraceItem} {pkg : CmdPkg} (hi : M.init s)
    (hr : M.run s es = some t) (htr : t.trace = pre ++ [.command k sendStatus pkg none])
    (hafter : AfterCount pre) :
    ¬ ∀ t, M.Reachable t → EachCommand (Bounded sampleCmdMasks) t.trace := by
  intro h
  have hend := h t (System.reachable_of_run _ hi hr) pre _ (by rw [htr]) k sendStatus pkg none rfl
  exact hend.2.2 hafter

end Phytium.Sdif
