import PhytiumSdk.Sdif.BusSettings
import PhytiumSdk.Sdif.CommandTrace
import PhytiumSdk.Sdif.CommandWords

/-!
# SDIF v1: the card initialisation flag

`update_ios` sets `hc.card_need_init` when it powers the card up, and
`sdif_prepare_raw_cmd` moves the flag into the command it builds. A command that
is prepared and then dropped takes the flag with it.

The machine is that of `BusSettings` and that of `CommandTrace` side by side;
they share `card_need_init` and `use_hold`.
-/

namespace Phytium.Sdif

open Lib Lib.Mask

/-! ## The machine -/

structure CardState where
  drv : TraceState
  bus : BusState

inductive CardEvent where
  /-- any event of a driver but `update_ios` -/
  | driver (e : SdifEvent)
  | writeIvar (which : IosVar) (value : BitVec 32)
  /-- `phytium_sdif_update_ios`; `ok` is the outcome of setting the clock -/
  | updateIos (ok : Bool)

/-- The power mode changes to `power_up`. -/
def powersUp (b : BusState) : Bool :=
  b.powerMode != b.ios.powerMode && b.ios.powerMode == powerUp

/-- `sc->host` and the caches of `update_ios`, with the fields it shares with
the requests as these left them. -/
def CardState.busNow (s : CardState) : BusState :=
  { s.bus with
    cardNeedInit := s.drv.sdif.cardNeedInit
    useHold := s.drv.sdif.useHold }

/-- What an event is to the driver's own machine. -/
def driverEvent (bcfg : BusConfig) (s : CardState) : CardEvent → Option SdifEvent
  | .driver e => some e
  | .writeIvar _ _ => none
  | .updateIos ok =>
      some (.updateIos (powersUp s.bus) (updateStep bcfg ok s.busNow).useHold)

def SdifEvent.isUpdate : SdifEvent → Bool
  | .updateIos _ _ => true
  | _ => false

def cardStep (cfg : SdifConfig) (bcfg : BusConfig) (s : CardState) : CardEvent →
    Option CardState
  | .driver e =>
      if e.isUpdate then none else (traceStep cfg s.drv e).map fun d => ⟨d, s.bus⟩
  | .writeIvar which value =>
      some { s with bus := { s.bus with ios := writeIvar which value s.bus.ios } }
  | .updateIos ok =>
      let b := updateStep bcfg ok s.busNow
      (traceStep cfg s.drv (.updateIos (powersUp s.bus) b.useHold)).map fun d => ⟨d, b⟩

def cardSystem (cfg : SdifConfig) (bcfg : BusConfig) : System CardState CardEvent where
  init := fun s => ∃ mem, s.drv = ⟨attached mem false, []⟩
  step := cardStep cfg bcfg

variable {cfg : SdifConfig} {bcfg : BusConfig}

/-! ### The two machines agree on what they share -/

theorem updatePower_cardNeedInit (b : BusState) :
    (updatePower b).cardNeedInit = (b.cardNeedInit || powersUp b) := by
  have hne : powerUp ≠ powerOff := by decide
  unfold updatePower powersUp
  by_cases hsame : b.powerMode = b.ios.powerMode
  · simp [hsame]
  · by_cases hup : b.ios.powerMode = powerUp
    · rw [hup] at hsame
      simp [hsame, hup, hne]
    · by_cases hoff : b.ios.powerMode = powerOff
      · rw [hoff] at hsame hup
        simp [hsame, hup, hoff]
      · simp [hsame, hup, hoff]

theorem updateClock_cardNeedInit (ok : Bool) (b : BusState) :
    (updateClock bcfg ok b).1.cardNeedInit = b.cardNeedInit := by
  unfold updateClock
  split
  · rfl
  · split
    · split
      · rfl
      · dsimp only
        split <;> rfl
    · split <;> rfl

theorem updateVoltage_cardNeedInit (b : BusState) :
    (updateVoltage bcfg b).cardNeedInit = b.cardNeedInit := by
  unfold updateVoltage
  split
  · rfl
  · dsimp only
    split
    · rfl
    · split <;> rfl

/-- `card_need_init` is set just when the power mode changes to `power_up`. -/
theorem updateStep_cardNeedInit (ok : Bool) (b : BusState) :
    (updateStep bcfg ok b).cardNeedInit = (b.cardNeedInit || powersUp b) := by
  have hwidth : (updateWidth b).cardNeedInit = b.cardNeedInit ∧
      powersUp (updateWidth b) = powersUp b := by
    unfold updateWidth
    split <;> exact ⟨rfl, rfl⟩
  have hclock : (updateClock bcfg ok (updatePower (updateWidth b))).1.cardNeedInit =
      (updatePower (updateWidth b)).cardNeedInit := updateClock_cardNeedInit ok _
  rw [updatePower_cardNeedInit, hwidth.1, hwidth.2] at hclock
  unfold updateStep updateIosV1
  dsimp only
  split <;> rename_i hres <;> split at hres <;> cases hres
  · exact (updateVoltage_cardNeedInit _).trans hclock
  · exact hclock

/-- **One driver, two views**: after `update_ios` both machines have the same
`card_need_init` and `use_hold`. -/
theorem cardStep_update_shared {s s' : CardState} {ok : Bool}
    (h : cardStep cfg bcfg s (.updateIos ok) = some s') :
    s'.bus.cardNeedInit = s'.drv.sdif.cardNeedInit ∧ s'.bus.useHold = s'.drv.sdif.useHold := by
  obtain ⟨d, hd, rfl⟩ := Option.map_eq_some_iff.mp h
  obtain ⟨hs, -⟩ := traceStep_iff.mp hd
  obtain ⟨-, ht⟩ := Option.ite_none_right_eq_some.mp (sdifStep_iff.mp hs).2
  rw [← Option.some.inj ht]
  exact ⟨updateStep_cardNeedInit ok s.busNow, rfl⟩

theorem cardStep_drv {s s' : CardState} {e : CardEvent} (h : cardStep cfg bcfg s e = some s') :
    match driverEvent bcfg s e with
    | some d => traceStep cfg s.drv d = some s'.drv
    | none => s'.drv = s.drv := by
  cases e with
  | driver e =>
      simp only [cardStep] at h
      split at h
      · cases h
      · obtain ⟨d, hd, rfl⟩ := Option.map_eq_some_iff.mp h
        exact hd
  | writeIvar which value =>
      cases h
      rfl
  | updateIos ok =>
      obtain ⟨d, hd, rfl⟩ := Option.map_eq_some_iff.mp h
      exact hd

/-! ## What the record says of the initialisation -/

/-- An initialisation is due, and whether it has been lost with a command that
was dropped. -/
def initStep (st : Bool × Bool) : TraceItem → Bool × Bool
  | .powerUp => (true, false)
  | .command _ _ _ _ => (false, false)
  | .dropped _ => (st.1, st.2 || st.1)
  | _ => st

def initLog (tr : List TraceItem) : Bool × Bool := tr.foldl initStep (false, false)

/-- The card has been powered up and no client command handed over since. -/
def initDue (tr : List TraceItem) : Bool := (initLog tr).1

/-- Since then the DMA preparation or the start of a client command has
failed. -/
def initLost (tr : List TraceItem) : Bool := (initLog tr).2

/-- The driver still knows. -/
def initOwed (tr : List TraceItem) : Bool := initDue tr && !initLost tr

theorem initLog_append_singleton (tr : List TraceItem) (i : TraceItem) :
    initLog (tr ++ [i]) = initStep (initLog tr) i := List.foldl_concat ..

/-- Only an initialisation that is due can be lost. -/
theorem initDue_of_lost (tr : List TraceItem) : initLost tr = true → initDue tr = true := by
  unfold initLost initDue
  induction tr using List.reverseRecOn with
  | nil => exact fun h => absurd h Bool.false_ne_true
  | append_singleton tr i ih =>
      rw [initLog_append_singleton]
      cases i with
      | powerUp => exact fun _ => rfl
      | command req cmd pkg dat => exact fun h => absurd h Bool.false_ne_true
      | dropped req =>
          intro h
          rcases Bool.or_eq_true_iff.mp h with h | h
          · exact ih h
          · exact h
      | _ => exact ih

theorem initOwed_powerUp (tr : List TraceItem) : initOwed (tr ++ [.powerUp]) = true := by
  simp [initOwed, initDue, initLost, initLog_append_singleton, initStep]

/-- Once a client command is handed over or dropped, nothing is owed. -/
theorem initOwed_command (tr : List TraceItem) (k : ℕ) (cmd : MmcCommand) (pkg : CmdPkg)
    (dat : Option DatPkg) : initOwed (tr ++ [.command k cmd pkg dat]) = false := by
  simp [initOwed, initDue, initLost, initLog_append_singleton, initStep]

theorem initOwed_dropped (tr : List TraceItem) (k : ℕ) :
    initOwed (tr ++ [.dropped k]) = false := by
  simp only [initOwed, initDue, initLost, initLog_append_singleton, initStep]
  cases (initLog tr).1 <;> simp

theorem initOwed_blockCount (tr : List TraceItem) (k : ℕ) (pkg : CmdPkg) :
    initOwed (tr ++ [.blockCount k pkg]) = initOwed tr := by
  simp [initOwed, initDue, initLost, initLog_append_singleton, initStep]

theorem initOwed_counted (tr : List TraceItem) (k : ℕ) :
    initOwed (tr ++ [.counted k]) = initOwed tr := by
  simp [initOwed, initDue, initLost, initLog_append_singleton, initStep]

/-! ## Where the flag is -/

/-- The command of the call has been built, and not been handed over. -/
def CallPc.built : CallPc → Bool
  | .issue .setReq => false
  | .issue .setCurcmd => false
  | .issue .setError => false
  | .issue .package => false
  | .issue .arm => false
  | .issue _ => true
  | _ => false

/-- The flag is in the command word of the call that has the lock, or where it
was. -/
def InitAt (cfg : SdifConfig) (s : SdifState) (k : ℕ) (tr : List TraceItem) (p : CallPc) : Prop :=
  if p.built then
    s.cardNeedInit = false ∧ ∃ useHold, s.cmdPkg.rawcmd =
      prepareRawCmd cfg.masks cfg.autoStop useHold (initOwed tr) (s.cmds k).request
  else s.cardNeedInit = initOwed tr

structure InitInv (cfg : SdifConfig) (s : TraceState) : Prop where
  free : s.sdif.lock = none → s.sdif.cardNeedInit = initOwed s.trace
  held : ∀ k, s.sdif.lock = some k → InitAt cfg s.sdif k s.trace (s.sdif.pc k)

section Steps

variable {s s' t : SdifState} {k : ℕ} {ok : Bool} {tr : List TraceItem} {p q : CallPc}

theorem InitAt.rest (hp : p.built = false) :
    InitAt cfg s k tr p ↔ s.cardNeedInit = initOwed tr := by
  rw [InitAt, hp, if_neg Bool.false_ne_true]

theorem InitAt.taken (hp : p.built = true) :
    InitAt cfg s k tr p ↔ s.cardNeedInit = false ∧ ∃ useHold, s.cmdPkg.rawcmd =
      prepareRawCmd cfg.masks cfg.autoStop useHold (initOwed tr) (s.cmds k).request := by
  rw [InitAt, hp, if_pos rfl]

theorem built_locked (hp : p.built = true) (v : Version) : p.locked v = true := by
  unfold CallPc.built at hp
  split at hp <;> first | rfl | cases hp

/-- A step that puts nothing on record. -/
theorem InitAt.unnoted (hnote : callNote s k ok q = none)
    (h : InitAt cfg t k tr p) : InitAt cfg t k (tr ++ (callNote s k ok q).toList) p := by
  rw [hnote, Option.toList_none, List.append_nil]
  exact h

theorem InitAt.goto_rest (hq : q.built = false) (h : t.cardNeedInit = initOwed tr) :
    InitAt cfg (t.goto k q) k tr ((t.goto k q).pc k) := by
  rw [goto_pc]
  exact (InitAt.rest hq).mpr h

theorem InitAt.goto_built (hq : q.built = true) (hneed : t.cardNeedInit = false)
    (hraw : ∃ useHold, t.cmdPkg.rawcmd =
      prepareRawCmd cfg.masks cfg.autoStop useHold (initOwed tr) (t.cmds k).request) :
    InitAt cfg (t.goto k q) k tr ((t.goto k q).pc k) := by
  rw [goto_pc]
  exact (InitAt.taken hq).mpr ⟨hneed, hraw⟩

/-- A command that is dropped takes the flag with it. -/
theorem InitAt.fail {e : MmcErr} {err : Option Errno} (h : t.cardNeedInit = false) :
    InitAt cfg (t.fail k e err) k (tr ++ [.dropped k]) ((t.fail k e err).pc k) := by
  unfold SdifState.fail
  refine InitAt.goto_rest rfl ?_
  rw [initOwed_dropped]
  exact h

theorem blockCountStep_rest {b : BlockCountPc} (hs : blockCountStep cfg k ok s b = some s')
    (hrun : s'.panicked = false) :
    s'.cardNeedInit = s.cardNeedInit ∧ (s'.pc k).built = false := by
  have hstep : CountStep cfg k s s' := blockCountStep_cases hs
  refine ⟨hstep.cardNeedInit, ?_⟩
  rcases hstep.place with ⟨-, rfl⟩ | ⟨-, ⟨b', hpc⟩ | ⟨err, hpc⟩⟩
  · cases hrun
  · rw [hpc]
    rfl
  · rw [hpc]
    rfl

/-- What `sdif_set_block_count` records has no part in the initialisation. -/
theorem initOwed_blockCountNote (s : SdifState) (k : ℕ) (ok : Bool) (b : BlockCountPc)
    (tr : List TraceItem) :
    initOwed (tr ++ (callNote s k ok (.blockCount b)).toList) = initOwed tr := by
  have hnone : initOwed (tr ++ (none : Option TraceItem).toList) = initOwed tr :=
    congrArg initOwed (List.append_nil tr)
  cases b with
  | start =>
      cases ok with
      | false => exact hnone
      | true => exact initOwed_blockCount tr k s.cmdPkg
  | busy =>
      cases ok with
      | false => exact hnone
      | true => exact initOwed_counted tr k
  | _ => exact hnone

theorem dmaPrepareStep_init {d : MmcData} (hv : cfg.version = .v1)
    (hrun : (dmaPrepareStep cfg k ok d s).panicked = false)
    (h : InitAt cfg s k tr (.issue (.dmaPrepare d))) :
    InitAt cfg (dmaPrepareStep cfg k ok d s) k
      (tr ++ (callNote s k ok (.issue (.dmaPrepare d))).toList)
      ((dmaPrepareStep cfg k ok d s).pc k) := by
  have hafter : afterPrepare cfg = .start := by
    rw [afterPrepare, hv]
  obtain ⟨hneed, hraw⟩ := (InitAt.taken rfl).mp h
  rcases dmaPrepareStep_cases cfg k ok d s with hstep | ⟨rfl, mem, buf, ring, hstep⟩ |
    ⟨rfl, hstep⟩
  · rw [hstep] at hrun
    cases hrun
  · rw [hstep, hafter]
    refine InitAt.unnoted rfl ?_
    exact InitAt.goto_built rfl hneed hraw
  · rw [hstep]
    exact InitAt.fail hneed

/-- **The flag through `phytium_sdif_request`.** -/
theorem issueStep_init {b : IssuePc} (hv : cfg.version = .v1)
    (hrun : (issueStep cfg k ok s b).panicked = false) (hb : b ≠ .command)
    (h : InitAt cfg s k tr (.issue b)) :
    InitAt cfg (issueStep cfg k ok s b) k (tr ++ (callNote s k ok (.issue b)).toList)
      ((issueStep cfg k ok s b).pc k) := by
  cases b with
  | command => exact absurd rfl hb
  | package =>
      refine InitAt.unnoted rfl ?_
      change InitAt cfg (packageStep cfg k s) k tr ((packageStep cfg k s).pc k)
      have hneed := (InitAt.rest rfl).mp h
      unfold packageStep
      rw [hv]
      refine InitAt.goto_built rfl rfl ⟨s.useHold, ?_⟩
      rw [← hneed]
      rfl
  | dmaPrepare d => exact dmaPrepareStep_init hv hrun h
  | start =>
      have hneed := ((InitAt.taken rfl).mp h).1
      change InitAt cfg (startStep cfg k ok s) k _ ((startStep cfg k ok s).pc k)
      unfold startStep
      rw [hv]
      cases ok with
      | true =>
          refine InitAt.goto_rest rfl ?_
          exact hneed.trans (initOwed_command tr k _ _ _).symm
      | false => exact InitAt.fail hneed
  | arm =>
      exact InitAt.unnoted rfl (InitAt.goto_rest rfl ((InitAt.rest rfl).mp h))
  | setExpect =>
      refine InitAt.unnoted rfl ?_
      have hbuilt : (CallPc.issue (afterFlags cfg (s.cmds k))).built = true := by
        unfold afterFlags
        split
        · split <;> rfl
        · rfl
      obtain ⟨hneed, hraw⟩ := (InitAt.taken rfl).mp h
      exact InitAt.goto_built hbuilt hneed hraw
  | setReq =>
      exact InitAt.unnoted rfl (InitAt.goto_rest rfl ((InitAt.rest rfl).mp h))
  | setCurcmd =>
      exact InitAt.unnoted rfl (InitAt.goto_rest rfl ((InitAt.rest rfl).mp h))
  | setError =>
      have hneed : s.cardNeedInit = initOwed tr := (InitAt.rest rfl).mp h
      exact InitAt.unnoted rfl (InitAt.goto_rest (t := s.setErr k .none) rfl hneed)
  | _ =>
      refine InitAt.unnoted rfl ?_
      obtain ⟨hneed, hraw⟩ := (InitAt.taken rfl).mp h
      exact InitAt.goto_built rfl hneed hraw

/-- **The flag through a step of a call.** -/
theorem callStep_init (hv : cfg.version = .v1) (hs : callStep cfg k ok s = some s')
    (hrun : s'.panicked = false) (hb : s.pc k ≠ .issue .command)
    (h : InitAt cfg s k tr (s.pc k)) :
    InitAt cfg s' k (tr ++ (callNote s k ok (s.pc k)).toList) (s'.pc k) := by
  unfold callStep at hs
  split at hs <;> rename_i hpc <;> rw [hpc] at h hb ⊢
  · cases hs
  · obtain ⟨-, ht⟩ := Option.ite_none_right_eq_some.mp hs
    cases ht
    exact InitAt.unnoted rfl (InitAt.goto_rest rfl ((InitAt.rest rfl).mp h))
  · cases hs
    refine InitAt.unnoted rfl ?_
    unfold busyStep
    rw [hv]
    split
    · exact InitAt.goto_rest rfl ((InitAt.rest rfl).mp h)
    · exact InitAt.goto_rest rfl ((InitAt.rest rfl).mp h)
  · cases hs
    refine InitAt.unnoted rfl ?_
    unfold preRequestStep
    rw [hv]
    split
    · exact InitAt.goto_rest rfl ((InitAt.rest rfl).mp h)
    · exact InitAt.goto_rest rfl ((InitAt.rest rfl).mp h)
  · obtain ⟨hneed, hbuilt⟩ := blockCountStep_rest hs hrun
    rw [InitAt.rest hbuilt, hneed, initOwed_blockCountNote]
    exact (InitAt.rest rfl).mp h
  · cases hs
    refine InitAt.unnoted rfl ?_
    unfold filterStep
    rw [hv]
    split
    · exact InitAt.goto_rest rfl ((InitAt.rest rfl).mp h)
    · exact InitAt.goto_rest rfl ((InitAt.rest rfl).mp h)
    · exact InitAt.goto_rest rfl ((InitAt.rest rfl).mp h)
    · exact InitAt.goto_rest rfl ((InitAt.rest rfl).mp h)
  · obtain ⟨-, ht⟩ := Option.ite_none_right_eq_some.mp hs
    cases ht
    exact InitAt.unnoted rfl (InitAt.goto_rest rfl ((InitAt.rest rfl).mp h))
  · cases hs
    exact issueStep_init hv hrun (fun hn => hb (congrArg CallPc.issue hn)) h
  · cases hs
    exact InitAt.unnoted rfl (InitAt.goto_rest rfl ((InitAt.rest rfl).mp h))
  · cases hs

/-- Without the lock a call of the first driver can only go for it. -/
theorem locking_of_unlocked (hv : cfg.version = .v1) (hs : callStep cfg k ok s = some s')
    (hl : (s.pc k).locked cfg.version = false) : (s.pc k).locking = true := by
  rw [hv] at hl
  unfold callStep at hs
  split at hs <;> rename_i hpc <;> rw [hpc] at hl ⊢
  · cases hs
  · rfl
  · cases hl
  · cases hl
  · rename_i b
    cases b with
    | lock => rfl
    | _ => cases hl
  · cases hl
  · rfl
  · cases hl
  · cases hl
  · cases hs

/-- A call steps with the lock in its hands or free. -/
theorem InitInv.own {s : TraceState} (h : InitInv cfg s) (hc : CallInv cfg s.sdif)
    (hv : cfg.version = .v1) (hs : callStep cfg k ok s.sdif = some s') :
    InitAt cfg s.sdif k s.trace (s.sdif.pc k) := by
  cases hl : (s.sdif.pc k).locked cfg.version with
  | true => exact h.held k (hc.locked k hl)
  | false =>
      have hwait := locking_of_unlocked hv hs hl
      have hfree : s.sdif.lock = none := by
        rcases (callStep_spec hs).lock with ⟨hn, -⟩ | ⟨-, hfree, -⟩ | ⟨hn, -⟩
        · rw [hwait] at hn
          cases hn
        · exact hfree
        · rw [hwait] at hn
          cases hn
      have hrest : (s.sdif.pc k).built = false := by
        by_contra hb
        rw [Bool.not_eq_false] at hb
        rw [built_locked hb] at hl
        cases hl
      exact (InitAt.rest hrest).mpr (h.free hfree)

theorem InitInv.call {s s' : TraceState} (h : InitInv cfg s) (ht : TraceInv cfg s)
    (hv : cfg.version = .v1) (hs : callStep cfg k ok s.sdif = some s'.sdif)
    (hrun : s'.sdif.panicked = false)
    (htr : s'.trace = s.trace ++ (callNote s.sdif k ok (s.sdif.pc k)).toList) :
    InitInv cfg s' := by
  have hown := h.own ht.calls hv hs
  have hcommand : s.sdif.pc k ≠ .issue .command := by
    intro hpc
    have hk := ht.tracked k
    rw [hpc] at hk
    have hv2 : cfg.version = .v2 := hk.2.1
    rw [hv] at hv2
    cases hv2
  have hnext := callStep_init hv hs hrun hcommand hown
  rw [← htr] at hnext
  have hstep := callStep_spec hs
  have hcalls := ht.calls.callStep hstep
  refine ⟨?_, ?_⟩
  · intro hfree
    have hrest : (s'.sdif.pc k).built = false := by
      by_contra hb
      rw [Bool.not_eq_false] at hb
      have hlock := hcalls.locked k (built_locked hb _)
      rw [hfree] at hlock
      cases hlock
    exact (InitAt.rest hrest).mp hnext
  · intro j hj
    by_cases hjk : j = k
    · rw [hjk]
      exact hnext
    · -- the lock is another call's, which this one cannot have
      rcases hstep.lock with ⟨hwait, hlock, -⟩ | ⟨-, -, hlock⟩ | ⟨-, hlock, -⟩
      · have hl : (s.sdif.pc k).locked cfg.version = true := by
          by_contra hn
          rw [Bool.not_eq_true] at hn
          rw [locking_of_unlocked hv hs hn] at hwait
          cases hwait
        have hk := ht.calls.locked k hl
        rw [← hlock, hj] at hk
        exact absurd (Option.some.inj hk) hjk
      · rw [hlock] at hj
        exact absurd (Option.some.inj hj).symm hjk
      · rw [hlock] at hj
        cases hj

/-- An event that leaves the flag and the record alone. -/
theorem InitInv.quiet {s s' : TraceState} (h : InitInv cfg s) (hq : Quiet s.sdif s'.sdif)
    (htr : s'.trace = s.trace) : InitInv cfg s' := by
  have hraw : s'.sdif.cmdPkg.words.rawcmd = s.sdif.cmdPkg.words.rawcmd :=
    congrArg CmdPkg.rawcmd hq.words
  change s'.sdif.cmdPkg.rawcmd = s.sdif.cmdPkg.rawcmd at hraw
  refine ⟨?_, ?_⟩
  · rw [hq.lock, hq.cardNeedInit, htr]
    exact h.free
  · intro k hk
    rw [hq.lock] at hk
    have hheld := h.held k hk
    unfold InitAt at hheld ⊢
    rwa [hq.pc, hq.cardNeedInit, htr, hraw, hq.requests k]

theorem traceStep_init {s s' : TraceState} {e : SdifEvent} (hv : cfg.version = .v1)
    (h : InitInv cfg s) (ht : TraceInv cfg s) (hs : traceStep cfg s e = some s')
    (hrun : s'.sdif.panicked = false) : InitInv cfg s' := by
  obtain ⟨hsdif, htr⟩ := traceStep_iff.mp hs
  obtain ⟨-, hevent⟩ := sdifStep_iff.mp hsdif
  cases e with
  | submit cmd bytes =>
      have hsub : s'.sdif = submit cfg cmd bytes s.sdif := (Option.some.inj hevent).symm
      have htr' : s'.trace = s.trace := htr.trans (List.append_nil _)
      refine ⟨?_, ?_⟩
      · rw [hsub, htr']
        exact h.free
      · intro k hk
        rw [hsub] at hk ⊢
        have hheld := h.held k hk
        rw [htr', submit_pc]
        split
        · rename_i hnew
          have hpc := ht.calls.unborn k (le_of_eq hnew.symm)
          rw [hpc] at hheld
          unfold entry
          split <;> exact hheld
        · rename_i hold
          have hcmd : (submit cfg cmd bytes s.sdif).cmds k = s.sdif.cmds k :=
            Function.update_of_ne hold ..
          unfold InitAt at hheld ⊢
          rwa [hcmd]
  | call k ok => exact h.call ht hv hevent hrun htr
  | updateIos powerUp useHold =>
      obtain ⟨hfree, hup⟩ := Option.ite_none_right_eq_some.mp hevent
      have hsdif' : s'.sdif = updateIos powerUp useHold s.sdif := (Option.some.inj hup).symm
      have hneed := h.free hfree
      have hlock : s'.sdif.lock = none := by
        rw [hsdif']
        exact hfree
      refine ⟨?_, ?_⟩
      · intro _
        rw [hsdif', htr]
        change (s.sdif.cardNeedInit || powerUp) = _
        cases powerUp with
        | true =>
            rw [Bool.or_true]
            exact (initOwed_powerUp s.trace).symm
        | false =>
            rw [Bool.or_false, hneed]
            exact congrArg initOwed (List.append_nil s.trace).symm
      · intro k hk
        rw [hlock] at hk
        cases hk
  | _ => exact h.quiet (eventStep_quiet hevent rfl) (htr.trans (List.append_nil _))

end Steps

/-! ## The claim of the flag -/

/-- A command that is handed over carries `FSDIF_CMD_INIT` just when it is the
first one since the card was powered up. -/
def InitCarried (K : CmdMasks) (pre : List TraceItem) (_k : ℕ) (_cmd : MmcCommand)
    (pkg : CmdPkg) (_dat : Option DatPkg) : Prop :=
  has pkg.rawcmd K.init = initDue pre

/-- The step hands a command over only if no earlier one was dropped since the
card was powered up. -/
def InitKept (s : CardState) (e : CardEvent) : Prop :=
  ∀ k, e = .driver (.call k true) → s.drv.sdif.pc k = .issue .start →
    initLost s.drv.trace = false

theorem card_reachable {s : CardState} (h : (cardSystem cfg bcfg).Reachable s) :
    (traceSystem cfg).Reachable s.drv := by
  induction h with
  | init hi =>
      obtain ⟨mem, hdrv⟩ := hi
      rw [hdrv]
      exact .init ⟨⟨mem, false, rfl⟩, rfl⟩
  | @step s s' e _ he ih =>
      have hdrv := cardStep_drv he
      split at hdrv
      · exact ih.step hdrv
      · rw [hdrv]
        exact ih

theorem card_reachable_init (hv : cfg.version = .v1) {s : CardState}
    (h : (cardSystem cfg bcfg).Reachable s) :
    s.drv.sdif.panicked = false → InitInv cfg s.drv := by
  induction h with
  | init hi =>
      obtain ⟨mem, hdrv⟩ := hi
      intro _
      rw [hdrv]
      exact ⟨fun _ => rfl, fun _ hk => by cases hk⟩
  | @step s s' e hr he ih =>
      intro hrun
      have hdrv := cardStep_drv he
      split at hdrv
      · have hon := (sdifStep_iff.mp (traceStep_iff.mp hdrv).1).1
        exact traceStep_init hv (ih hon) (trace_reachable_inv (card_reachable hr) hon) hdrv hrun
      · rw [hdrv] at hrun ⊢
        exact ih hrun

/-- What is about to be handed over. -/
theorem initCarried_iff (hK : cfg.masks.Distinct) {s : TraceState} {k : ℕ} (h : InitInv cfg s)
    (hc : CallInv cfg s.sdif) (hpc : s.sdif.pc k = .issue .start) :
    s.Hands (InitCarried cfg.masks) k ↔ initLost s.trace = false := by
  have hlock := hc.locked k (by rw [hpc]; rfl)
  have hk := h.held k hlock
  rw [hpc] at hk
  obtain ⟨-, useHold, hraw⟩ := (InitAt.taken rfl).mp hk
  have hbit : has s.sdif.cmdPkg.rawcmd cfg.masks.init = initOwed s.trace := by
    rw [hraw]
    exact has_prepareRawCmd hK cfg.autoStop useHold _ _ .init
  unfold TraceState.Hands InitCarried
  rw [hbit, initOwed]
  cases hlost : initLost s.trace with
  | false => simp
  | true => simp [initDue_of_lost s.trace hlost]

/-- Only a failure in a call drops a command. -/
theorem noted_dropped {s : SdifState} {e : SdifEvent} {j : ℕ}
    (h : noted s e = some (.dropped j)) : ∃ k, e = .call k false := by
  cases e with
  | call k ok =>
      cases ok with
      | false => exact ⟨k, rfl⟩
      | true =>
          simp only [noted] at h
          unfold callNote at h
          split at h <;> cases h
  | updateIos powerUp useHold => cases powerUp <;> cases h
  | _ => cases h

theorem initLost_of_no_drop (tr : List TraceItem) :
    (∀ k, .dropped k ∉ tr) → initLost tr = false := by
  unfold initLost
  induction tr using List.reverseRecOn with
  | nil => exact fun _ => rfl
  | append_singleton tr i ih =>
      intro h
      have htr := ih fun k hk => h k (List.mem_append_left _ hk)
      rw [initLog_append_singleton]
      cases i with
      | dropped req => exact absurd (List.mem_append_right tr List.mem_cons_self) (h req)
      | powerUp => rfl
      | command req cmd pkg dat => rfl
      | blockCount req pkg => exact htr
      | counted req => exact htr

/-- Where no step of a call fails, no command is dropped. -/
theorem card_run_no_drop {s t : CardState} {es : List CardEvent}
    (hgood : ∀ e ∈ es, ∀ k, e ≠ .driver (.call k false)) (hs : ∀ k, .dropped k ∉ s.drv.trace)
    (hrun : (cardSystem cfg bcfg).run s es = some t) : ∀ k, .dropped k ∉ t.drv.trace := by
  induction es generalizing s with
  | nil =>
      cases hrun
      exact hs
  | cons e es ih =>
      rw [System.run_cons, Option.bind_eq_some_iff] at hrun
      obtain ⟨u, hu, hrun⟩ := hrun
      refine ih (fun e' he' => hgood e' (List.mem_cons_of_mem e he')) ?_ hrun
      intro k hk
      have hdrv := cardStep_drv hu
      split at hdrv <;> rename_i hd
      · rw [(traceStep_iff.mp hdrv).2, List.mem_append, Option.mem_toList] at hk
        rcases hk with hk | hk
        · exact hs k hk
        · obtain ⟨j, rfl⟩ := noted_dropped hk
          cases e with
          | driver e =>
              cases hd
              exact hgood _ List.mem_cons_self j rfl
          | writeIvar which value => cases hd
          | updateIos ok => cases hd
      · rw [hdrv] at hk
        exact hs k hk

/-- **Initialisation after power-up.** From the moment the driver is attached,
the commands of a run carry the initialisation as they should if and only if no
command is handed over when the one that had it was dropped. -/
theorem card_init_iff (cfg : SdifConfig) (bcfg : BusConfig) (hv : cfg.version = .v1)
    (hK : cfg.masks.Distinct) (mem : Mem) (bus : BusState) (es : List CardEvent) :
    (cardSystem cfg bcfg).Always ⟨⟨attached mem false, []⟩, bus⟩ es
        (fun s => EachCommand (InitCarried cfg.masks) s.drv.trace) ↔
      (cardSystem cfg bcfg).Meets InitKept ⟨⟨attached mem false, []⟩, bus⟩ es := by
  have hinit : (cardSystem cfg bcfg).init ⟨⟨attached mem false, []⟩, bus⟩ := ⟨mem, rfl⟩
  refine System.always_each_iff (fun s => s.drv.trace)
    (fun s e => (driverEvent bcfg s e).bind (noted s.drv.sdif)) ?_ ?_ ?_ hinit es
  · rintro s ⟨mem, hdrv⟩
    rw [hdrv]
  · intro s e s' hst
    have hdrv := cardStep_drv hst
    split at hdrv <;> rename_i hd <;> rw [hd]
    · exact (traceStep_iff.mp hdrv).2
    · rw [hdrv]
      exact (List.append_nil _).symm
  · intro s e s' hs hst
    cases e with
    | driver e =>
        have hst' : cardStep cfg bcfg s (.driver e) = some s' := hst
        have hon := (sdifStep_iff.mp (traceStep_iff.mp (cardStep_drv hst')).1).1
        have hinv := card_reachable_init hv hs hon
        have hcalls := (trace_reachable_inv (card_reachable hs) hon).calls
        rw [driverEvent, Option.bind_some, noted_hands_iff]
        refine forall_congr' fun k => ?_
        rw [CardEvent.driver.injEq]
        exact forall_congr' fun _ => forall_congr' fun hpc => initCarried_iff hK hinv hcalls hpc
    | writeIvar which value =>
        refine ⟨fun _ k he => ?_, fun _ i hi => ?_⟩
        · cases he
        · cases hi
    | updateIos ok =>
        refine ⟨fun _ k he => ?_, ?_⟩
        · cases he
        · rintro - i hi k cmd pkg dat rfl
          have hcall := (noted_command_iff.mp hi).1
          cases hcall

/-- `CMD0`. -/
def goIdleState : MmcCommand :=
  ⟨0#32, 0#32, false, false, false, none, ⟨0#32, 0#32, 0#32, 0#32⟩, .none⟩

/-- The bus as `phytium_sdif_attach` leaves it. -/
def busAtRest : BusState := busAttached ⟨1, 0#32, false, false, false⟩

/-- The client powers the card up. -/
def powerCardUp : List CardEvent := [.writeIvar .powerMode powerUp, .updateIos true]

/-- Power-up, and two commands that are handed over. -/
theorem card_init_two_commands :
    (cardSystem (sampleSdif .v1) ⟨false, false⟩).Always
      ⟨⟨attached (fun _ => 0#8) false, []⟩, busAtRest⟩
      (powerCardUp ++ (.submit goIdleState [] :: calls 0 15 ++
        .submit goIdleState [] :: calls 1 15).map CardEvent.driver)
      (fun s => EachCommand (InitCarried sampleCmdMasks) s.drv.trace) := by
  refine (card_init_iff (sampleSdif .v1) ⟨false, false⟩ rfl sampleCmdMasks_distinct _ _ _).mpr ?_
  intro fs e t t' hpre hrun _ k _ _
  refine initLost_of_no_drop _ (card_run_no_drop ?_ (fun _ => List.not_mem_nil) hrun)
  intro e' he' j hj
  have hmem := ((List.prefix_append fs [e]).trans hpre).subset he'
  rw [hj] at hmem
  simp [powerCardUp, calls] at hmem

/-- The card is powered up, the first command cannot be started, and the second
one goes out without the initialisation. -/
theorem card_init_lost :
    ¬ ∀ s, (cardSystem (sampleSdif .v1) ⟨false, false⟩).Reachable s →
      EachCommand (InitCarried sampleCmdMasks) s.drv.trace := by
  intro h
  have hreach : ∀ es t, (cardSystem (sampleSdif .v1) ⟨false, false⟩).run
      ⟨⟨attached (fun _ => 0#8) false, []⟩, busAtRest⟩ es = some t →
      (cardSystem (sampleSdif .v1) ⟨false, false⟩).Reachable t :=
    fun _ _ ht => System.reachable_of_run _ ⟨_, rfl⟩ ht
  have hinit := h _ (hreach (powerCardUp ++ (.submit goIdleState [] :: calls 0 12 ++
      .call 0 false :: .call 0 true :: .submit goIdleState [] :: calls 1 13).map CardEvent.driver)
      _ rfl)
    [.powerUp, .dropped 0] _ List.prefix_rfl 1 goIdleState _ _ rfl
  cases hinit

end Phytium.Sdif
