import PhytiumSdk.Sdif.BusSettings

/-!
# Settings messages of SDIF v2

`phytium_sdif_v2_update_ios` copies the message that was accepted last and
patches it where `ios` differs from `curios`, the `ios` of that message. The two
copies do not start from the same values, and the entry for HS400 writes the bus
width under the test for the timing.

The controller library stores an accepted message in `hc.cur_ios`. A panic ends
the run.
-/

namespace Phytium.Sdif

open Lib

/-! ## Messages -/

/-- The `FSDIF_MMC_TIMING_*` values. -/
inductive MsgTiming where
  | legacy
  | mmcHs
  | sdHs
  | uhsSdr12
  | uhsSdr25
  | uhsSdr50
  | uhsDdr50
  | uhsSdr104
  | mmcDdr52
  | mmcHs200
  | mmcHs400
deriving DecidableEq, Repr

/-- The `FSDIF_MMC_BUS_WIDTH_*` values. -/
inductive MsgBusWidth where
  | w1
  | w4
  | w8
deriving DecidableEq, Repr

/-- The `FSDIF_MMC_POWER_*` values. -/
inductive MsgPowerMode where
  | off
  | up
  | on
deriving DecidableEq, Repr

/-- `FSdifMsgDataSetIos`. -/
structure SetIosMsg where
  clock : BitVec 32
  timing : MsgTiming
  busWidth : MsgBusWidth
  powerMode : MsgPowerMode
deriving DecidableEq, Repr

/-- The `FSDIF_MMC_SIGNAL_VOLTAGE_*` values the driver uses. -/
inductive SignalVoltage where
  | v180
  | v330
deriving DecidableEq, Repr

/-- The `SDIF_IOS_*` types. -/
inductive IosType where
  | powerMode
  | busWidth
  | timing
  | clock
deriving DecidableEq, Repr

def msgPowerMode (value : BitVec 32) : Option MsgPowerMode :=
  match value.toNat with
  | 0 => some .off
  | 1 => some .up
  | 2 => some .on
  | _ => none

def msgBusWidth (value : BitVec 32) : Option MsgBusWidth :=
  match value.toNat with
  | 0 => some .w1
  | 2 => some .w4
  | 3 => some .w8
  | _ => none

def msgTiming (nonRemovable : Bool) (value : BitVec 32) : Option MsgTiming :=
  match value.toNat with
  | 0 => some .legacy
  | 1 => if nonRemovable then some .mmcHs else some .sdHs
  | 2 => some .uhsSdr12
  | 3 => some .uhsSdr25
  | 4 => some .uhsSdr50
  | 5 => some .uhsDdr50
  | 6 => some .uhsSdr104
  | 7 => some .mmcDdr52
  | 8 => some .mmcHs200
  | 9 => some .mmcHs400
  | _ => none

/-- `sdif_v2_prepare_update_voltage`; `none` is its panic. -/
def prepareUpdateVoltage (value : BitVec 32) : Option SignalVoltage :=
  if value = vdd180 then some .v180
  else if value = vdd330 ∨ value = vdd340 then some .v330
  else none

/-- `sdif_v2_prepare_update_ios`; `none` is its panic. -/
def prepareUpdateIos (type : IosType) (value : BitVec 32) (nonRemovable : Bool)
    (m : SetIosMsg) : Option SetIosMsg :=
  match type with
  | .powerMode => (msgPowerMode value).map fun p => { m with powerMode := p }
  | .busWidth => (msgBusWidth value).map fun w => { m with busWidth := w }
  | .timing =>
      (msgTiming nonRemovable value).map fun t =>
        { m with
          timing := t
          busWidth := if t = .mmcHs400 then .w8 else m.busWidth }
  | .clock => some { m with clock := value }

/-! ## The driver -/

structure IosState where
  /-- `sc->host.ios` -/
  ios : MmcIos
  /-- `sc->curios` -/
  curios : MmcIos
  /-- `sc->hc.cur_ios` -/
  curMsg : SetIosMsg
  -- history
  /-- the last call that has succeeded: its `ios` and its message -/
  sent : Option (MmcIos × SetIosMsg)
deriving DecidableEq, Repr

/-- The message of `sdif_v2_prepare_init_ios`. -/
def initIosMsg : SetIosMsg := ⟨0#32, .legacy, .w1, .up⟩

/-- `sdif_v2_prepare_init_ios`, which has passed the message and then changed its
copy. -/
def prepareInitIos : SetIosMsg := { initIosMsg with powerMode := .on }

/-- The driver behind `phytium_sdif_v2_attach`. -/
def iosAttached : IosState := ⟨.zero, .zero, prepareInitIos, none⟩

variable (nonRemovable : Bool)

/-- `if (sc->curios.x != ios->x)`, and the call for `x`. -/
def patchIos (type : IosType) (cur value : BitVec 32) (m : SetIosMsg) : Option SetIosMsg :=
  if cur = value then some m else prepareUpdateIos type value nonRemovable m

/-- The voltage part of `phytium_sdif_v2_update_ios`, with the outcome of
`FSdifMsgSetVoltage`; `none` is a panic, `some false` the way to `err_exit`. -/
def updateVolt (voltOk : Bool) (s : IosState) : Option Bool :=
  if nonRemovable ∨ s.curios.vdd = s.ios.vdd then some true
  else (prepareUpdateVoltage s.ios.vdd).map fun _ => voltOk

/-- `target_ios` of `phytium_sdif_v2_update_ios`. -/
def targetIos (s : IosState) : Option SetIosMsg := do
  let m ← patchIos nonRemovable .clock s.curios.clock s.ios.clock s.curMsg
  let m ← patchIos nonRemovable .busWidth s.curios.busWidth s.ios.busWidth m
  let m ← patchIos nonRemovable .timing s.curios.timing s.ios.timing m
  patchIos nonRemovable .powerMode s.curios.powerMode s.ios.powerMode m

/-- `phytium_sdif_v2_update_ios`. `voltOk` and `ok` are the outcomes of
`FSdifMsgSetVoltage` and `FSdifMsgSetIos`. -/
def updateIosV2 (voltOk ok : Bool) (s : IosState) : Option (IosState × Option Errno) := do
  if ← updateVolt nonRemovable voltOk s then
    let target ← targetIos nonRemovable s
    if ok then
      some (⟨s.ios, s.ios, target, some (s.ios, target)⟩, none)
    else some (s, some .eio)
  else some (s, some .eio)

inductive IosEvent where
  | writeIvar (which : IosVar) (value : BitVec 32)
  | update (voltOk ok : Bool)
deriving DecidableEq, Repr

def iosStep (s : IosState) : IosEvent → Option IosState
  | .writeIvar which value => some { s with ios := writeIvar which value s.ios }
  | .update voltOk ok => (updateIosV2 nonRemovable voltOk ok s).map Prod.fst

def iosSystem : System IosState IosEvent where
  init := fun s => s = iosAttached
  step := iosStep nonRemovable

/-! ## What is to hold -/

/-- The message for an `ios` alone. -/
def messageOf (ios : MmcIos) : Option SetIosMsg := do
  let timing ← msgTiming nonRemovable ios.timing
  let busWidth ← msgBusWidth ios.busWidth
  let powerMode ← msgPowerMode ios.powerMode
  some ⟨ios.clock, timing, if timing = .mmcHs400 then .w8 else busWidth, powerMode⟩

/-- The last call that has succeeded has sent the message for its `ios`. -/
def MessageFaithful (s : IosState) : Prop :=
  ∀ ios m, s.sent = some (ios, m) → messageOf nonRemovable ios = some m

/-- The call gets as far as `FSdifMsgSetIos`, and that succeeds. -/
def iosGoes (voltOk ok : Bool) (s : IosState) : Prop :=
  (nonRemovable = true ∨ s.curios.vdd = s.ios.vdd ∨ voltOk = true) ∧ ok = true

instance (voltOk ok : Bool) (s : IosState) : Decidable (iosGoes nonRemovable voltOk ok s) :=
  inferInstanceAs (Decidable (_ ∧ _))

/-- The first call that succeeds does not ask for power off. A call that
succeeds with HS400 in the last message has a bus width of 8, or keeps the bus
width just when it keeps HS400. -/
def iosOk (s : IosState) : IosEvent → Prop
  | .writeIvar _ _ => True
  | .update voltOk ok =>
      iosGoes nonRemovable voltOk ok s →
        (s.sent = none → s.ios.powerMode ≠ powerOff) ∧
        (s.curios.timing = busTimingMmcHs400 → s.ios.busWidth = busWidth8 ∨
          (s.ios.timing = busTimingMmcHs400 ↔ s.ios.busWidth = s.curios.busWidth))

instance (s : IosState) (e : IosEvent) : Decidable (iosOk nonRemovable s e) := by
  cases e <;> unfold iosOk <;> infer_instance

/-! ## The tables -/

variable {nonRemovable} {s s' : IosState} {ios cur : MmcIos} {m m' : SetIosMsg}

theorem msgTiming_hs400 (nonRemovable : Bool) (v : BitVec 32) :
    msgTiming nonRemovable v = some .mmcHs400 ↔ v = busTimingMmcHs400 := by
  constructor
  · intro h
    unfold msgTiming at h
    split at h
    case h_2 => split at h <;> cases h
    case h_10 hv => exact BitVec.eq_of_toNat_eq hv
    all_goals cases h
  · rintro rfl
    rfl

theorem msgBusWidth_w8 (v : BitVec 32) : msgBusWidth v = some .w8 ↔ v = busWidth8 := by
  constructor
  · intro h
    unfold msgBusWidth at h
    split at h
    case h_3 hv => exact BitVec.eq_of_toNat_eq hv
    all_goals cases h
  · rintro rfl
    rfl

/-- The message is that of the `ios`, but for the power mode. -/
structure Mirrors (nonRemovable : Bool) (ios : MmcIos) (m : SetIosMsg) : Prop where
  clock : m.clock = ios.clock
  timing : msgTiming nonRemovable ios.timing = some m.timing
  busWidth : ∃ w, msgBusWidth ios.busWidth = some w ∧
    m.busWidth = if m.timing = .mmcHs400 then .w8 else w

theorem messageOf_iff :
    messageOf nonRemovable ios = some m ↔
      Mirrors nonRemovable ios m ∧ msgPowerMode ios.powerMode = some m.powerMode := by
  constructor
  · intro h
    simp only [messageOf, Option.bind_eq_bind, Option.bind_eq_some_iff, Option.some.injEq] at h
    obtain ⟨t, ht, w, hw, p, hp, rfl⟩ := h
    exact ⟨⟨rfl, ht, w, hw, rfl⟩, hp⟩
  · rintro ⟨⟨hc, ht, w, hw, hwidth⟩, hp⟩
    simp only [messageOf, Option.bind_eq_bind, Option.bind_eq_some_iff, Option.some.injEq]
    refine ⟨m.timing, ht, w, hw, m.powerMode, hp, ?_⟩
    rw [← hwidth, ← hc]

/-! ## What a message is patched to -/

theorem patchIos_clock {c v : BitVec 32} (h : patchIos nonRemovable .clock c v m = some m') :
    m' = { m with clock := if c = v then m.clock else v } := by
  unfold patchIos at h
  split at h
  · rename_i hk
    cases h
    rw [if_pos hk]
  · rename_i hk
    cases h
    rw [if_neg hk]

/-- A field that is set to what `new` gives, unless its value is unchanged. -/
theorem patched {α β : Type*} {c v : BitVec 32} {old : α} {new : Option α} {f : α → β} {r : β}
    (h : (if c = v then some (f old) else new.map f) = some r) :
    ∃ x, (if c = v then some old else new) = some x ∧ r = f x := by
  split at h
  · rename_i hk
    cases h
    exact ⟨old, if_pos hk, rfl⟩
  · rename_i hk
    obtain ⟨x, hx, rfl⟩ := Option.map_eq_some_iff.mp h
    refine ⟨x, ?_, rfl⟩
    rw [if_neg hk, hx]

theorem patchIos_busWidth {c v : BitVec 32}
    (h : patchIos nonRemovable .busWidth c v m = some m') :
    ∃ w, (if c = v then some m.busWidth else msgBusWidth v) = some w ∧
      m' = { m with busWidth := w } := by
  unfold patchIos at h
  exact patched (f := fun w => { m with busWidth := w }) h

theorem patchIos_timing {c v : BitVec 32} (h : patchIos nonRemovable .timing c v m = some m') :
    ∃ t, (if c = v then some m.timing else msgTiming nonRemovable v) = some t ∧
      m' = { m with
        timing := t
        busWidth := if c ≠ v ∧ t = .mmcHs400 then .w8 else m.busWidth } := by
  unfold patchIos at h
  split at h
  · rename_i hk
    cases h
    refine ⟨m.timing, if_pos hk, ?_⟩
    rw [if_neg fun hn => hn.1 hk]
  · rename_i hk
    obtain ⟨t, ht, rfl⟩ := Option.map_eq_some_iff.mp h
    refine ⟨t, ?_, ?_⟩
    · rw [if_neg hk, ht]
    · by_cases hs : t = .mmcHs400
      · rw [if_pos hs, if_pos ⟨hk, hs⟩]
      · rw [if_neg hs, if_neg fun hn => hs hn.2]

theorem patchIos_powerMode {c v : BitVec 32}
    (h : patchIos nonRemovable .powerMode c v m = some m') :
    ∃ p, (if c = v then some m.powerMode else msgPowerMode v) = some p ∧
      m' = { m with powerMode := p } := by
  unfold patchIos at h
  exact patched (f := fun p => { m with powerMode := p }) h

/-- The bus width of the target, if the last message had the right one: it is
right just when HS400 stays with an unchanged bus width or goes with a changed
one, or the bus width is 8. -/
theorem target_width_iff {t : MsgTiming} {w : MsgBusWidth} (hm : Mirrors nonRemovable cur m)
    (ht : msgTiming nonRemovable ios.timing = some t)
    (hw : (if cur.busWidth = ios.busWidth then some m.busWidth else msgBusWidth ios.busWidth) =
      some w) :
    (∃ v, msgBusWidth ios.busWidth = some v ∧
      (if cur.timing ≠ ios.timing ∧ t = .mmcHs400 then .w8 else w) =
        (if t = .mmcHs400 then MsgBusWidth.w8 else v)) ↔
      (cur.timing = busTimingMmcHs400 → ios.busWidth = busWidth8 ∨
        (ios.timing = busTimingMmcHs400 ↔ ios.busWidth = cur.busWidth)) := by
  have htarget : t = .mmcHs400 ↔ ios.timing = busTimingMmcHs400 := by
    rw [← msgTiming_hs400 nonRemovable, ht, Option.some.injEq]
  have hlast : m.timing = .mmcHs400 ↔ cur.timing = busTimingMmcHs400 := by
    rw [← msgTiming_hs400 nonRemovable, hm.timing, Option.some.injEq]
  by_cases hk : cur.busWidth = ios.busWidth
  · obtain ⟨v, hv, hwidth⟩ := hm.busWidth
    rw [hk] at hv
    rw [if_pos hk, Option.some.injEq] at hw
    subst hw
    have h8 : v = .w8 ↔ ios.busWidth = busWidth8 := by
      rw [← msgBusWidth_w8, hv, Option.some.injEq]
    rw [hv, hwidth]
    by_cases hc : cur.timing = busTimingMmcHs400
    · by_cases hi : ios.timing = busTimingMmcHs400
      · simp [htarget, hlast, hc, hi, hk]
      · simp [htarget, hlast, hc, hi, hk, ← h8, eq_comm]
    · by_cases hi : ios.timing = busTimingMmcHs400
      · simp [htarget, hc, hi]
      · simp [htarget, hlast, hc, hi]
  · rw [if_neg hk] at hw
    have h8 : w = .w8 ↔ ios.busWidth = busWidth8 := by
      rw [← msgBusWidth_w8, hw, Option.some.injEq]
    have hk' : ¬ ios.busWidth = cur.busWidth := fun he => hk he.symm
    rw [hw]
    by_cases hi : ios.timing = busTimingMmcHs400
    · by_cases hc : cur.timing = busTimingMmcHs400
      · simp [htarget, hc, hi, hk', ← h8]
      · simp [htarget, hc, hi]
    · simp [htarget, hi, hk']

/-- **The target** of a message that mirrors `cur`: it is the message for `ios`
just when the bus width comes out right and the power mode is patched or was
right before. -/
theorem targetIos_iff {target : SetIosMsg} (hm : Mirrors nonRemovable s.curios s.curMsg)
    (ht : targetIos nonRemovable s = some target) :
    messageOf nonRemovable s.ios = some target ↔
      (s.curios.timing = busTimingMmcHs400 → s.ios.busWidth = busWidth8 ∨
        (s.ios.timing = busTimingMmcHs400 ↔ s.ios.busWidth = s.curios.busWidth)) ∧
      (s.curios.powerMode = s.ios.powerMode →
        msgPowerMode s.curios.powerMode = some s.curMsg.powerMode) := by
  simp only [targetIos, Option.bind_eq_bind, Option.bind_eq_some_iff] at ht
  obtain ⟨m1, h1, m2, h2, m3, h3, h4⟩ := ht
  have e1 := patchIos_clock h1
  obtain ⟨w, hw, e2⟩ := patchIos_busWidth h2
  obtain ⟨t, htm, e3⟩ := patchIos_timing h3
  obtain ⟨p, hp, e4⟩ := patchIos_powerMode h4
  subst e1 e2 e3 e4
  have hclock : (if s.curios.clock = s.ios.clock then s.curMsg.clock else s.ios.clock) =
      s.ios.clock := by
    split
    · rename_i hk
      rw [hm.clock, hk]
    · rfl
  have htiming : msgTiming nonRemovable s.ios.timing = some t := by
    split at htm
    · rename_i hk
      rw [← hk, hm.timing]
      exact htm
    · exact htm
  have hpower : msgPowerMode s.ios.powerMode = some p ↔
      (s.curios.powerMode = s.ios.powerMode →
        msgPowerMode s.curios.powerMode = some s.curMsg.powerMode) := by
    change (if s.curios.powerMode = s.ios.powerMode then some s.curMsg.powerMode
      else msgPowerMode s.ios.powerMode) = some p at hp
    split at hp
    · rename_i hk
      rw [← hk, ← hp]
      constructor
      · intro h _
        exact h
      · intro h
        exact h rfl
    · rename_i hk
      exact iff_of_true hp fun hn => absurd hn hk
  rw [messageOf_iff, ← target_width_iff hm htiming hw]
  constructor
  · rintro ⟨hmir, hpm⟩
    exact ⟨hmir.busWidth, hpower.mp hpm⟩
  · rintro ⟨hwidth, hpm⟩
    exact ⟨⟨hclock, htiming, hwidth⟩, hpower.mpr hpm⟩

/-! ## Every run -/

/-- The state is that of `attach`, or that of the last call that has
succeeded. -/
structure IosInv (s : IosState) : Prop where
  first : s.sent = none → s.curios = .zero ∧ s.curMsg = prepareInitIos
  later : ∀ i m, s.sent = some (i, m) → s.curios = i ∧ s.curMsg = m

/-- What a call does: it fails and changes nothing, or sends its target. -/
theorem updateIosV2_cases {voltOk ok : Bool}
    (hcall : (updateIosV2 nonRemovable voltOk ok s).map Prod.fst = some s') :
    (¬ iosGoes nonRemovable voltOk ok s ∧ s' = s) ∨
    (iosGoes nonRemovable voltOk ok s ∧ ∃ target, targetIos nonRemovable s = some target ∧
      s' = ⟨s.ios, s.ios, target, some (s.ios, target)⟩) := by
  obtain ⟨⟨t, err⟩, h, rfl⟩ := Option.map_eq_some_iff.mp hcall
  rw [updateIosV2, Option.bind_eq_bind, Option.bind_eq_some_iff] at h
  obtain ⟨b, hv, h⟩ := h
  have hvolt : b = true ↔ nonRemovable = true ∨ s.curios.vdd = s.ios.vdd ∨ voltOk = true := by
    unfold updateVolt at hv
    split at hv
    · rename_i hk
      cases hv
      simp only [true_iff]
      rcases hk with hk | hk
      · exact Or.inl hk
      · exact Or.inr (Or.inl hk)
    · rename_i hk
      rw [not_or] at hk
      obtain ⟨v, -, rfl⟩ := Option.map_eq_some_iff.mp hv
      constructor
      · exact fun hb => Or.inr (Or.inr hb)
      · rintro (hn | hn | hn)
        · exact absurd hn hk.1
        · exact absurd hn hk.2
        · exact hn
  cases b with
  | false =>
      cases h
      left
      refine ⟨fun hg => ?_, rfl⟩
      exact Bool.false_ne_true (hvolt.mpr hg.1)
  | true =>
      rw [if_pos rfl, Option.bind_eq_bind, Option.bind_eq_some_iff] at h
      obtain ⟨target, ht, h⟩ := h
      cases ok with
      | false =>
          cases h
          left
          exact ⟨fun hg => Bool.false_ne_true hg.2, rfl⟩
      | true =>
          cases h
          right
          exact ⟨⟨hvolt.mp rfl, rfl⟩, target, ht, rfl⟩

theorem IosInv.step {e : IosEvent} (h : IosInv s) (hs : iosStep nonRemovable s e = some s') :
    IosInv s' := by
  cases e with
  | writeIvar which value =>
      cases hs
      exact ⟨h.first, h.later⟩
  | update voltOk ok =>
      rcases updateIosV2_cases hs with ⟨-, rfl⟩ | ⟨-, target, -, rfl⟩
      · exact h
      · constructor
        · intro hn
          cases hn
        · intro i m hsent
          cases hsent
          exact ⟨rfl, rfl⟩

theorem ios_reachable_inv (h : (iosSystem nonRemovable).Reachable s) : IosInv s := by
  apply h.invariant
  · rintro s rfl
    constructor
    · exact fun _ => ⟨rfl, rfl⟩
    · intro i m hsent
      cases hsent
  · intro s e s' hi (hs : iosStep nonRemovable s e = some s')
    exact hi.step hs

/-- A faithful state has the message of its `curios`, but for the power mode it
has come up with. -/
theorem MessageFaithful.mirrors (h : MessageFaithful nonRemovable s) (hi : IosInv s) :
    Mirrors nonRemovable s.curios s.curMsg ∧
    (msgPowerMode s.curios.powerMode = some s.curMsg.powerMode ↔ s.sent ≠ none) := by
  cases hsent : s.sent with
  | none =>
      obtain ⟨hc, hm⟩ := hi.first hsent
      rw [hc, hm]
      refine ⟨⟨rfl, rfl, .w1, rfl, rfl⟩, ?_⟩
      decide
  | some im =>
      obtain ⟨i, m⟩ := im
      obtain ⟨hc, hm⟩ := hi.later i m hsent
      obtain ⟨hmir, hp⟩ := messageOf_iff.mp (h i m hsent)
      rw [hc, hm]
      exact ⟨hmir, iff_of_true hp (Option.some_ne_none _)⟩

/-- Behind a call that has succeeded, the message is the one for its `ios` just
when the call was one of those `iosOk` asks for. -/
theorem target_faithful_iff {target : SetIosMsg} (h : MessageFaithful nonRemovable s)
    (hi : IosInv s) (ht : targetIos nonRemovable s = some target) :
    messageOf nonRemovable s.ios = some target ↔
      (s.sent = none → s.ios.powerMode ≠ powerOff) ∧
      (s.curios.timing = busTimingMmcHs400 → s.ios.busWidth = busWidth8 ∨
        (s.ios.timing = busTimingMmcHs400 ↔ s.ios.busWidth = s.curios.busWidth)) := by
  obtain ⟨hmir, hpower⟩ := h.mirrors hi
  rw [targetIos_iff hmir ht, and_comm, hpower]
  refine and_congr_left fun _ => ?_
  constructor
  · intro hp hnone hoff
    refine hp ?_ hnone
    rw [(hi.first hnone).1, hoff]
    rfl
  · intro hp hk hnone
    refine hp hnone ?_
    rw [← hk, (hi.first hnone).1]
    rfl

theorem MessageFaithful.step {e : IosEvent} (h : MessageFaithful nonRemovable s) (hi : IosInv s)
    (hok : iosOk nonRemovable s e) (hs : iosStep nonRemovable s e = some s') :
    MessageFaithful nonRemovable s' := by
  cases e with
  | writeIvar which value =>
      cases hs
      exact h
  | update voltOk ok =>
      rcases updateIosV2_cases hs with ⟨-, rfl⟩ | ⟨hg, target, ht, rfl⟩
      · exact h
      · intro i m hsent
        cases hsent
        exact (target_faithful_iff h hi ht).mpr (hok hg)

theorem not_faithful_of_not_ok {e : IosEvent} (h : MessageFaithful nonRemovable s) (hi : IosInv s)
    (hok : ¬ iosOk nonRemovable s e) (hs : iosStep nonRemovable s e = some s') :
    ¬ MessageFaithful nonRemovable s' := by
  cases e with
  | writeIvar which value => exact absurd trivial hok
  | update voltOk ok =>
      obtain ⟨hg, hbad⟩ := Classical.not_imp.mp hok
      rcases updateIosV2_cases hs with ⟨hn, -⟩ | ⟨-, target, ht, rfl⟩
      · exact absurd hg hn
      · intro h'
        exact hbad ((target_faithful_iff h hi ht).mp (h' s.ios target rfl))

theorem faithful_of_ok (h : ((iosSystem nonRemovable).restrict (iosOk nonRemovable)).Reachable s) :
    MessageFaithful nonRemovable s := by
  apply h.restrict_invariant
  · rintro s rfl
    intro i m hsent
    cases hsent
  · intro s e s' hr hp hok (hs : iosStep nonRemovable s e = some s')
    exact hp.step (ios_reachable_inv hr) hok hs

/-- **The messages do not depend on the past.** Along a run every call that
succeeds sends the message for its own `ios` if and only if the first of them
does not ask for power off, and each of them that finds HS400 in the last
message asks for a bus width of 8, or keeps the bus width just when it keeps
HS400. -/
theorem messages_history_free_iff (nonRemovable : Bool) (es : List IosEvent) :
    (iosSystem nonRemovable).Always iosAttached es (MessageFaithful nonRemovable) ↔
      (iosSystem nonRemovable).Meets (iosOk nonRemovable) iosAttached es := by
  apply System.always_iff_meets (M := iosSystem nonRemovable) (s := iosAttached) rfl
  · intro s h
    exact faithful_of_ok h
  · intro s e s' hr hok hs
    exact not_faithful_of_not_ok (faithful_of_ok hr) (ios_reachable_inv hr.of_restrict) hok hs

/-- A card leaves HS400 at a bus width of 4. -/
theorem width_left_behind_by_hs400 :
    ¬ ∀ s, (iosSystem true).Reachable s → MessageFaithful true s := by
  intro h
  have hrun : ((iosSystem true).run iosAttached
      [.writeIvar .powerMode powerOn, .writeIvar .busWidth busWidth4,
        .writeIvar .timing busTimingMmcHs400, .update true true,
        .writeIvar .timing busTimingNormal, .update true true]).map IosState.sent =
      some (some (⟨0#32, 0#32, busWidth4, powerOn, busTimingNormal⟩,
        ⟨0#32, .legacy, .w8, .on⟩)) := by decide
  obtain ⟨s, hs, hsent⟩ := Option.map_eq_some_iff.mp hrun
  have hmsg := h s (System.reachable_of_run _ rfl hs) _ _ hsent
  exact absurd hmsg (by decide)

end Phytium.Sdif
