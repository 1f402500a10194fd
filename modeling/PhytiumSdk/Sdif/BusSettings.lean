import PhytiumSdk.Lib.Cached
import PhytiumSdk.Lib.System
import PhytiumSdk.Sdif.Command

/-!
# Bus settings of SDIF v1

`phytium_sdif_update_ios` makes each setting only if the value it was last made
for has changed. The DDR mode depends on `ios->timing`, but is set together with
the clock and goes by the cache of the clock.

The client writes `host.ios` one variable at a time (`write_ivar`) and then calls
`update_ios`. The library calls that set the clock may fail, and then leave the
controller as it is.
-/

namespace Phytium.Sdif

open Lib

/-! ## `struct mmc_ios` -/

/-- The variables of `struct mmc_ios` that the drivers use. -/
structure MmcIos where
  clock : BitVec 32
  vdd : BitVec 32
  busWidth : BitVec 32
  powerMode : BitVec 32
  timing : BitVec 32
deriving DecidableEq, Repr

/-- The `MMCBR_IVAR_*` of these variables. -/
inductive IosVar where
  | busWidth
  | clock
  | powerMode
  | vdd
  | timing
deriving DecidableEq, Repr

/-- `phytium_sdif_write_ivar`, `phytium_sdif_v2_write_ivar`. -/
def writeIvar (which : IosVar) (value : BitVec 32) (ios : MmcIos) : MmcIos :=
  match which with
  | .busWidth => { ios with busWidth := value }
  | .clock => { ios with clock := value }
  | .powerMode => { ios with powerMode := value }
  | .vdd => { ios with vdd := value }
  | .timing => { ios with timing := value }

/-- `memset` of a `struct mmc_ios`. -/
def MmcIos.zero : MmcIos := ⟨0#32, 0#32, 0#32, 0#32, 0#32⟩

def busWidth4 : BitVec 32 := 2#32

def busWidth8 : BitVec 32 := 3#32

def powerOff : BitVec 32 := 0#32

def powerUp : BitVec 32 := 1#32

def powerOn : BitVec 32 := 2#32

def busTimingNormal : BitVec 32 := 0#32

def busTimingUhsDdr50 : BitVec 32 := 5#32

def busTimingMmcDdr52 : BitVec 32 := 7#32

def busTimingMmcHs400 : BitVec 32 := 9#32

def vdd180 : BitVec 32 := 5#32

def vdd330 : BitVec 32 := 20#32

def vdd340 : BitVec 32 := 21#32

/-! ## The clock tables -/

/-- `FSdifTiming`, without the pad delay, which is `NULL` in both tables. -/
structure FSdifTiming where
  useHold : Bool
  clkDiv : BitVec 32
  clkSrc : BitVec 32
  shift : BitVec 32
deriving DecidableEq, Repr

/-- `sdif_get_sd_timing`. -/
def getSdTiming (targetClock : BitVec 32) : Option FSdifTiming :=
  if targetClock.toNat ≤ 400000 then some ⟨true, 0x7e7dfa#32, 0x000502#32, 0x0#32⟩
  else if targetClock.toNat ≤ 25000000 then some ⟨true, 0x030204#32, 0x000302#32, 0x0#32⟩
  else if targetClock.toNat ≤ 50000000 then some ⟨true, 0x030204#32, 0x000502#32, 0x0#32⟩
  else if targetClock.toNat ≤ 100000000 then some ⟨false, 0x010002#32, 0x000202#32, 0x0#32⟩
  else none

/-- `sdif_get_mmc_timing`. -/
def getMmcTiming (targetClock : BitVec 32) : Option FSdifTiming :=
  if targetClock.toNat ≤ 400000 then some ⟨true, 0x7e7dfa#32, 0x000502#32, 0x0#32⟩
  else if targetClock.toNat ≤ 26000000 then some ⟨true, 0x030204#32, 0x000302#32, 0x0#32⟩
  else if targetClock.toNat ≤ 52000000 then some ⟨false, 0x030204#32, 0x000202#32, 0x0#32⟩
  else if targetClock.toNat ≤ 66000000 then some ⟨false, 0x010002#32, 0x000202#32, 0x0#32⟩
  else if targetClock.toNat ≤ 100000000 then some ⟨false, 0x010002#32, 0x000202#32, 0x0#32⟩
  else none

/-! ## The driver -/

/-- `hc.config.non_removable` and `sc->pre_fix_timing`. -/
structure BusConfig where
  nonRemovable : Bool
  preFixTiming : Bool

/-- The settings of the controller. -/
structure BusHw where
  width : ℕ
  clock : BitVec 32
  ddr : Bool
  power : Bool
  voltage18 : Bool
deriving DecidableEq, Repr

structure BusState where
  /-- `sc->host.ios` -/
  ios : MmcIos
  busWidth : BitVec 32
  powerMode : BitVec 32
  cardClock : BitVec 32
  voltage : BitVec 32
  useHold : Bool
  cardNeedInit : Bool
  curTiming : Option FSdifTiming
  hw : BusHw
  -- history
  /-- the `ios` for which the bus width was last set -/
  widthFor : Option MmcIos
  /-- the `ios` for which clock and DDR mode were last set -/
  clockFor : Option MmcIos
  /-- the `ios` of the last call, if it has returned 0 -/
  last : Option MmcIos
deriving DecidableEq, Repr

variable (cfg : BusConfig)

/-- What `FSdifSetCardBusWidth` is called with. -/
def widthOf (busWidth : BitVec 32) : ℕ :=
  if busWidth = busWidth8 then 8 else if busWidth = busWidth4 then 4 else 1

/-- `is_ddr`. -/
def isDdr (timing : BitVec 32) : Bool :=
  timing == busTimingUhsDdr50 || timing == busTimingMmcDdr52 || timing == busTimingMmcHs400

/-- The bus width. -/
def updateWidth (s : BusState) : BusState :=
  if s.busWidth = s.ios.busWidth then s
  else
    { s with
      hw := { s.hw with width := widthOf s.ios.busWidth }
      busWidth := s.ios.busWidth
      widthFor := some s.ios }

/-- The power mode. -/
def updatePower (s : BusState) : BusState :=
  if s.powerMode = s.ios.powerMode then s
  else
    let s :=
      if s.ios.powerMode = powerOff then { s with hw := { s.hw with power := false } }
      else if s.ios.powerMode = powerUp then
        { s with
          cardNeedInit := true
          hw := { s.hw with power := true } }
      else s
    { s with powerMode := s.ios.powerMode }

/-- `FSdifSetClkFreqByCalc` or `FSdifSetClkFreqByDict`, and
`FSdifSetCardDDRMode`. -/
def programClock (s : BusState) : BusState :=
  { s with
    hw :=
      { s.hw with
        clock := s.ios.clock
        ddr := isDdr s.ios.timing }
    cardClock := s.ios.clock
    clockFor := some s.ios }

/-- The entry of the table for a clock. -/
def lookupTiming (clock : BitVec 32) : Option FSdifTiming :=
  if cfg.nonRemovable then getMmcTiming clock else getSdTiming clock

/-- The clock; `false` is the way to `err_exit`. -/
def updateClock (ok : Bool) (s : BusState) : BusState × Bool :=
  if s.cardClock = s.ios.clock then (s, true)
  else if cfg.preFixTiming then
    match lookupTiming cfg s.ios.clock with
    | none => ({ s with curTiming := none }, false)
    | some t =>
        let s :=
          { s with
            curTiming := some t
            useHold := t.useHold }
        if ok then (programClock s, true) else (s, false)
  else if ok then (programClock s, true)
  else (s, false)

/-- The voltage. -/
def updateVoltage (s : BusState) : BusState :=
  if cfg.nonRemovable ∨ s.voltage = s.ios.vdd then s
  else
    let s :=
      if s.ios.vdd = vdd330 ∨ s.ios.vdd = vdd340 then
        { s with hw := { s.hw with voltage18 := false } }
      else if s.ios.vdd = vdd180 then { s with hw := { s.hw with voltage18 := true } }
      else s
    { s with voltage := s.ios.vdd }

/-- `phytium_sdif_update_ios`. `ok` is the outcome of the library call that sets
the clock. -/
def updateIosV1 (ok : Bool) (s : BusState) : BusState × Option Errno :=
  let (s, clockSet) := updateClock cfg ok (updatePower (updateWidth s))
  if clockSet then (updateVoltage cfg s, none) else (s, some .eio)

inductive BusEvent where
  | writeIvar (which : IosVar) (value : BitVec 32)
  | update (ok : Bool)
deriving DecidableEq, Repr

/-- The call and its result. -/
def updateStep (ok : Bool) (s : BusState) : BusState :=
  match updateIosV1 cfg ok s with
  | (t, none) => { t with last := some s.ios }
  | (t, some _) => { t with last := none }

def busStep (s : BusState) : BusEvent → Option BusState
  | .writeIvar which value => some { s with ios := writeIvar which value s.ios }
  | .update ok => some (updateStep cfg ok s)

/-- The driver behind `phytium_sdif_attach`, and the controller as it comes
up. -/
def busAttached (hw : BusHw) : BusState where
  ios := .zero
  busWidth := 0xff#32
  powerMode := 0xff#32
  cardClock := 0xff#32
  voltage := 0#32
  useHold := false
  cardNeedInit := false
  curTiming := none
  hw := hw
  widthFor := none
  clockFor := none
  last := none

variable (hw : BusHw)

def busSystem : System BusState BusEvent where
  init := fun s => s = busAttached hw
  step := busStep cfg

/-! ## What is to hold -/

/-- The controller's bus width, clock and DDR mode are those of the `ios`. -/
def Configured (h : BusHw) (ios : MmcIos) : Prop :=
  h.width = widthOf ios.busWidth ∧ h.clock = ios.clock ∧ h.ddr = isDdr ios.timing

instance (h : BusHw) (ios : MmcIos) : Decidable (Configured h ios) :=
  inferInstanceAs (Decidable (_ ∧ _))

/-- After a call that has returned 0, the controller is set for its `ios`. -/
def HistoryFree (s : BusState) : Prop :=
  ∀ ios, s.last = some ios → Configured s.hw ios

/-- Clock and DDR mode, which go by the cache of the clock. -/
def clockKey (ios : MmcIos) : BitVec 32 := ios.clock

def clockSetting (ios : MmcIos) : BitVec 32 × Bool := (ios.clock, isDdr ios.timing)

/-- The bus width, which goes by its own cache. -/
def widthKey (ios : MmcIos) : BitVec 32 := ios.busWidth

def widthSetting (ios : MmcIos) : ℕ := widthOf ios.busWidth

def ClockFresh (s : BusState) : Prop :=
  Fresh clockKey clockSetting 0xff#32 (hw.clock, hw.ddr) s.clockFor s.ios

def WidthFresh (s : BusState) : Prop :=
  Fresh widthKey widthSetting 0xff#32 hw.width s.widthFor s.ios

instance (s : BusState) : Decidable (ClockFresh hw s) :=
  inferInstanceAs (Decidable (Fresh ..))

instance (s : BusState) : Decidable (WidthFresh hw s) :=
  inferInstanceAs (Decidable (Fresh ..))

/-- The clock is cached, or can be set. -/
def clockGoes (ok : Bool) (s : BusState) : Prop :=
  s.cardClock = s.ios.clock ∨
    ok = true ∧ (cfg.preFixTiming = true → (lookupTiming cfg s.ios.clock).isSome = true)

instance (ok : Bool) (s : BusState) : Decidable (clockGoes cfg ok s) :=
  inferInstanceAs (Decidable (_ ∨ _))

/-- A call that does not fail in the clock finds fresh caches. -/
def busOk (s : BusState) : BusEvent → Prop
  | .writeIvar _ _ => True
  | .update ok => clockGoes cfg ok s → ClockFresh hw s ∧ WidthFresh hw s

instance (s : BusState) (e : BusEvent) : Decidable (busOk cfg hw s e) := by
  cases e <;> unfold busOk <;> infer_instance

/-! ## The parts of a call -/

variable {cfg hw} {s s' : BusState}

/-- The part of a state the clock setting is about. -/
structure ClockKept (s s' : BusState) : Prop where
  ios : s'.ios = s.ios
  cardClock : s'.cardClock = s.cardClock
  clockFor : s'.clockFor = s.clockFor
  clock : s'.hw.clock = s.hw.clock
  ddr : s'.hw.ddr = s.hw.ddr

/-- The part of a state the bus width is about. -/
structure WidthKept (s s' : BusState) : Prop where
  ios : s'.ios = s.ios
  busWidth : s'.busWidth = s.busWidth
  widthFor : s'.widthFor = s.widthFor
  width : s'.hw.width = s.hw.width

/-- Both caches belong to what the controller was last set for. -/
structure BusInv (hw : BusHw) (s : BusState) : Prop where
  width : Tracks widthKey widthSetting 0xff#32 hw.width s.widthFor s.busWidth s.hw.width
  clock : Tracks clockKey clockSetting 0xff#32 (hw.clock, hw.ddr) s.clockFor s.cardClock
    (s.hw.clock, s.hw.ddr)

theorem BusInv.congr (h : BusInv hw s) (hw' : WidthKept s s') (hc : ClockKept s s') :
    BusInv hw s' := by
  constructor
  · rw [hw'.widthFor, hw'.busWidth, hw'.width]
    exact h.width
  · rw [hc.clockFor, hc.cardClock, hc.clock, hc.ddr]
    exact h.clock

theorem updateWidth_clock (s : BusState) : ClockKept s (updateWidth s) := by
  unfold updateWidth
  split
  · exact ⟨rfl, rfl, rfl, rfl, rfl⟩
  · exact ⟨rfl, rfl, rfl, rfl, rfl⟩

/-- The bus width is that of `ios` just when its cache was fresh. -/
theorem updateWidth_spec (h : BusInv hw s) :
    BusInv hw (updateWidth s) ∧
    ((updateWidth s).hw.width = widthOf s.ios.busWidth ↔ WidthFresh hw s) := by
  unfold updateWidth
  by_cases hk : s.busWidth = s.ios.busWidth
  · rw [if_pos hk]
    exact ⟨h, h.width.value_iff hk⟩
  · rw [if_neg hk]
    exact ⟨⟨Tracks.put s.ios, h.clock⟩, iff_of_true rfl (h.width.fresh_of_ne hk)⟩

theorem updatePower_kept (s : BusState) :
    WidthKept s (updatePower s) ∧ ClockKept s (updatePower s) := by
  unfold updatePower
  split
  · exact ⟨⟨rfl, rfl, rfl, rfl⟩, ⟨rfl, rfl, rfl, rfl, rfl⟩⟩
  · dsimp only
    split
    · exact ⟨⟨rfl, rfl, rfl, rfl⟩, ⟨rfl, rfl, rfl, rfl, rfl⟩⟩
    · split
      · exact ⟨⟨rfl, rfl, rfl, rfl⟩, ⟨rfl, rfl, rfl, rfl, rfl⟩⟩
      · exact ⟨⟨rfl, rfl, rfl, rfl⟩, ⟨rfl, rfl, rfl, rfl, rfl⟩⟩

variable (cfg) in
theorem updateVoltage_kept (s : BusState) :
    WidthKept s (updateVoltage cfg s) ∧ ClockKept s (updateVoltage cfg s) := by
  unfold updateVoltage
  split
  · exact ⟨⟨rfl, rfl, rfl, rfl⟩, ⟨rfl, rfl, rfl, rfl, rfl⟩⟩
  · dsimp only
    split
    · exact ⟨⟨rfl, rfl, rfl, rfl⟩, ⟨rfl, rfl, rfl, rfl, rfl⟩⟩
    · split
      · exact ⟨⟨rfl, rfl, rfl, rfl⟩, ⟨rfl, rfl, rfl, rfl, rfl⟩⟩
      · exact ⟨⟨rfl, rfl, rfl, rfl⟩, ⟨rfl, rfl, rfl, rfl, rfl⟩⟩

/-- The clock part: it is done with and has left the controller alone, or set
it, or it has failed and left the controller alone. -/
theorem updateClock_cases (cfg : BusConfig) (ok : Bool) (s : BusState) :
    WidthKept s (updateClock cfg ok s).1 ∧
    ((s.cardClock = s.ios.clock ∧ updateClock cfg ok s = (s, true)) ∨
      (s.cardClock ≠ s.ios.clock ∧ clockGoes cfg ok s ∧ (updateClock cfg ok s).2 = true ∧
        ∃ t, ClockKept s t ∧ (updateClock cfg ok s).1 = programClock t) ∨
      (¬ clockGoes cfg ok s ∧ (updateClock cfg ok s).2 = false ∧
        ClockKept s (updateClock cfg ok s).1)) := by
  unfold updateClock clockGoes
  by_cases hk : s.cardClock = s.ios.clock
  · rw [if_pos hk]
    exact ⟨⟨rfl, rfl, rfl, rfl⟩, Or.inl ⟨hk, rfl⟩⟩
  · rw [if_neg hk]
    cases hpre : cfg.preFixTiming with
    | true =>
        rw [if_pos rfl]
        cases hl : lookupTiming cfg s.ios.clock with
        | none =>
            refine ⟨⟨rfl, rfl, rfl, rfl⟩, Or.inr (Or.inr ⟨?_, rfl, ⟨rfl, rfl, rfl, rfl, rfl⟩⟩)⟩
            simp [hk]
        | some t =>
            cases ok with
            | true =>
                refine ⟨⟨rfl, rfl, rfl, rfl⟩, Or.inr (Or.inl ⟨hk, ?_, rfl, ?_⟩)⟩
                · simp
                · exact ⟨{ s with curTiming := some t, useHold := t.useHold },
                    ⟨rfl, rfl, rfl, rfl, rfl⟩, rfl⟩
            | false =>
                refine ⟨⟨rfl, rfl, rfl, rfl⟩, Or.inr (Or.inr ⟨?_, rfl, ⟨rfl, rfl, rfl, rfl, rfl⟩⟩)⟩
                simp [hk]
    | false =>
        rw [if_neg Bool.false_ne_true]
        cases ok with
        | true =>
            refine ⟨⟨rfl, rfl, rfl, rfl⟩, Or.inr (Or.inl ⟨hk, ?_, rfl, ?_⟩)⟩
            · simp
            · exact ⟨s, ⟨rfl, rfl, rfl, rfl, rfl⟩, rfl⟩
        | false =>
            refine ⟨⟨rfl, rfl, rfl, rfl⟩, Or.inr (Or.inr ⟨?_, rfl, ⟨rfl, rfl, rfl, rfl, rfl⟩⟩)⟩
            simp [hk]

variable (cfg) in
/-- Clock and DDR mode are those of `ios` just when their cache was fresh,
unless setting them fails. -/
theorem updateClock_spec (h : BusInv hw s) (ok : Bool) :
    BusInv hw (updateClock cfg ok s).1 ∧ WidthKept s (updateClock cfg ok s).1 ∧
    (clockGoes cfg ok s → (updateClock cfg ok s).2 = true ∧
      (((updateClock cfg ok s).1.hw.clock, (updateClock cfg ok s).1.hw.ddr) = clockSetting s.ios ↔
        ClockFresh hw s)) ∧
    (¬ clockGoes cfg ok s → (updateClock cfg ok s).2 = false) := by
  obtain ⟨hw', hcases⟩ := updateClock_cases cfg ok s
  rcases hcases with ⟨hk, he⟩ | ⟨hk, hgo, htrue, t, ht, he⟩ | ⟨hgo, hfalse, hc⟩
  · rw [he] at hw' ⊢
    refine ⟨h, hw', ?_, fun hn => absurd (Or.inl hk) hn⟩
    intro _
    exact ⟨rfl, h.clock.value_iff hk⟩
  · rw [he] at hw' ⊢
    have hinv : BusInv hw (programClock t) := by
      constructor
      · rw [hw'.widthFor, hw'.busWidth, hw'.width]
        exact h.width
      · exact Tracks.put t.ios
    refine ⟨hinv, hw', ?_, fun hn => absurd hgo hn⟩
    intro _
    refine ⟨htrue, iff_of_true ?_ (h.clock.fresh_of_ne hk)⟩
    rw [← ht.ios]
    rfl
  · exact ⟨h.congr hw' hc, hw', fun hg => absurd hg hgo, fun _ => hfalse⟩

variable (cfg) in
/-- **One call.** It returns 0 just when the clock goes; the controller is then
set for `ios` if and only if both caches were fresh. -/
theorem updateStep_spec (h : BusInv hw s) (ok : Bool) :
    BusInv hw (updateStep cfg ok s) ∧
    (clockGoes cfg ok s → (updateStep cfg ok s).last = some s.ios ∧
      (Configured (updateStep cfg ok s).hw s.ios ↔ ClockFresh hw s ∧ WidthFresh hw s)) ∧
    (¬ clockGoes cfg ok s → (updateStep cfg ok s).last = none) := by
  have hwc := updateWidth_clock s
  obtain ⟨h1, hwidth⟩ := updateWidth_spec h
  obtain ⟨hpw, hpc⟩ := updatePower_kept (updateWidth s)
  obtain ⟨h3, hcw, hgo, hstop⟩ := updateClock_spec cfg (h1.congr hpw hpc) ok
  -- what the clock part finds is what the call has found
  have hios : (updatePower (updateWidth s)).ios = s.ios := hpc.ios.trans hwc.ios
  have hcard : (updatePower (updateWidth s)).cardClock = s.cardClock :=
    hpc.cardClock.trans hwc.cardClock
  have hfor : (updatePower (updateWidth s)).clockFor = s.clockFor :=
    hpc.clockFor.trans hwc.clockFor
  rw [clockGoes, hios, hcard] at hgo hstop
  rw [ClockFresh, hfor, hios] at hgo
  have hkept : (updateClock cfg ok (updatePower (updateWidth s))).1.hw.width =
      (updateWidth s).hw.width := hcw.width.trans hpw.width
  unfold updateStep updateIosV1
  by_cases hg : clockGoes cfg ok s
  · obtain ⟨htrue, hiff⟩ := hgo hg
    obtain ⟨hvw, hvc⟩ := updateVoltage_kept cfg
      (updateClock cfg ok (updatePower (updateWidth s))).1
    dsimp only
    rw [htrue, if_pos rfl]
    refine ⟨?_, ?_, fun hn => absurd hg hn⟩
    · exact (h3.congr hvw hvc).congr ⟨rfl, rfl, rfl, rfl⟩ ⟨rfl, rfl, rfl, rfl, rfl⟩
    · intro _
      refine ⟨rfl, ?_⟩
      rw [Prod.mk.injEq] at hiff
      show (_ ∧ _ ∧ _) ↔ _
      rw [hvw.width, hvc.clock, hvc.ddr, hkept, hwidth, and_comm]
      exact and_congr_left fun _ => hiff
  · have hfalse := hstop hg
    dsimp only
    rw [hfalse, if_neg Bool.false_ne_true]
    refine ⟨?_, fun hn => absurd hn hg, fun _ => rfl⟩
    exact h3.congr ⟨rfl, rfl, rfl, rfl⟩ ⟨rfl, rfl, rfl, rfl, rfl⟩

/-! ## Every run -/

theorem BusInv.step {e : BusEvent} (h : BusInv hw s) (hs : busStep cfg s e = some s') :
    BusInv hw s' := by
  cases e with
  | writeIvar which value =>
      cases hs
      exact ⟨h.width, h.clock⟩
  | update ok =>
      cases hs
      exact (updateStep_spec cfg h ok).1

theorem bus_reachable_inv (h : (busSystem cfg hw).Reachable s) : BusInv hw s := by
  apply h.invariant
  · rintro s rfl
    exact ⟨Tracks.init, Tracks.init⟩
  · intro s e s' hi (hs : busStep cfg s e = some s')
    exact hi.step hs

theorem HistoryFree.step {e : BusEvent} (h : HistoryFree s) (hi : BusInv hw s)
    (hok : busOk cfg hw s e) (hs : busStep cfg s e = some s') : HistoryFree s' := by
  cases e with
  | writeIvar which value =>
      cases hs
      exact h
  | update ok =>
      cases hs
      obtain ⟨-, hgo, hstop⟩ := updateStep_spec cfg hi ok
      intro ios hlast
      by_cases hg : clockGoes cfg ok s
      · obtain ⟨hl, hiff⟩ := hgo hg
        rw [hl] at hlast
        cases hlast
        exact hiff.mpr (hok hg)
      · rw [hstop hg] at hlast
        cases hlast

/-- A call that returns 0 on a stale cache leaves a setting of an earlier
call. -/
theorem not_historyFree_of_not_ok {e : BusEvent} (hi : BusInv hw s) (hok : ¬ busOk cfg hw s e)
    (hs : busStep cfg s e = some s') : ¬ HistoryFree s' := by
  cases e with
  | writeIvar which value => exact absurd trivial hok
  | update ok =>
      cases hs
      obtain ⟨hg, hstale⟩ := Classical.not_imp.mp hok
      obtain ⟨-, hgo, -⟩ := updateStep_spec cfg hi ok
      obtain ⟨hl, hiff⟩ := hgo hg
      intro h
      exact hstale (hiff.mp (h s.ios hl))

/-- **The settings do not depend on the past.** Along a run every call that
returns 0 leaves the controller set for its `ios` if and only if every such call
finds fresh caches: the clock, if it was set before, for the same clock with the
same DDR mode, and no request for the values that `attach` has put into the
caches before a setting was first made. -/
theorem settings_history_free_iff (cfg : BusConfig) (hw : BusHw) (es : List BusEvent) :
    (busSystem cfg hw).Always (busAttached hw) es HistoryFree ↔
      (busSystem cfg hw).Meets (busOk cfg hw) (busAttached hw) es := by
  apply System.always_iff_meets (M := busSystem cfg hw) (s := busAttached hw) rfl
  · intro s h
    apply h.restrict_invariant
    · rintro s rfl
      intro ios hlast
      cases hlast
    · intro s e s' hr hp hok (hs : busStep cfg s e = some s')
      exact hp.step (bus_reachable_inv hr) hok hs
  · intro s e s' hr hok hs
    exact not_historyFree_of_not_ok (bus_reachable_inv hr.of_restrict) hok hs

/-- A card goes from high speed to DDR at 52 MHz. -/
theorem ddr_not_set_at_same_clock :
    ¬ ∀ s, (busSystem ⟨true, false⟩ ⟨1, 0#32, false, true, false⟩).Reachable s →
      HistoryFree s := by
  intro h
  have hrun : ((busSystem ⟨true, false⟩ ⟨1, 0#32, false, true, false⟩).run
      (busAttached ⟨1, 0#32, false, true, false⟩)
      [.writeIvar .clock 52000000#32, .writeIvar .timing 1#32, .update true,
        .writeIvar .timing busTimingMmcDdr52, .update true]).map
      (fun s => (s.last, s.hw.ddr)) =
      some (some ⟨52000000#32, 0#32, 0#32, 0#32, busTimingMmcDdr52⟩, false) := by decide
  obtain ⟨s, hs, hq⟩ := Option.map_eq_some_iff.mp hrun
  obtain ⟨hlast, hddr⟩ := Prod.mk.inj hq
  have hconf := h s (System.reachable_of_run _ rfl hs) _ hlast
  exact absurd (hddr.symm.trans hconf.2.2) (by decide)

end Phytium.Sdif
