import PhytiumSdk.Lib.Ledger
import PhytiumSdk.Sdif.AtMostOnce
import PhytiumSdk.Sdif.CommandTrace

/-!
# From `attach` to `detach`

The driver of `Sdif.Request` between its `attach`, any step of which may fail,
and its `detach`, which is cut at the calls that release something. The
callout runs on until `callout_drain`.

`device_delete_children` waits for the client's calls: when it returns 0, none
is in the driver. What `FSdifDeInitialize` leaves in `hc.config.trans_mode` is
for the controller library to say.
-/

namespace Phytium.Sdif.Lifecycle

open Lib Ledger

/-! ## Resources, and `attach` -/

/-- `sc->res[k]`, and the handler set up on `sc->res[k]`. -/
inductive Res
  | mutex
  | res (k : ℕ)
  | descTag
  | descRing
  | descMap
  | bufTag
  | bufMap
  | alignedDmaBuf
  | intr (k : ℕ)
  deriving DecidableEq, Repr

/-- Which of the calls of `attach` succeed. -/
structure Results where
  resources : Bool
  configured : Bool
  descTag : Bool
  descRing : Bool
  descMap : Bool
  bufTag : Bool
  bufMap : Bool
  alignedDmaBuf : Bool
  intr : Bool
  /-- v2 only -/
  initIos : Bool
  /-- v2 only -/
  initVolt : Bool
  deriving DecidableEq, Repr

/-- `sdif_spec`, `sdif_v2_spec`. -/
def spec : Version → List Res
  | .v1 => [.res 0, .res 1]
  | .v2 => [.res 0, .res 1, .res 2]

/-- The resource `attach` sets the handler up on. -/
def irq : Version → ℕ
  | .v1 => 1
  | .v2 => 2

/-- `sdif_dma_setup`. -/
def dmaSetup (rtems : Bool) (o : Results) : List (Bool × List Res) :=
  if rtems then [(o.descRing, [.descRing]), (o.alignedDmaBuf, [.alignedDmaBuf])]
  else
    [(o.descTag, [.descTag]), (o.descRing, [.descRing]), (o.descMap, [.descMap]),
      (o.bufTag, [.bufTag]), (o.bufMap, [.bufMap])]

/-- The steps of `attach` that acquire or may fail. `bus_alloc_resources`
allocates all or nothing. -/
def attachSteps (cfg : SdifConfig) (o : Results) : List (Bool × List Res) :=
  (true, [.mutex]) :: (o.resources, spec cfg.version) :: (o.configured, []) ::
    (if cfg.usesDma then dmaSetup cfg.rtems o else []) ++
    (o.intr, [.intr (irq cfg.version)]) ::
      match cfg.version with
      | .v1 => []
      | .v2 => [(o.initIos, []), (o.initVolt, [])]

/-- `phytium_sdif_attach`, `phytium_sdif_v2_attach`: a step that fails returns
directly. -/
def attach (cfg : SdifConfig) (o : Results) : Bool × Ledger Res := acquireAll (attachSteps cfg o)

/-! ## The machine -/

/-- Where `detach` stands, behind `device_delete_children`. -/
inductive DetachPc
  | teardown
  | deInitialize
  | dmaDestory
  | releaseResources
  | lockDestroy
  | calloutDrain
  deriving DecidableEq, Repr

inductive Phase
  | new
  /-- `attach` has returned an error -/
  | failed
  | attached
  | detaching (p : DetachPc)
  | detached
  deriving DecidableEq, Repr

structure LifeState where
  phase : Phase
  sdif : SdifState
  /-- `sc->hc.config.trans_mode` -/
  transMode : TransMode
  /-- `sc->intr_cookie` is not null -/
  intrCookie : Bool
  -- history
  ledger : Ledger Res
  /-- the timeout handler has run behind a release of what it may use -/
  late : Bool
  /-- `attach` has returned an error, or `detach` has returned 0 -/
  returned : Bool

inductive LifeEvent
  | attach (o : Results)
  | sdif (e : SdifEvent)
  | deleteChildren (err : ℕ)
  /-- `bus_teardown_intr`, behind the drains of the card tasks -/
  | teardown (err : ℕ)
  | deInitialize (transMode : TransMode)
  | dmaDestory
  | releaseResources
  | lockDestroy
  | calloutDrain
  deriving DecidableEq

/-- The events of the driver that can happen. The client is gone once its
device has been deleted, and the interrupts once the handler is torn down. -/
def runs : Phase → SdifEvent → Bool
  | .attached, _ => true
  | .detaching .teardown, e => e.external
  | .detaching _, .expire => true
  | .detaching _, .timeout => true
  | _, _ => false

/-- The mutex, the resources of the controller, or its DMA memory have been
released. -/
def freed (l : Ledger Res) : Bool :=
  l.any fun
    | .released (.intr _) => false
    | .released _ => true
    | .acquired _ => false

/-- No client is in the driver. -/
def noCalls (s : SdifState) : Bool :=
  s.lock.isNone && (List.range s.submitted).all fun k => (s.pc k).isReturned

/-- What `sdif_dma_destory` frees; nothing in the build that is not for RTEMS. -/
def dmaDestory (cfg : SdifConfig) (transMode : TransMode) : List Res :=
  if cfg.version = .v2 ∨ transMode = .idma then
    if cfg.rtems then [.alignedDmaBuf, .descRing] else []
  else []

/-- `bus_teardown_intr`; the resource is `sc->res[1]` in both drivers. -/
def teardown (err : ℕ) (s : LifeState) : LifeState :=
  if s.intrCookie then
    if err ≠ 0 then { s with phase := .attached }
    else { s with
      phase := .detaching .deInitialize
      ledger := s.ledger ++ [.released (.intr 1)] }
  else { s with phase := .detaching .deInitialize }

/-- A step of `detach` that releases resources. -/
def releaseStep (s : LifeState) (rs : List Res) (next : DetachPc) : LifeState :=
  { s with phase := .detaching next, ledger := s.ledger ++ rs.map .released }

/-- One event of a driver that has not panicked. -/
def lifeEvent (cfg : SdifConfig) (s : LifeState) : LifeEvent → Option LifeState
  | .attach o =>
      if s.phase = .new then
        let x := attach cfg o
        some { s with
          phase := if x.1 then .attached else .failed
          transMode := cfg.transMode
          intrCookie := x.1
          ledger := s.ledger ++ x.2
          returned := !x.1 }
      else none
  | .sdif e =>
      if runs s.phase e then
        (sdifStep cfg s.sdif e).map fun t =>
          { s with sdif := t, late := s.late || (decide (e = .timeout) && freed s.ledger) }
      else none
  | .deleteChildren err =>
      if s.phase = .attached then
        if err ≠ 0 then some s
        else if noCalls s.sdif then some { s with phase := .detaching .teardown }
        else none
      else none
  | .teardown err =>
      if s.phase = .detaching .teardown then some (teardown err s) else none
  | .deInitialize transMode =>
      if s.phase = .detaching .deInitialize then
        some { s with phase := .detaching .dmaDestory, transMode := transMode }
      else none
  | .dmaDestory =>
      if s.phase = .detaching .dmaDestory then
        some (releaseStep s (dmaDestory cfg s.transMode) .releaseResources)
      else none
  | .releaseResources =>
      if s.phase = .detaching .releaseResources then
        some (releaseStep s (spec cfg.version) .lockDestroy)
      else none
  | .lockDestroy =>
      if s.phase = .detaching .lockDestroy then some (releaseStep s [.mutex] .calloutDrain)
      else none
  | .calloutDrain =>
      if s.phase = .detaching .calloutDrain then
        some { s with
          phase := .detached
          sdif := { s.sdif with callout := .idle }
          returned := true }
      else none

def lifeStep (cfg : SdifConfig) (s : LifeState) (e : LifeEvent) : Option LifeState :=
  if s.sdif.panicked then none else lifeEvent cfg s e

/-- Before `attach`. The fields a request uses are those it starts with. -/
def LifeState.new (mem : Mem) (cardNeedInit : Bool) : LifeState where
  phase := .new
  sdif := attached mem cardNeedInit
  transMode := .pio
  intrCookie := false
  ledger := []
  late := false
  returned := false

def lifeSystem (cfg : SdifConfig) : System LifeState LifeEvent where
  init := fun s => ∃ mem cardNeedInit, s = LifeState.new mem cardNeedInit
  step := lifeStep cfg

/-- A handler is torn down on the resource it was set up on. -/
def SameRes (l : Ledger Res) : Prop :=
  ∀ k, .released (.intr k) ∈ l → .acquired (.intr k) ∈ l

/-- Everything acquired is released exactly once when the driver is done, the
handler where it was set up, and no timeout comes late. -/
structure Clean (s : LifeState) : Prop where
  balanced : s.returned = true → Balanced s.ledger
  sameRes : SameRes s.ledger
  timely : s.late = false

/-- No step of `attach` fails. The handler is torn down in the first driver
only. The build is one in which `detach` frees the DMA memory, and the callout
is idle when the first of what the timeout handler may use is released. -/
def lifeOk (cfg : SdifConfig) (s : LifeState) : LifeEvent → Prop
  | .attach o => ∀ step ∈ attachSteps cfg o, step.1 = true
  | .teardown err => err ≠ 0 ∨ cfg.version = .v1
  | .deInitialize transMode => cfg.rtems = true → transMode = cfg.transMode
  | .dmaDestory => cfg.usesDma = true → cfg.rtems = true ∧ s.sdif.callout = .idle
  | .releaseResources => s.sdif.callout = .idle
  | _ => True

instance (cfg : SdifConfig) (s : LifeState) (e : LifeEvent) : Decidable (lifeOk cfg s e) :=
  match e with
  | .attach o => inferInstanceAs (Decidable (∀ step ∈ attachSteps cfg o, step.1 = true))
  | .teardown err => inferInstanceAs (Decidable (err ≠ 0 ∨ cfg.version = .v1))
  | .deInitialize m => inferInstanceAs (Decidable (cfg.rtems = true → m = cfg.transMode))
  | .dmaDestory =>
      inferInstanceAs (Decidable
        (cfg.usesDma = true → cfg.rtems = true ∧ s.sdif.callout = .idle))
  | .releaseResources => inferInstanceAs (Decidable (s.sdif.callout = .idle))
  | .sdif _ => inferInstanceAs (Decidable True)
  | .deleteChildren _ => inferInstanceAs (Decidable True)
  | .lockDestroy => inferInstanceAs (Decidable True)
  | .calloutDrain => inferInstanceAs (Decidable True)

variable {cfg : SdifConfig}

/-! ## What is held -/

/-- What `sdif_dma_setup` acquires. -/
def dmaRes (cfg : SdifConfig) : List Res :=
  if cfg.usesDma then
    if cfg.rtems then [.descRing, .alignedDmaBuf]
    else [.descTag, .descRing, .descMap, .bufTag, .bufMap]
  else []

/-- What is held in each phase of a run that goes well. -/
def held (cfg : SdifConfig) : Phase → Multiset Res
  | .new | .failed | .detached | .detaching .calloutDrain => 0
  | .detaching .lockDestroy => {.mutex}
  | .detaching .releaseResources => {.mutex} + (spec cfg.version : Multiset Res)
  | .detaching .dmaDestory | .detaching .deInitialize =>
      {.mutex} + (spec cfg.version : Multiset Res) + (dmaRes cfg : Multiset Res)
  | .detaching .teardown | .attached =>
      {.mutex} + (spec cfg.version : Multiset Res) + (dmaRes cfg : Multiset Res) +
        {.intr (irq cfg.version)}

theorem attachSteps_acquire (cfg : SdifConfig) (o : Results) :
    (attachSteps cfg o).flatMap Prod.snd =
      [.mutex] ++ spec cfg.version ++ dmaRes cfg ++ [.intr (irq cfg.version)] := by
  have hdma : ((if cfg.usesDma then dmaSetup cfg.rtems o else []).flatMap Prod.snd) =
      dmaRes cfg := by
    unfold dmaSetup dmaRes
    split
    · split
      · rfl
      · rfl
    · rfl
  have htail : ∀ v : Version, ((match v with
      | .v1 => []
      | .v2 => [(o.initIos, []), (o.initVolt, [])] : List (Bool × List Res)).flatMap
        Prod.snd) = [] := by
    intro v
    cases v with
    | v1 => rfl
    | v2 => rfl
  simp [attachSteps, List.flatMap_append, hdma, htail]

/-- What a run of `attach` has written: acquisitions, the mutex the first. -/
theorem attach_log (cfg : SdifConfig) (o : Results) :
    ∃ rs, (attach cfg o).2 = rs.map .acquired ∧ .mutex ∈ rs ∧
      (∀ r ∈ rs, r ∈ [.mutex] ++ spec cfg.version ++ dmaRes cfg ++ [.intr (irq cfg.version)]) ∧
      ((attach cfg o).1 = true →
        rs = [.mutex] ++ spec cfg.version ++ dmaRes cfg ++ [.intr (irq cfg.version)]) := by
  have hall := attachSteps_acquire cfg o
  obtain ⟨rs, hlog, hpre, hok⟩ := acquireAll_log (attachSteps cfg o)
  rw [hall] at hpre hok
  refine ⟨rs, hlog, ?_, fun r hr => hpre.subset hr, hok⟩
  have hmem : Entry.acquired Res.mutex ∈ (attach cfg o).2 := by
    simp [attach, attachSteps, acquireAll]
  obtain ⟨r, hr, heq⟩ := List.mem_map.mp (hlog ▸ hmem)
  cases heq
  exact hr

theorem attach_holds {o : Results} (h : (attach cfg o).1 = true) :
    settle 0 (attach cfg o).2 = some (held cfg .attached) := by
  obtain ⟨rs, hlog, -, -, hall⟩ := attach_log cfg o
  rw [hlog, hall h, settle_acquired, zero_add, ← Multiset.coe_add, ← Multiset.coe_add,
    ← Multiset.coe_add]
  rfl

/-- After an `attach` that fails the mutex has not been destroyed. -/
theorem attach_not_balanced (o : Results) : ¬ Balanced (attach cfg o).2 := by
  obtain ⟨rs, hlog, hmutex, -, -⟩ := attach_log cfg o
  rw [hlog]
  refine not_balanced (settle_acquired 0 rs) ?_
  intro hzero
  rw [zero_add, Multiset.coe_eq_zero] at hzero
  rw [hzero] at hmutex
  cases hmutex

/-! ## What a run keeps -/

/-- The handler is set up. -/
def Phase.serving : Phase → Bool
  | .attached => true
  | .detaching .teardown => true
  | _ => false

/-- The bus resources have been released. -/
def Phase.emptied : Phase → Bool
  | .detaching .lockDestroy => true
  | .detaching .calloutDrain => true
  | _ => false

structure LifeInv (cfg : SdifConfig) (s : LifeState) : Prop where
  settled : settle 0 s.ledger = some (held cfg s.phase)
  began : s.phase ≠ .failed
  fresh : s.phase = .new → s.ledger = []
  setUp : ∀ k, .acquired (.intr k) ∈ s.ledger → k = irq cfg.version
  handler : s.phase.serving = true →
    s.intrCookie = true ∧ .acquired (.intr (irq cfg.version)) ∈ s.ledger
  sameRes : SameRes s.ledger
  torn : ∀ p, s.phase = .detaching p → p = .teardown ∨ cfg.version = .v1
  mode : cfg.rtems = true → s.phase = .new ∨ s.transMode = cfg.transMode
  lock : ∀ p, s.phase = .detaching p → s.sdif.lock = none
  idle : freed s.ledger = true → s.phase.serving = false ∧ s.sdif.callout = .idle
  released : s.phase.emptied = true → freed s.ledger = true
  late : s.late = false
  returned : s.returned = true → s.phase = .detached

/-- When the driver is done, each resource has been released as often as it was
acquired. -/
theorem Clean.released_once {s : LifeState} (h : Clean s) (hret : s.returned = true) (r : Res) :
    s.ledger.count (.released r) = s.ledger.count (.acquired r) :=
  (h.balanced hret).count r

theorem LifeInv.clean {s : LifeState} (h : LifeInv cfg s) : Clean s := by
  refine ⟨?_, h.sameRes, h.late⟩
  intro hret
  have hsettled := h.settled
  rw [h.returned hret] at hsettled
  exact hsettled

theorem freed_append (l m : Ledger Res) : freed (l ++ m) = (freed l || freed m) :=
  List.any_append

theorem freed_acquired (rs : List Res) : freed (rs.map .acquired) = false := by
  simp [freed]

theorem freed_spec (v : Version) : freed ((spec v).map .released) = true := by
  cases v with
  | v1 => rfl
  | v2 => rfl

theorem intr_notMem_spec (k : ℕ) (v : Version) : Res.intr k ∉ spec v := by
  cases v with
  | v1 => simp [spec]
  | v2 => simp [spec]

theorem intr_mem {k : ℕ} (h : Res.intr k ∈
    [.mutex] ++ spec cfg.version ++ dmaRes cfg ++ [.intr (irq cfg.version)]) :
    k = irq cfg.version := by
  have hdma : Res.intr k ∉ dmaRes cfg := by
    unfold dmaRes
    split
    · split
      · simp
      · simp
    · simp
  simpa [intr_notMem_spec, hdma] using h

variable {s s' : LifeState}

theorem LifeInv.not_freed {ph : Phase} (h : LifeInv cfg s) (hp : s.phase = ph)
    (hserving : ph.serving = true) : freed s.ledger = false := by
  rw [← Bool.not_eq_true]
  intro hon
  have hnot := (h.idle hon).1
  rw [hp, hserving] at hnot
  cases hnot

theorem LifeInv.not_returned {ph : Phase} (h : LifeInv cfg s) (hp : s.phase = ph)
    (hne : ph ≠ .detached) : s.returned = false := by
  rw [← Bool.not_eq_true]
  exact fun hret => hne (hp.symm.trans (h.returned hret))

theorem LifeInv.mode_of {ph : Phase} (h : LifeInv cfg s) (hp : s.phase = ph) (hne : ph ≠ .new)
    (hrtems : cfg.rtems = true) : s.transMode = cfg.transMode := by
  rcases h.mode hrtems with hnew | hmode
  · exact absurd (hp.symm.trans hnew) hne
  · exact hmode

theorem LifeInv.attach {o : Results} (h : LifeInv cfg s) (hok : (attach cfg o).1 = true)
    (hs : lifeEvent cfg s (.attach o) = some s') : LifeInv cfg s' := by
  obtain ⟨hnew, hs⟩ := Option.ite_none_right_eq_some.mp hs
  simp only [h.fresh hnew, List.nil_append, hok] at hs
  cases hs
  obtain ⟨rs, hlog, -, hrs, hall⟩ := attach_log cfg o
  have hintr : Res.intr (irq cfg.version) ∈ rs := by
    rw [hall hok]
    simp
  have hreleased : ∀ k, Entry.released (Res.intr k) ∉ (Lifecycle.attach cfg o).2 := by
    intro k hmem
    rw [hlog] at hmem
    simp at hmem
  constructor
  case settled => exact attach_holds hok
  case began => exact Phase.noConfusion
  case fresh => exact fun hp => Phase.noConfusion hp
  case setUp =>
    intro k hmem
    rw [hlog, List.mem_map] at hmem
    obtain ⟨r, hr, heq⟩ := hmem
    cases heq
    exact intr_mem (hrs _ hr)
  case handler =>
    rintro -
    refine ⟨rfl, ?_⟩
    rw [hlog]
    exact List.mem_map.mpr ⟨_, hintr, rfl⟩
  case sameRes => exact fun k hmem => absurd hmem (hreleased k)
  case torn => exact fun p hp => Phase.noConfusion hp
  case mode => exact fun _ => Or.inr rfl
  case lock => exact fun p hp => Phase.noConfusion hp
  case idle =>
    intro hfreed
    rw [hlog, freed_acquired] at hfreed
    cases hfreed
  case released => exact fun hon => absurd hon Bool.false_ne_true
  case late => exact h.late
  case returned => exact fun hret => absurd hret Bool.false_ne_true

/-- The events of the controller and the clock leave the lock alone. -/
theorem external_lock {t u : SdifState} {e : SdifEvent} (he : e.external = true)
    (hs : eventStep cfg t e = some u) : u.lock = t.lock := by
  cases e with
  | cmdDone resp =>
      cases hs
      exact (commandDone_spec resp t).lock
  | dataDone bytes =>
      cases hs
      exact (dataDone_spec bytes t).lock
  | errOccure =>
      cases hs
      exact (errorOccurred_spec cfg t).2.1
  | expire =>
      obtain ⟨-, ht⟩ := Option.ite_none_right_eq_some.mp hs
      cases ht
      rfl
  | timeout =>
      obtain ⟨-, ht⟩ := Option.ite_none_right_eq_some.mp hs
      cases ht
      exact (timeout_spec cfg t).2.1
  | _ => cases he

/-- Which events happen where. -/
theorem runs_cases {ph : Phase} {e : SdifEvent} (h : runs ph e = true) :
    ph = .attached ∨ (ph = .detaching .teardown ∧ e.external = true) ∨
      (∃ p, ph = .detaching p) ∧ (e = .expire ∨ e = .timeout) := by
  unfold runs at h
  split at h
  · exact Or.inl rfl
  · exact Or.inr (Or.inl ⟨rfl, h⟩)
  · exact Or.inr (Or.inr ⟨⟨_, rfl⟩, Or.inl rfl⟩)
  · exact Or.inr (Or.inr ⟨⟨_, rfl⟩, Or.inr rfl⟩)
  · cases h

theorem runs_external {p : DetachPc} {e : SdifEvent} (h : runs (.detaching p) e = true) :
    e.external = true := by
  rcases runs_cases h with hp | ⟨-, he⟩ | ⟨-, rfl | rfl⟩
  · cases hp
  · exact he
  · rfl
  · rfl

/-- An idle callout neither expires nor runs. -/
theorem idle_stays {t u : SdifState} {e : SdifEvent} (hidle : t.callout = .idle)
    (he : e = .expire ∨ e = .timeout) : eventStep cfg t e ≠ some u := by
  rcases he with rfl | rfl
  · simp [eventStep, hidle]
  · simp [eventStep, hidle]

theorem LifeInv.sdif {e : SdifEvent} (h : LifeInv cfg s)
    (hs : lifeEvent cfg s (.sdif e) = some s') : LifeInv cfg s' := by
  obtain ⟨hruns, hs⟩ := Option.ite_none_right_eq_some.mp hs
  obtain ⟨t, ht, hs⟩ := Option.map_eq_some_iff.mp hs
  have hstep := (sdifStep_iff.mp ht).2
  -- once something is freed there is no event left
  have hfreed : freed s.ledger = false := by
    rw [← Bool.not_eq_true]
    intro hfreed
    obtain ⟨hserving, hidle⟩ := h.idle hfreed
    rcases runs_cases hruns with hp | ⟨hp, -⟩ | ⟨-, he⟩
    · rw [hp] at hserving
      cases hserving
    · rw [hp] at hserving
      cases hserving
    · exact idle_stays hidle he hstep
  cases hs
  refine ⟨h.settled, h.began, h.fresh, h.setUp, h.handler, h.sameRes, h.torn, h.mode, ?_, ?_,
    h.released, ?_, h.returned⟩
  · intro p hp
    rw [external_lock (runs_external (hp ▸ hruns)) hstep]
    exact h.lock p hp
  · intro hon
    exact absurd (hfreed ▸ hon) Bool.false_ne_true
  · simp [h.late, hfreed]

theorem LifeInv.deleteChildren {err : ℕ} (h : LifeInv cfg s)
    (hs : lifeEvent cfg s (.deleteChildren err) = some s') : LifeInv cfg s' := by
  obtain ⟨hatt, hs⟩ := Option.ite_none_right_eq_some.mp hs
  split at hs
  · cases hs
    exact h
  obtain ⟨hcalls, hs⟩ := Option.ite_none_right_eq_some.mp hs
  cases hs
  have hfreed := h.not_freed hatt rfl
  have hsettled := h.settled
  rw [hatt] at hsettled
  constructor
  case settled => exact hsettled
  case began => exact Phase.noConfusion
  case fresh => exact fun hp => Phase.noConfusion hp
  case setUp => exact h.setUp
  case handler => exact fun _ => h.handler (by rw [hatt, Phase.serving])
  case sameRes => exact h.sameRes
  case torn =>
    intro p hp
    cases hp
    exact Or.inl rfl
  case mode => exact fun hrtems => Or.inr (h.mode_of hatt Phase.noConfusion hrtems)
  case lock =>
    intro p _
    simp only [noCalls, Bool.and_eq_true, Option.isNone_iff_eq_none] at hcalls
    exact hcalls.1
  case idle => exact fun hon => absurd (hfreed ▸ hon) Bool.false_ne_true
  case released => exact fun hon => absurd hon Bool.false_ne_true
  case late => exact h.late
  case returned =>
    intro hret
    rw [h.not_returned hatt Phase.noConfusion] at hret
    cases hret

/-- A step of `detach` to a point behind the teardown. -/
theorem LifeInv.onward {p q : DetachPc} {m : TransMode} {l : Ledger Res} (h : LifeInv cfg s)
    (hp : s.phase = .detaching p) (hq : q ≠ .teardown) (hv : cfg.version = .v1)
    (hmode : cfg.rtems = true → m = cfg.transMode)
    (hsettled : settle 0 l = some (held cfg (.detaching q)))
    (hset : ∀ k, .acquired (.intr k) ∈ l → .acquired (.intr k) ∈ s.ledger) (hsame : SameRes l)
    (hidle : freed l = true → s.sdif.callout = .idle)
    (hreleased : (Phase.detaching q).emptied = true → freed l = true) :
    LifeInv cfg { s with phase := .detaching q, transMode := m, ledger := l } := by
  constructor
  case settled => exact hsettled
  case began => exact Phase.noConfusion
  case fresh => exact fun hn => Phase.noConfusion hn
  case setUp => exact fun k hmem => h.setUp k (hset k hmem)
  case handler =>
    intro hon
    cases q with
    | teardown => exact absurd rfl hq
    | _ => cases hon
  case sameRes => exact hsame
  case torn => exact fun _ _ => Or.inr hv
  case mode => exact fun hrtems => Or.inr (hmode hrtems)
  case lock => exact fun _ _ => h.lock p hp
  case idle =>
    intro hon
    refine ⟨?_, hidle hon⟩
    cases q with
    | teardown => exact absurd rfl hq
    | _ => rfl
  case released => exact hreleased
  case late => exact h.late
  case returned =>
    intro hret
    rw [h.not_returned hp Phase.noConfusion] at hret
    cases hret

/-- `bus_teardown_intr` fails, or takes the handler off the resource it is on. -/
theorem LifeInv.teardown {err : ℕ} (h : LifeInv cfg s) (hok : err ≠ 0 ∨ cfg.version = .v1)
    (hs : lifeEvent cfg s (.teardown err) = some s') : LifeInv cfg s' := by
  obtain ⟨hp, hs⟩ := Option.ite_none_right_eq_some.mp hs
  have hfreed := h.not_freed hp rfl
  obtain ⟨hcookie, hset⟩ := h.handler (by rw [hp, Phase.serving])
  have hsettled := h.settled
  rw [hp] at hsettled
  have hmode := h.mode_of hp Phase.noConfusion
  rw [Lifecycle.teardown, if_pos hcookie] at hs
  by_cases herr : err ≠ 0
  · rw [if_pos herr] at hs
    cases hs
    constructor
    case settled => exact hsettled
    case began => exact Phase.noConfusion
    case fresh => exact fun hn => Phase.noConfusion hn
    case setUp => exact h.setUp
    case handler => exact fun _ => ⟨hcookie, hset⟩
    case sameRes => exact h.sameRes
    case torn => exact fun _ hn => Phase.noConfusion hn
    case mode => exact fun hrtems => Or.inr (hmode hrtems)
    case lock => exact fun _ hn => Phase.noConfusion hn
    case idle => exact fun hon => absurd (hfreed ▸ hon) Bool.false_ne_true
    case released => exact fun hon => absurd hon Bool.false_ne_true
    case late => exact h.late
    case returned =>
      intro hret
      rw [h.not_returned hp Phase.noConfusion] at hret
      cases hret
  · have hv : cfg.version = .v1 := hok.resolve_left herr
    have hirq : irq cfg.version = 1 := by rw [hv, irq]
    rw [if_neg herr] at hs
    cases hs
    have hfreed' : freed (s.ledger ++ [.released (.intr 1)]) = false := by
      rw [freed_append, hfreed]
      rfl
    refine h.onward hp DetachPc.noConfusion hv hmode ?_ ?_ ?_ ?_ ?_
    · refine settle_trans hsettled ?_
      have hreleased := settle_released (held cfg (.detaching .deInitialize)) [Res.intr 1]
      rw [← hirq] at hreleased ⊢
      exact hreleased
    · intro k hmem
      simpa using hmem
    · intro k hmem
      rcases List.mem_append.mp hmem with hmem | hmem
      · exact List.mem_append_left _ (h.sameRes k hmem)
      · have hk : k = irq cfg.version := by
          rw [hirq]
          simpa using hmem
        rw [hk]
        exact List.mem_append_left _ hset
    · exact fun hon => absurd (hfreed' ▸ hon) Bool.false_ne_true
    · exact fun hon => absurd hon Bool.false_ne_true

theorem LifeInv.deInitialize {m : TransMode} (h : LifeInv cfg s)
    (hok : cfg.rtems = true → m = cfg.transMode)
    (hs : lifeEvent cfg s (.deInitialize m) = some s') : LifeInv cfg s' := by
  obtain ⟨hp, hs⟩ := Option.ite_none_right_eq_some.mp hs
  cases hs
  have hsettled := h.settled
  rw [hp] at hsettled
  exact h.onward hp DetachPc.noConfusion ((h.torn _ hp).resolve_left DetachPc.noConfusion) hok
    hsettled (fun _ hmem => hmem) h.sameRes (fun hon => (h.idle hon).2)
    (fun hon => absurd hon Bool.false_ne_true)

/-- Resources are released that are held in this phase and not in the next. -/
theorem LifeInv.releaseStep {p q : DetachPc} {rs : List Res} (h : LifeInv cfg s)
    (hp : s.phase = .detaching p) (hpt : p ≠ .teardown) (hq : q ≠ .teardown)
    (hheld : held cfg (.detaching p) = held cfg (.detaching q) + (rs : Multiset Res))
    (hrs : ∀ k, Res.intr k ∉ rs) (hidle : rs ≠ [] → s.sdif.callout = .idle)
    (hreleased : (Phase.detaching q).emptied = true →
      freed (s.ledger ++ rs.map .released) = true) :
    LifeInv cfg (releaseStep s rs q) := by
  have hsettled := h.settled
  rw [hp, hheld] at hsettled
  refine h.onward hp hq ((h.torn _ hp).resolve_left hpt)
    (h.mode_of hp Phase.noConfusion)
    (settle_trans hsettled (settle_released _ rs)) ?_ ?_ ?_ hreleased
  · intro k hmem
    simpa using hmem
  · intro k hmem
    rcases List.mem_append.mp hmem with hmem | hmem
    · exact List.mem_append_left _ (h.sameRes k hmem)
    · have hin : Res.intr k ∈ rs := by simpa using hmem
      exact absurd hin (hrs k)
  · intro hon
    rw [freed_append, Bool.or_eq_true] at hon
    rcases hon with hon | hon
    · exact (h.idle hon).2
    · refine hidle ?_
      rintro rfl
      cases hon

theorem usesDma_v1 (hv : cfg.version = .v1) : cfg.usesDma = true ↔ cfg.transMode = .idma := by
  simp [SdifConfig.usesDma, hv]

theorem dmaDestory_v1 {m : TransMode} (hv : cfg.version = .v1) (hrtems : cfg.rtems = true) :
    dmaDestory cfg m = if m = .idma then [.alignedDmaBuf, .descRing] else [] := by
  simp [dmaDestory, hv, hrtems]

theorem dmaDestory_native {m : TransMode} (hrtems : ¬ cfg.rtems = true) :
    dmaDestory cfg m = [] := by
  simp [dmaDestory, hrtems]

/-- In the first driver `sdif_dma_destory` frees all that `sdif_dma_setup` has
acquired, if the build is for RTEMS. -/
theorem dmaDestory_all {m : TransMode} (hv : cfg.version = .v1)
    (hdma : cfg.usesDma = true → cfg.rtems = true) (hmode : cfg.rtems = true → m = cfg.transMode) :
    (dmaRes cfg : Multiset Res) = (dmaDestory cfg m : Multiset Res) := by
  by_cases huse : cfg.usesDma = true
  · have hrtems := hdma huse
    have hm : m = .idma := (hmode hrtems).trans ((usesDma_v1 hv).mp huse)
    rw [dmaRes, if_pos huse, if_pos hrtems, dmaDestory_v1 hv hrtems, if_pos hm]
    decide
  · rw [dmaRes, if_neg huse]
    by_cases hrtems : cfg.rtems = true
    · have hm : ¬ m = .idma := by
        rw [hmode hrtems, ← usesDma_v1 hv]
        exact huse
      rw [dmaDestory_v1 hv hrtems, if_neg hm]
    · rw [dmaDestory_native hrtems]

theorem LifeInv.dmaDestory (h : LifeInv cfg s)
    (hok : cfg.usesDma = true → cfg.rtems = true ∧ s.sdif.callout = .idle)
    (hs : lifeEvent cfg s .dmaDestory = some s') : LifeInv cfg s' := by
  obtain ⟨hp, hs⟩ := Option.ite_none_right_eq_some.mp hs
  cases hs
  have hv := (h.torn _ hp).resolve_left DetachPc.noConfusion
  have hall := dmaDestory_all hv (fun huse => (hok huse).1)
    (h.mode_of hp Phase.noConfusion)
  refine h.releaseStep hp DetachPc.noConfusion DetachPc.noConfusion ?_ ?_ ?_ ?_
  · rw [← hall]
    rfl
  · intro k
    unfold Lifecycle.dmaDestory
    split
    · split
      · simp
      · simp
    · simp
  · intro hne
    refine (hok ?_).2
    by_contra huse
    rw [dmaRes, if_neg huse] at hall
    exact hne ((Multiset.coe_eq_zero _).mp hall.symm)
  · exact fun hon => absurd hon Bool.false_ne_true

theorem LifeInv.releaseResources (h : LifeInv cfg s) (hok : s.sdif.callout = .idle)
    (hs : lifeEvent cfg s .releaseResources = some s') : LifeInv cfg s' := by
  obtain ⟨hp, hs⟩ := Option.ite_none_right_eq_some.mp hs
  cases hs
  refine h.releaseStep hp DetachPc.noConfusion DetachPc.noConfusion rfl
    (fun k => intr_notMem_spec k cfg.version) (fun _ => hok) ?_
  intro _
  rw [freed_append, freed_spec, Bool.or_true]

theorem LifeInv.lockDestroy (h : LifeInv cfg s)
    (hs : lifeEvent cfg s .lockDestroy = some s') : LifeInv cfg s' := by
  obtain ⟨hp, hs⟩ := Option.ite_none_right_eq_some.mp hs
  cases hs
  have hfreed := h.released (by rw [hp, Phase.emptied])
  refine h.releaseStep hp DetachPc.noConfusion DetachPc.noConfusion ?_ ?_ ?_ ?_
  · rfl
  · simp
  · exact fun _ => (h.idle hfreed).2
  · intro _
    rw [freed_append, hfreed]
    rfl

theorem LifeInv.calloutDrain (h : LifeInv cfg s)
    (hs : lifeEvent cfg s .calloutDrain = some s') : LifeInv cfg s' := by
  obtain ⟨hp, hs⟩ := Option.ite_none_right_eq_some.mp hs
  cases hs
  have hsettled := h.settled
  rw [hp] at hsettled
  constructor
  case settled => exact hsettled
  case began => exact Phase.noConfusion
  case fresh => exact fun hn => Phase.noConfusion hn
  case setUp => exact h.setUp
  case handler => exact fun hon => absurd hon Bool.false_ne_true
  case sameRes => exact h.sameRes
  case torn => exact fun _ hn => Phase.noConfusion hn
  case mode =>
    intro hrtems
    exact Or.inr (h.mode_of hp Phase.noConfusion hrtems)
  case lock => exact fun _ hn => Phase.noConfusion hn
  case idle => exact fun _ => ⟨rfl, rfl⟩
  case released => exact fun hon => absurd hon Bool.false_ne_true
  case late => exact h.late
  case returned => exact fun _ => rfl

theorem lifeStep_iff {e : LifeEvent} :
    lifeStep cfg s e = some s' ↔ s.sdif.panicked = false ∧ lifeEvent cfg s e = some s' := by
  unfold lifeStep
  split <;> simp_all

theorem lifeInv (h : ((lifeSystem cfg).restrict (lifeOk cfg)).Reachable s) : LifeInv cfg s := by
  refine h.restrict_invariant ?_ ?_
  · rintro s ⟨mem, cardNeedInit, rfl⟩
    constructor
    case settled => rfl
    case began => exact Phase.noConfusion
    case fresh => exact fun _ => rfl
    case setUp => exact fun k hmem => absurd hmem List.not_mem_nil
    case handler => exact fun hon => absurd hon Bool.false_ne_true
    case sameRes => exact fun k hmem => absurd hmem List.not_mem_nil
    case torn => exact fun _ hn => Phase.noConfusion hn
    case mode => exact fun _ => Or.inl rfl
    case lock => exact fun _ hn => Phase.noConfusion hn
    case idle => exact fun hon => absurd hon Bool.false_ne_true
    case released => exact fun hon => absurd hon Bool.false_ne_true
    case late => rfl
    case returned => exact fun hret => absurd hret Bool.false_ne_true
  · intro s e s' _ hinv hok hs
    have hs := (lifeStep_iff.mp hs).2
    cases e with
    | attach o => exact hinv.attach ((acquireAll_ok _).mpr hok) hs
    | sdif e => exact hinv.sdif hs
    | deleteChildren err => exact hinv.deleteChildren hs
    | teardown err => exact hinv.teardown hok hs
    | deInitialize m => exact hinv.deInitialize hok hs
    | dmaDestory => exact hinv.dmaDestory hok hs
    | releaseResources => exact hinv.releaseResources hok hs
    | lockDestroy => exact hinv.lockDestroy hs
    | calloutDrain => exact hinv.calloutDrain hs

/-! ## What comes of a step that does not meet the condition -/

/-- The rest of `detach`, and the callout: none of these can fail. -/
def LifeEvent.unforced : LifeEvent → Bool
  | .sdif .expire => true
  | .sdif .timeout => true
  | .dmaDestory => true
  | .releaseResources => true
  | .lockDestroy => true
  | .calloutDrain => true
  | _ => false

/-- The run goes on by itself to a state that is not clean. -/
def Soils (cfg : SdifConfig) (s : LifeState) : Prop :=
  ∃ es t, (∀ e ∈ es, LifeEvent.unforced e = true) ∧ (lifeSystem cfg).run s es = some t ∧ ¬ Clean t

theorem Soils.now (h : ¬ Clean s) : Soils cfg s :=
  ⟨[], s, fun _ he => absurd he List.not_mem_nil, rfl, h⟩

theorem Soils.step {e : LifeEvent} (he : e.unforced = true) (hs : lifeStep cfg s e = some s')
    (h : Soils cfg s') : Soils cfg s := by
  obtain ⟨es, t, hes, hrun, hnot⟩ := h
  refine ⟨e :: es, t, ?_, ?_, hnot⟩
  · intro f hf
    rcases List.mem_cons.mp hf with rfl | hf
    · exact he
    · exact hes f hf
  · rw [System.run_cons]
    change (lifeStep cfg s e).bind _ = _
    rw [hs, Option.bind_some, hrun]

/-- A callout that is not idle runs its handler, and finds what is gone. -/
theorem soils_of_callout {p : DetachPc} (hp : s.phase = .detaching p)
    (hpanic : s.sdif.panicked = false) (hlock : s.sdif.lock = none)
    (hout : s.sdif.callout ≠ .idle) (hfreed : freed s.ledger = true) : Soils cfg s := by
  have hexpired : ∀ u : SdifState, u.panicked = false → u.lock = none → u.callout = .expired →
      Soils cfg { s with sdif := u } := by
    intro u hpanic hlock hexp
    have hruns : runs s.phase .timeout = true := by
      rw [hp]
      cases p <;> rfl
    have hrun : sdifStep cfg u .timeout = some (timeout cfg u) :=
      sdifStep_iff.mpr ⟨hpanic, if_pos ⟨hexp, hlock⟩⟩
    have hstep : lifeStep cfg { s with sdif := u } (.sdif .timeout) =
        some { s with sdif := timeout cfg u, late := true } := by
      refine lifeStep_iff.mpr ⟨hpanic, ?_⟩
      rw [lifeEvent, if_pos hruns, hrun]
      simp [hfreed]
    exact Soils.step rfl hstep (Soils.now fun hclean => absurd hclean.timely Bool.noConfusion)
  cases hc : s.sdif.callout with
  | idle => exact absurd hc hout
  | expired => exact hexpired s.sdif hpanic hlock hc
  | armed =>
      have hruns : runs s.phase .expire = true := by
        rw [hp]
        cases p <;> rfl
      have hrun : sdifStep cfg s.sdif .expire = some { s.sdif with callout := .expired } :=
        sdifStep_iff.mpr ⟨hpanic, if_pos hc⟩
      have hstep : lifeStep cfg s (.sdif .expire) =
          some { s with sdif := { s.sdif with callout := .expired } } := by
        refine lifeStep_iff.mpr ⟨hpanic, ?_⟩
        rw [lifeEvent, if_pos hruns, hrun]
        simp
      exact Soils.step rfl hstep (hexpired _ hpanic hlock rfl)

/-! The rest of `detach` runs whatever the callout does. -/

theorem lifeStep_dmaDestory (hp : s.phase = .detaching .dmaDestory)
    (hpanic : s.sdif.panicked = false) :
    lifeStep cfg s .dmaDestory =
      some (releaseStep s (dmaDestory cfg s.transMode) .releaseResources) :=
  lifeStep_iff.mpr ⟨hpanic, if_pos hp⟩

theorem lifeStep_releaseResources (hp : s.phase = .detaching .releaseResources)
    (hpanic : s.sdif.panicked = false) :
    lifeStep cfg s .releaseResources = some (releaseStep s (spec cfg.version) .lockDestroy) :=
  lifeStep_iff.mpr ⟨hpanic, if_pos hp⟩

theorem lifeStep_lockDestroy (hp : s.phase = .detaching .lockDestroy)
    (hpanic : s.sdif.panicked = false) :
    lifeStep cfg s .lockDestroy = some (releaseStep s [.mutex] .calloutDrain) :=
  lifeStep_iff.mpr ⟨hpanic, if_pos hp⟩

theorem lifeStep_calloutDrain (hp : s.phase = .detaching .calloutDrain)
    (hpanic : s.sdif.panicked = false) :
    lifeStep cfg s .calloutDrain =
      some { s with
        phase := .detached
        sdif := { s.sdif with callout := .idle }
        returned := true } :=
  lifeStep_iff.mpr ⟨hpanic, if_pos hp⟩

/-- `detach` runs to its end, where the ledger balances only if what is held now
is what is still to be released. -/
theorem soils_of_held (hp : s.phase = .detaching .releaseResources)
    (hpanic : s.sdif.panicked = false)
    (hheld : settle 0 s.ledger ≠ some (held cfg (.detaching .releaseResources))) :
    Soils cfg s := by
  refine Soils.step rfl (lifeStep_releaseResources hp hpanic) ?_
  refine Soils.step rfl (lifeStep_lockDestroy rfl hpanic) ?_
  refine Soils.step rfl (lifeStep_calloutDrain rfl hpanic) ?_
  refine Soils.now ?_
  intro hclean
  have hbalanced : settle 0 (s.ledger ++ (spec cfg.version).map .released ++
      [Res.mutex].map .released) = some 0 := hclean.balanced rfl
  rw [List.append_assoc, ← List.map_append, settle_append, Option.bind_eq_some_iff] at hbalanced
  obtain ⟨rest, hrest, hreleased⟩ := hbalanced
  rw [settle_released_iff, zero_add, ← Multiset.coe_add, add_comm] at hreleased
  rw [hreleased] at hrest
  exact hheld hrest

/-- What a step that does not meet the condition does, case by case. -/
theorem attach_soils {o : Results} (h : LifeInv cfg s) (hok : (attach cfg o).1 ≠ true)
    (hs : lifeEvent cfg s (.attach o) = some s') : Soils cfg s' := by
  obtain ⟨hnew, hs⟩ := Option.ite_none_right_eq_some.mp hs
  simp only [h.fresh hnew, List.nil_append] at hs
  cases hs
  refine Soils.now ?_
  intro hclean
  refine attach_not_balanced o (hclean.balanced ?_)
  simpa using hok

theorem teardown_soils {err : ℕ} (h : LifeInv cfg s) (hok : ¬ (err ≠ 0 ∨ cfg.version = .v1))
    (hs : lifeEvent cfg s (.teardown err) = some s') : Soils cfg s' := by
  obtain ⟨hp, hs⟩ := Option.ite_none_right_eq_some.mp hs
  obtain ⟨herr, hv⟩ := not_or.mp hok
  obtain ⟨hcookie, -⟩ := h.handler (by rw [hp, Phase.serving])
  rw [Lifecycle.teardown, if_pos hcookie, if_neg herr] at hs
  cases hs
  refine Soils.now ?_
  intro hclean
  have hset : Entry.acquired (Res.intr 1) ∈ s.ledger := by
    simpa using hclean.sameRes 1 (List.mem_append_right _ List.mem_cons_self)
  have hirq := h.setUp 1 hset
  cases hversion : cfg.version with
  | v1 => exact hv hversion
  | v2 =>
      rw [hversion] at hirq
      exact absurd hirq (by decide)

/-- With another mode it frees something else. -/
theorem dmaDestory_other {m : TransMode} (hv : cfg.version = .v1) (hrtems : cfg.rtems = true)
    (hm : m ≠ cfg.transMode) : (dmaRes cfg : Multiset Res) ≠ (dmaDestory cfg m : Multiset Res) := by
  rw [dmaDestory_v1 hv hrtems, dmaRes, if_pos hrtems]
  cases hmode : cfg.transMode with
  | pio =>
      have huse : ¬ cfg.usesDma = true := by
        rw [usesDma_v1 hv, hmode]
        exact TransMode.noConfusion
      cases m with
      | pio => exact absurd hmode.symm hm
      | idma =>
          rw [if_neg huse, if_pos rfl]
          decide
  | idma =>
      have huse : cfg.usesDma = true := (usesDma_v1 hv).mpr hmode
      cases m with
      | idma => exact absurd hmode.symm hm
      | pio =>
          rw [if_pos huse, if_neg TransMode.noConfusion]
          decide

/-- `sdif_dma_destory` does not free just what `sdif_dma_setup` has acquired. -/
theorem soils_of_dma (hpanic : s.sdif.panicked = false)
    (hsettled : settle 0 s.ledger = some (held cfg (.detaching .dmaDestory)))
    (hdma : (dmaRes cfg : Multiset Res) ≠ (dmaDestory cfg s.transMode : Multiset Res)) :
    Soils cfg (releaseStep s (dmaDestory cfg s.transMode) .releaseResources) := by
  refine soils_of_held rfl hpanic ?_
  intro hrest
  change settle 0 (s.ledger ++ (dmaDestory cfg s.transMode).map .released) = _ at hrest
  rw [settle_append, hsettled, Option.bind_some, settle_released_iff] at hrest
  exact hdma (add_left_cancel hrest)

theorem deInitialize_soils {m : TransMode} (h : LifeInv cfg s)
    (hpanic : s.sdif.panicked = false) (hok : ¬ (cfg.rtems = true → m = cfg.transMode))
    (hs : lifeEvent cfg s (.deInitialize m) = some s') : Soils cfg s' := by
  obtain ⟨hp, hs⟩ := Option.ite_none_right_eq_some.mp hs
  obtain ⟨hrtems, hm⟩ := Classical.not_imp.mp hok
  have hv := (h.torn _ hp).resolve_left DetachPc.noConfusion
  have hsettled := h.settled
  rw [hp] at hsettled
  cases hs
  refine Soils.step rfl (lifeStep_dmaDestory rfl hpanic) ?_
  refine soils_of_dma hpanic hsettled ?_
  exact dmaDestory_other hv hrtems hm

theorem dmaDestory_soils (h : LifeInv cfg s) (hpanic : s.sdif.panicked = false)
    (hok : ¬ (cfg.usesDma = true → cfg.rtems = true ∧ s.sdif.callout = .idle))
    (hs : lifeEvent cfg s .dmaDestory = some s') : Soils cfg s' := by
  obtain ⟨hp, hs⟩ := Option.ite_none_right_eq_some.mp hs
  obtain ⟨huse, hnot⟩ := Classical.not_imp.mp hok
  have hsettled := h.settled
  rw [hp] at hsettled
  cases hs
  by_cases hrtems : cfg.rtems = true
  · have hv := (h.torn _ hp).resolve_left DetachPc.noConfusion
    have hmode : s.transMode = .idma :=
      (h.mode_of hp Phase.noConfusion hrtems).trans ((usesDma_v1 hv).mp huse)
    refine soils_of_callout rfl hpanic (h.lock _ hp) (fun hidle => hnot ⟨hrtems, hidle⟩) ?_
    change freed (s.ledger ++ (dmaDestory cfg s.transMode).map .released) = true
    rw [freed_append, dmaDestory_v1 hv hrtems, if_pos hmode]
    exact Bool.or_true _
  · refine soils_of_dma hpanic hsettled ?_
    rw [dmaDestory_native hrtems, dmaRes, if_pos huse, if_neg hrtems]
    decide

theorem releaseResources_soils (h : LifeInv cfg s) (hpanic : s.sdif.panicked = false)
    (hok : s.sdif.callout ≠ .idle)
    (hs : lifeEvent cfg s .releaseResources = some s') : Soils cfg s' := by
  obtain ⟨hp, hs⟩ := Option.ite_none_right_eq_some.mp hs
  cases hs
  refine soils_of_callout rfl hpanic (h.lock _ hp) hok ?_
  change freed (s.ledger ++ (spec cfg.version).map .released) = true
  rw [freed_append, freed_spec, Bool.or_true]

/-- No call of `attach` fails. -/
def allGood : Results := ⟨true, true, true, true, true, true, true, true, true, true, true⟩

/-- `detach` up to the release of the bus resources. -/
def detachRun : List LifeEvent :=
  [.deleteChildren 0, .teardown 0, .deInitialize .idma, .dmaDestory, .releaseResources]

/-- A `SEND_STATUS` that is answered in time. -/
def answeredRun : List LifeEvent :=
  (SdifEvent.submit sendStatus [] :: calls 0 15 ++
    [SdifEvent.cmdDone ⟨0x900#32, 0#32, 0#32, 0#32⟩]).map .sdif

/-- A `SEND_STATUS` that is answered before `callout_reset`, which then arms the
callout of a request that is complete. -/
def overtakenRun : List LifeEvent :=
  (SdifEvent.submit sendStatus [] :: calls 0 13 ++
    SdifEvent.cmdDone ⟨0x900#32, 0#32, 0#32, 0#32⟩ :: calls 0 2).map .sdif

end Phytium.Sdif.Lifecycle
