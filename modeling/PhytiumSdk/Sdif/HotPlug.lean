import PhytiumSdk.Lib.System

/-!
# Hot plug

`sdif_card_detected` runs in the interrupt and decides from `sc->child` whether
a card task is needed; `sdif_card_task` looks for the card and changes
`sc->child` some time later. An event between the two looks at a child that is
about to change, and is lost unless another card task is already on its way.

Both drivers have this code under their own names. A worker runs the card tasks
one at a time; the call at the end of `attach` is its first. The build is one
without `MMCCAM`, `device_add_child` succeeds, and no kernel dump is under way.
-/

namespace Phytium.Sdif

open Lib

/-- Where the worker stands in `sdif_card_task`. -/
inductive CardPc where
  /-- no card task is running -/
  | idle
  /-- about to call `FSdifCheckCardExists` -/
  | check
  /-- about to test `sc->child`, with what the check has found -/
  | test (found : Bool)
  /-- `device_probe_and_attach` -/
  | probe
  /-- `device_delete_child` -/
  | delete
  /-- about to store `NULL` in `sc->child` -/
  | clear
deriving DecidableEq, Repr

structure PlugState where
  /-- there is a card in the slot -/
  present : Bool
  /-- `sc->child` is not `NULL` -/
  child : Bool
  /-- `sc->card_task` is on the queue -/
  cardTask : Bool
  /-- the callout of `sc->card_delayed_task` is armed -/
  delayArmed : Bool
  /-- `sc->card_delayed_task` is on the queue -/
  delayedTask : Bool
  pc : CardPc
deriving DecidableEq, Repr

inductive PlugEvent where
  /-- a card is put in, and `CARD_DETECTED` handled -/
  | insert
  /-- the card is taken out, and `CARD_DETECTED` handled -/
  | remove
  /-- half a second has passed since the callout was armed -/
  | expire
  /-- the worker takes `sc->card_task` off the queue -/
  | runCard
  /-- the worker takes `sc->card_delayed_task` off the queue -/
  | runDelayed
  /-- one step of the card task that is running -/
  | task
deriving DecidableEq, Repr

/-- `sdif_handle_card_present`. -/
def handleCardPresent (isPresent : Bool) (s : PlugState) : PlugState :=
  let wasPresent := s.child
  if !wasPresent && isPresent then { s with delayArmed := true }
  else if wasPresent && !isPresent then { s with cardTask := true }
  else s

/-- `sdif_card_detected`. -/
def cardDetected (s : PlugState) : PlugState := handleCardPresent s.present s

/-- `sdif_card_task`. -/
def cardTaskStep (s : PlugState) : CardPc → Option PlugState
  | .idle => none
  | .check => some { s with pc := .test s.present }
  | .test true =>
      if s.child then some { s with pc := .idle }
      else some { s with child := true, pc := .probe }
  | .test false =>
      if s.child then some { s with pc := .delete }
      else some { s with pc := .idle }
  | .probe => some { s with pc := .idle }
  | .delete => some { s with pc := .clear }
  | .clear => some { s with child := false, pc := .idle }

def plugStep (s : PlugState) : PlugEvent → Option PlugState
  | .insert => if s.present then none else some (cardDetected { s with present := true })
  | .remove => if s.present then some (cardDetected { s with present := false }) else none
  | .expire =>
      if s.delayArmed then some { s with delayArmed := false, delayedTask := true } else none
  | .runCard =>
      if s.cardTask ∧ s.pc = .idle then some { s with cardTask := false, pc := .check } else none
  | .runDelayed =>
      if s.delayedTask ∧ s.pc = .idle then some { s with delayedTask := false, pc := .check }
      else none
  | .task => cardTaskStep s s.pc

/-- The driver at the end of `attach`, where it calls `sdif_card_task`. -/
def plugAttached (present : Bool) : PlugState := ⟨present, false, false, false, false, .check⟩

def plugSystem : System PlugState PlugEvent where
  init := fun s => ∃ present, s = plugAttached present
  step := plugStep

/-! ## What is to hold -/

variable {s s' : PlugState} {e : PlugEvent}

/-- Another card task will run: one is on the queue, or its callout is armed. -/
def PlugState.taskDue (s : PlugState) : Bool := s.cardTask || s.delayArmed || s.delayedTask

/-- With no card task queued or running, there is a child just when there is a
card. -/
def Converged (s : PlugState) : Prop :=
  s.pc = .idle → s.taskDue = false → (s.child = true ↔ s.present = true)

instance : Decidable (Converged s) :=
  inferInstanceAs (Decidable (s.pc = .idle → s.taskDue = false → _))

/-- What `sc->child` will be when the running task is done: `none` while it is
still to look for the card. -/
def PlugState.target (s : PlugState) : Option Bool :=
  match s.pc with
  | .idle => some s.child
  | .check => none
  | .test found => some found
  | .probe => some s.child
  | .delete => some false
  | .clear => some false

/-- No card is put in while the running task is about to delete the child, and
none is taken out while it is about to add one, unless another card task is
due. -/
def plugOk (s : PlugState) (e : PlugEvent) : Prop :=
  s.taskDue = true ∨
    match e with
    | .insert => ¬ (s.target = some false ∧ s.child = true)
    | .remove => ¬ (s.target = some true ∧ s.child = false)
    | _ => True

instance : Decidable (plugOk s e) := by
  unfold plugOk
  cases e <;> infer_instance

/-! ## What a step can do -/

theorem handleCardPresent_cases (isPresent : Bool) (s : PlugState) :
    (s.child = isPresent ∧ handleCardPresent isPresent s = s) ∨
    (s.child = false ∧ isPresent = true ∧
      handleCardPresent isPresent s = { s with delayArmed := true }) ∨
    (s.child = true ∧ isPresent = false ∧
      handleCardPresent isPresent s = { s with cardTask := true }) := by
  unfold handleCardPresent
  cases hc : s.child <;> cases isPresent <;> simp

/-- An event leaves the task where it is. It makes another one due when the
child does not fit the card, and only then. -/
theorem cardDetected_spec (s : PlugState) :
    (cardDetected s).present = s.present ∧ (cardDetected s).target = s.target ∧
    (cardDetected s).taskDue = (s.taskDue || s.child != s.present) := by
  unfold cardDetected
  rcases handleCardPresent_cases s.present s with ⟨hc, h⟩ | ⟨hc, hp, h⟩ | ⟨hc, hp, h⟩
  · rw [h, hc]
    simp
  · rw [h]
    simp [PlugState.target, PlugState.taskDue, hc, hp]
  · rw [h]
    simp [PlugState.target, PlugState.taskDue, hc, hp]

/-- The steps a card task still has before it, at most. -/
def CardPc.rank : CardPc → ℕ
  | .idle => 0
  | .probe => 1
  | .clear => 1
  | .delete => 2
  | .test _ => 3
  | .check => 4

/-- One step of a card task: it comes nearer to its end, and its target is what
it was, or the card it has just looked for. -/
theorem task_spec (h : cardTaskStep s s.pc = some s') :
    s'.present = s.present ∧ s'.taskDue = s.taskDue ∧ s'.pc.rank < s.pc.rank ∧
    s'.target = some (s.target.getD s.present) := by
  cases hp : s.pc with
  | idle =>
      rw [hp] at h
      cases h
  | check =>
      rw [hp] at h
      cases h
      simp [PlugState.target, PlugState.taskDue, CardPc.rank, hp]
  | test found =>
      cases found with
      | true =>
          rw [hp] at h
          cases hc : s.child <;> simp only [cardTaskStep, hc] at h <;> cases h <;>
            simp [PlugState.target, PlugState.taskDue, CardPc.rank, hp]
      | false =>
          rw [hp] at h
          cases hc : s.child <;> simp only [cardTaskStep, hc] at h <;> cases h <;>
            simp [PlugState.target, PlugState.taskDue, CardPc.rank, hp]
  | probe =>
      rw [hp] at h
      cases h
      simp [PlugState.target, PlugState.taskDue, CardPc.rank, hp]
  | delete =>
      rw [hp] at h
      cases h
      simp [PlugState.target, PlugState.taskDue, CardPc.rank, hp]
  | clear =>
      rw [hp] at h
      cases h
      simp [PlugState.target, PlugState.taskDue, CardPc.rank, hp]

theorem task_enabled (h : s.pc ≠ .idle) : ∃ s', cardTaskStep s s.pc = some s' := by
  cases hp : s.pc with
  | idle => exact absurd hp h
  | check => exact ⟨_, rfl⟩
  | test found =>
      cases found with
      | true =>
          unfold cardTaskStep
          dsimp only
          split <;> exact ⟨_, rfl⟩
      | false =>
          unfold cardTaskStep
          dsimp only
          split <;> exact ⟨_, rfl⟩
  | probe => exact ⟨_, rfl⟩
  | delete => exact ⟨_, rfl⟩
  | clear => exact ⟨_, rfl⟩

/-! ## Every run that loses no event -/

/-- Another task is due, or the one that is running will leave the right
child. -/
def PlugInv (s : PlugState) : Prop :=
  s.taskDue = true ∨ ∀ b, s.target = some b → b = s.present

theorem PlugInv.converged (h : PlugInv s) : Converged s := by
  intro hpc hdue
  rcases h with hd | ht
  · rw [hdue] at hd
    exact Bool.noConfusion hd
  · have hchild : s.target = some s.child := by
      rw [PlugState.target, hpc]
    rw [ht _ hchild]

theorem PlugInv.cardDetected {present : Bool}
    (hok : s.taskDue = true ∨ ¬ (s.target = some (!present) ∧ s.child = present)) :
    PlugInv (cardDetected { s with present := present }) := by
  obtain ⟨hp, ht, hd⟩ := cardDetected_spec { s with present := present }
  have hdue : ({ s with present := present } : PlugState).taskDue = s.taskDue := rfl
  have htar : ({ s with present := present } : PlugState).target = s.target := rfl
  rw [hdue] at hd
  rw [htar] at ht
  rw [PlugInv, hp, ht, hd]
  rcases hok with hok | hok
  · left
    rw [hok, Bool.true_or]
  · -- the handler goes by `sc->child`, which here is what the task will leave
    by_cases hc : s.child = present
    · right
      intro b hb
      by_contra hne
      refine hok ⟨?_, hc⟩
      rw [hb, Bool.eq_not_of_ne hne]
    · left
      have hbne : (s.child != present) = true := bne_iff_ne.mpr hc
      rw [hbne, Bool.or_true]

theorem PlugInv.step (h : PlugInv s) (hok : plugOk s e) (hs : plugStep s e = some s') :
    PlugInv s' := by
  cases e with
  | insert =>
      obtain ⟨-, ht⟩ := Option.ite_none_left_eq_some.mp hs
      cases ht
      exact PlugInv.cardDetected hok
  | remove =>
      obtain ⟨-, ht⟩ := Option.ite_none_right_eq_some.mp hs
      cases ht
      exact PlugInv.cardDetected hok
  | expire =>
      obtain ⟨-, ht⟩ := Option.ite_none_right_eq_some.mp hs
      cases ht
      left
      simp [PlugState.taskDue]
  | runCard =>
      obtain ⟨-, ht⟩ := Option.ite_none_right_eq_some.mp hs
      cases ht
      right
      intro b hb
      cases hb
  | runDelayed =>
      obtain ⟨-, ht⟩ := Option.ite_none_right_eq_some.mp hs
      cases ht
      right
      intro b hb
      cases hb
  | task =>
      obtain ⟨hp, hd, -, ht⟩ := task_spec hs
      rcases h with h | h
      · left
        rw [hd, h]
      · right
        intro b hb
        rw [ht, Option.some.injEq] at hb
        rw [hp, ← hb]
        cases htar : s.target with
        | none => rfl
        | some c => exact h c htar

theorem plug_reachable_inv (h : (plugSystem.restrict plugOk).Reachable s) : PlugInv s := by
  apply h.restrict_invariant
  · rintro s ⟨present, rfl⟩
    right
    intro b hb
    cases hb
  · intro s e s' _ hi hok hs
    exact hi.step hok hs

/-! ## What a lost event does -/

/-- Left to itself, a card task ends, and leaves the child it was to leave. -/
theorem task_completes (s : PlugState) :
    ∃ n t, plugSystem.run s (List.replicate n .task) = some t ∧ t.pc = .idle ∧
      t.present = s.present ∧ t.taskDue = s.taskDue ∧ t.child = s.target.getD s.present := by
  induction hr : s.pc.rank using Nat.strongRecOn generalizing s with
  | ind r ih =>
      by_cases hidle : s.pc = .idle
      · refine ⟨0, s, rfl, hidle, rfl, rfl, ?_⟩
        rw [PlugState.target, hidle]
        rfl
      · obtain ⟨u, hu⟩ := task_enabled hidle
        obtain ⟨hp, hd, hrank, ht⟩ := task_spec hu
        obtain ⟨n, t, hrun, hpc, hpres, hdue, hchild⟩ := ih _ (hr ▸ hrank) u rfl
        refine ⟨n + 1, t, ?_, hpc, hpres.trans hp, hdue.trans hd, ?_⟩
        · rw [List.replicate_succ, System.run_cons]
          show (cardTaskStep s s.pc).bind _ = some t
          rw [hu]
          exact hrun
        · rw [hchild, ht]
          rfl

theorem lost_of_cardDetected {present : Bool}
    (hok : ¬ (s.taskDue = true ∨ ¬ (s.target = some (!present) ∧ s.child = present))) :
    (cardDetected { s with present := present }).taskDue = false ∧
    (cardDetected { s with present := present }).target =
      some (!(cardDetected { s with present := present }).present) := by
  rw [not_or, not_not, Bool.not_eq_true] at hok
  obtain ⟨hdue, htar, hc⟩ := hok
  obtain ⟨hp', ht', hd'⟩ := cardDetected_spec { s with present := present }
  constructor
  · rw [hd', hc, bne_self_eq_false]
    exact (Bool.or_false _).trans hdue
  · rw [ht', hp']
    exact htar

/-- A lost event: the running task acts for the card as it was before, and no
other task is due. -/
theorem lost_of_not_ok (hok : ¬ plugOk s e) (hs : plugStep s e = some s') :
    s'.taskDue = false ∧ s'.target = some (!s'.present) := by
  cases e with
  | insert =>
      obtain ⟨-, ht⟩ := Option.ite_none_left_eq_some.mp hs
      cases ht
      exact lost_of_cardDetected hok
  | remove =>
      obtain ⟨-, ht⟩ := Option.ite_none_right_eq_some.mp hs
      cases ht
      exact lost_of_cardDetected hok
  | _ => exact absurd (Or.inr trivial) hok

/-- **Hot plug converges** in every run that loses no event; and the first
event a run loses does harm: when the running task has come to its end, the
child does not fit the card. -/
theorem hot_plug_converges (h : (plugSystem.restrict plugOk).Reachable s) :
    Converged s ∧
    ∀ e s', ¬ plugOk s e → plugSystem.step s e = some s' →
      ∃ n t, plugSystem.run s' (List.replicate n .task) = some t ∧ ¬ Converged t := by
  constructor
  · exact (plug_reachable_inv h).converged
  · intro e s' hok hs
    obtain ⟨hdue, htar⟩ := lost_of_not_ok hok hs
    obtain ⟨n, t, hrun, hpc, hpres, hdue', hchild⟩ := task_completes s'
    refine ⟨n, t, hrun, ?_⟩
    intro hconv
    have hfit := Bool.eq_iff_iff.mpr (hconv hpc (hdue'.trans hdue))
    rw [hchild, hpres, htar, Option.getD_some] at hfit
    exact (Bool.not_eq_self _).mp hfit

/-- An empty slot at `attach`, and a card put in later. -/
theorem hot_plug_insertion : Converged ⟨true, true, false, false, false, .idle⟩ := by
  have hrun : (plugSystem.restrict plugOk).run (plugAttached false)
      [.task, .task, .insert, .expire, .runDelayed, .task, .task, .task] =
      some ⟨true, true, false, false, false, .idle⟩ := rfl
  exact (hot_plug_converges (System.reachable_of_run _ ⟨false, rfl⟩ hrun)).1

/-- The card that `attach` has found is taken out before the child is added. -/
theorem hot_plug_lost_removal : ¬ ∀ s, plugSystem.Reachable s → Converged s := by
  intro h
  obtain ⟨t, ht, hq⟩ : ∃ t, plugSystem.run (plugAttached true) [.task, .remove, .task, .task] =
      some t ∧ ¬ Converged t := ⟨_, rfl, by decide⟩
  exact hq (h t (System.reachable_of_run _ ⟨_, rfl⟩ ht))

end Phytium.Sdif
