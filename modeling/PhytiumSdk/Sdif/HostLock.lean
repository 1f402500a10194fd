import PhytiumSdk.Lib.Simulation
import PhytiumSdk.Sdif.RequestProgress

/-!
# The host lock keeps requests apart

`acquire_host` and `release_host` hand one host to any number of tasks. A task
that submits its requests one after the other, and only while it has the host,
knows nothing of the other tasks; that no request is submitted before those of
all tasks are over is what the count `bus_busy` is for. The tasks and the driver
simulate a driver with such a client (`tasks_simulate`), so what was proved of
that one holds for them.
-/

namespace Phytium.Sdif

open Lib

variable {cfg : SdifConfig} {s s' : WakeState} {t u : SdifState} {k : ℕ}

/-- The task's own requests are over. -/
def ownOver (s : WakeState) (task : ℕ) : Prop :=
  ∀ k < s.sdif.submitted, s.submitter k = task → Over s.sdif k

/-- A task submits a request, and gives the host back, while it has the host and
its own requests are over. -/
def orderly (s : WakeState) : WakeEvent → Prop
  | .request task _ _ => s.host = some task ∧ ownOver s task
  | .releaseHost task => s.host = some task ∧ ownOver s task
  | _ => True

/-- `lossless` of the driver's step. -/
def callLossless (cfg : SdifConfig) (s : WakeState) : WakeEvent → Prop
  | .call k ok => lossless cfg s.sdif (.call k ok)
  | _ => True

instance (s : WakeState) (task : ℕ) : Decidable (ownOver s task) :=
  inferInstanceAs (Decidable (∀ k < _, _ → _))

instance (s : WakeState) : (e : WakeEvent) → Decidable (orderly s e)
  | .request task _ _ | .releaseHost task =>
      inferInstanceAs (Decidable (s.host = some task ∧ ownOver s task))
  | .call _ _ | .intr _ | .expire | .timeout | .acquireHost _ | .wake _ | .updateIos _ _ _
  | .cardTask _ => isTrue trivial

instance (s : WakeState) : (e : WakeEvent) → Decidable (callLossless cfg s e)
  | .call k ok => inferInstanceAs (Decidable (lossless cfg s.sdif (.call k ok)))
  | .request _ _ _ | .intr _ | .expire | .timeout | .acquireHost _ | .wake _ | .releaseHost _
  | .updateIos _ _ _ | .cardTask _ => isTrue trivial

/-- What a step of the tasks is to the driver. -/
def sdifEvents (_ : WakeState) : WakeEvent → List SdifEvent
  | .request _ cmd bytes => [.submit cmd bytes]
  | .call k ok => [.call k ok]
  | .intr reports => reports
  | .expire => [.expire]
  | .timeout => [.timeout]
  | .updateIos _ powerUp useHold => [.updateIos powerUp useHold]
  | _ => []

/-- At most one task has the host, and the requests that are not over are
its. -/
structure HostInv (s : WakeState) : Prop where
  busy : s.busBusy = if s.host.isSome then 1 else 0
  owned : ∀ k < s.sdif.submitted, Over s.sdif k ∨ s.host = some (s.submitter k)

/-! ## Reports -/

theorem SdifEvent.submits_of_isReport {e : SdifEvent} (he : e.isReport = true) :
    e.submits = 0 := by
  cases e with
  | submit cmd bytes => cases he
  | _ => rfl

theorem run_answersKept {reports : List SdifEvent} (hall : reports.all SdifEvent.isReport = true)
    (hr : (sdifSystem cfg).run t reports = some u) : AnswersKept t u := by
  induction reports generalizing t with
  | nil =>
      cases hr
      exact .refl _
  | cons e reports ih =>
      rw [List.all_cons, Bool.and_eq_true] at hall
      rw [System.run_cons, Option.bind_eq_some_iff] at hr
      obtain ⟨v, hv, hr⟩ := hr
      have hfirst := eventStep_answersKept (SdifEvent.submits_of_isReport hall.1)
        (sdifStep_iff.mp hv).2
      exact hfirst.trans (ih hall.2 hr)

/-- Reports ask nothing of the client. -/
theorem oneAtATime_of_submits {e : SdifEvent} (he : e.submits = 0) (t : SdifState) :
    oneAtATime t e := by
  cases e with
  | submit cmd bytes => cases he
  | _ => trivial

theorem run_oneAtATime {es : List SdifEvent} (hall : ∀ e ∈ es, e.submits = 0) (t : SdifState) :
    ((sdifSystem cfg).restrict oneAtATime).run t es = (sdifSystem cfg).run t es :=
  System.run_restrict (fun e he t => oneAtATime_of_submits (hall e he) t) t

/-! ## The tasks and one client -/

/-- The driver moves, and no request is submitted. -/
theorem HostInv.settled (h : HostInv s) (hd : AnswersKept s.sdif t) {taskId : ℕ}
    {woken : List (ℕ × ℕ)} :
    HostInv { s with sdif := t, taskId := taskId, woken := woken } := by
  refine ⟨h.busy, ?_⟩
  intro k hk
  have hk' : k < s.sdif.submitted := hd.submitted ▸ hk
  exact (h.owned k hk').imp_left (hd.answered k)

/-- While a task has the host and its own requests are over, all are over. -/
theorem HostInv.requestsOver {task : ℕ} (h : HostInv s) (hhost : s.host = some task)
    (hown : ownOver s task) : requestsOver s.sdif := by
  intro k hk
  rcases h.owned k hk with hover | hk'
  · exact hover
  · rw [hhost, Option.some.injEq] at hk'
    exact hown k hk hk'.symm

/-- A free host has no request that is not over. -/
theorem HostInv.over_of_free (h : HostInv s) (hfree : s.busBusy = 0) :
    s.host = none ∧ Sdif.requestsOver s.sdif := by
  have hnone : s.host = none := by
    by_contra hn
    have hbusy := h.busy
    rw [hfree, Option.isSome_iff_ne_none.mpr hn, if_pos rfl] at hbusy
    cases hbusy
  refine ⟨hnone, fun k hk => (h.owned k hk).resolve_right ?_⟩
  rw [hnone]
  exact (Option.some_ne_none _).symm

/-- A task gets a free host. -/
theorem HostInv.takeHost {task : ℕ} (h : HostInv s) (hfree : s.busBusy = 0) {taskId : ℕ}
    {sleeping : List ℕ} :
    HostInv (takeHost task { s with taskId := taskId, sleeping := sleeping }) := by
  refine ⟨?_, fun k hk => Or.inl ((h.over_of_free hfree).2 k hk)⟩
  show s.busBusy + 1 = 1
  rw [hfree]
  rfl

theorem HostInv.request {task : ℕ} {cmd : MmcCommand} {bytes : List (BitVec 8)} (h : HostInv s)
    (hhost : s.host = some task) (hover : Sdif.requestsOver s.sdif) :
    HostInv { s with
      sdif := submit cfg cmd bytes s.sdif
      submitter := Function.update s.submitter s.sdif.submitted task } := by
  refine ⟨h.busy, ?_⟩
  intro k hk
  replace hk : k < (submit cfg cmd bytes s.sdif).submitted := hk
  rw [submitted_submit] at hk
  rcases Nat.lt_succ_iff_lt_or_eq.mp hk with hlt | rfl
  · exact Or.inl (submit_over hlt (hover k hlt))
  · right
    show s.host = some (Function.update s.submitter s.sdif.submitted task s.sdif.submitted)
    rw [Function.update_self, hhost]

theorem HostInv.releaseHost {task taskId : ℕ} (h : HostInv s) (hhost : s.host = some task)
    (hover : Sdif.requestsOver s.sdif) :
    HostInv { s with taskId := taskId, busBusy := s.busBusy - 1, host := none } := by
  refine ⟨?_, fun k hk => Or.inl (hover k hk)⟩
  have hbusy := h.busy
  rw [hhost, Option.isSome_some, if_pos rfl] at hbusy
  show s.busBusy - 1 = 0
  rw [hbusy]
  rfl

/-- The tasks' state stands for the driver's, and the host is in order. -/
def HostRel (s : WakeState) (t : SdifState) : Prop := t = s.sdif ∧ HostInv s

/-- A step of the driver that is not a request. -/
theorem sdifStep_restrict {e : SdifEvent} (he : e.submits = 0) (hs : sdifStep cfg t e = some u) :
    ((sdifSystem cfg).restrict oneAtATime).run t [e] = some u := by
  rw [run_oneAtATime (fun f hf => by rwa [List.mem_singleton.mp hf])]
  show (sdifStep cfg t e).bind some = some u
  rw [hs]
  rfl

/-- **The tasks simulate one client.** -/
theorem tasks_simulate (cfg : SdifConfig) :
    ((wakeSystem cfg).restrict orderly).Simulates ((sdifSystem cfg).restrict oneAtATime)
      sdifEvents HostRel := by
  refine ⟨?_, ?_⟩
  · rintro s ⟨mem, need, rfl⟩
    exact ⟨_, ⟨mem, need, rfl⟩, rfl, rfl, fun _ hk => absurd hk (Nat.not_lt_zero _)⟩
  rintro s e s' _ ⟨rfl, h⟩ hs
  obtain ⟨hdom, hs⟩ := System.restrict_step.mp hs
  replace hs : wakeStep cfg s e = some s' := hs
  cases e with
  | request task cmd bytes =>
      obtain ⟨t, ht, rfl⟩ := Option.map_eq_some_iff.mp hs
      have hover := h.requestsOver hdom.1 hdom.2
      have hsub : t = submit cfg cmd bytes s.sdif := by
        obtain ⟨-, ht⟩ := sdifStep_iff.mp ht
        cases ht
        rfl
      refine ⟨t, ?_, rfl, ?_⟩
      · have hstep : ((sdifSystem cfg).restrict oneAtATime).step s.sdif (.submit cmd bytes) =
            some t := System.restrict_step.mpr ⟨hover, ht⟩
        show (((sdifSystem cfg).restrict oneAtATime).step s.sdif (.submit cmd bytes)).bind some =
          some t
        rw [hstep]
        rfl
      · rw [hsub]
        exact h.request hdom.1 hover
  | call k ok =>
      obtain ⟨t, ht, rfl⟩ := Option.map_eq_some_iff.mp hs
      have hkept := eventStep_answersKept rfl (sdifStep_iff.mp ht).2
      exact ⟨t, sdifStep_restrict rfl ht, rfl, h.settled hkept⟩
  | intr reports =>
      obtain ⟨hall, hs⟩ := Option.ite_none_right_eq_some.mp hs
      obtain ⟨t, ht, rfl⟩ := Option.map_eq_some_iff.mp hs
      refine ⟨t, ?_, rfl, h.settled (run_answersKept hall ht)⟩
      rw [sdifEvents, run_oneAtATime]
      · exact ht
      · exact fun e he => SdifEvent.submits_of_isReport (List.all_eq_true.mp hall e he)
  | expire =>
      obtain ⟨t, ht, rfl⟩ := Option.map_eq_some_iff.mp hs
      have hkept := eventStep_answersKept rfl (sdifStep_iff.mp ht).2
      exact ⟨t, sdifStep_restrict rfl ht, rfl, h.settled hkept⟩
  | timeout =>
      obtain ⟨t, ht, rfl⟩ := Option.map_eq_some_iff.mp hs
      have hkept := eventStep_answersKept rfl (sdifStep_iff.mp ht).2
      exact ⟨t, sdifStep_restrict rfl ht, rfl, h.settled hkept⟩
  | acquireHost task =>
      obtain ⟨u, hu, rfl⟩ := Option.map_eq_some_iff.mp hs
      obtain ⟨-, hu⟩ := Option.ite_none_right_eq_some.mp hu
      cases hu
      split
      · rename_i hfree
        exact ⟨s.sdif, rfl, rfl, h.takeHost hfree⟩
      · exact ⟨s.sdif, rfl, rfl, h.busy, h.owned⟩
  | wake i =>
      obtain ⟨task, -, hs⟩ := Option.bind_eq_some_iff.mp hs
      obtain ⟨-, hs⟩ := Option.ite_none_right_eq_some.mp hs
      split at hs <;> rename_i hfree <;> cases hs
      · exact ⟨s.sdif, rfl, rfl, h.takeHost hfree⟩
      · exact ⟨s.sdif, rfl, rfl, h⟩
  | releaseHost task =>
      obtain ⟨u, hu, rfl⟩ := Option.map_eq_some_iff.mp hs
      obtain ⟨-, hu⟩ := Option.ite_none_right_eq_some.mp hu
      cases hu
      exact ⟨s.sdif, rfl, rfl, h.releaseHost hdom.1 (h.requestsOver hdom.1 hdom.2)⟩
  | updateIos task powerUp useHold =>
      obtain ⟨u, hu, hs⟩ := Option.bind_eq_some_iff.mp hs
      obtain ⟨-, hu⟩ := Option.ite_none_right_eq_some.mp hu
      cases hu
      obtain ⟨t, ht, rfl⟩ := Option.map_eq_some_iff.mp hs
      have hkept := eventStep_answersKept rfl (sdifStep_iff.mp ht).2
      exact ⟨t, sdifStep_restrict rfl ht, rfl, h.settled hkept⟩
  | cardTask task =>
      obtain ⟨-, hu⟩ := Option.ite_none_right_eq_some.mp hs
      cases hu
      exact ⟨s.sdif, rfl, rfl, h.busy, h.owned⟩

theorem lossless_of_not_call {e : SdifEvent} (he : ∀ k ok, e ≠ .call k ok) (t : SdifState) :
    lossless cfg t e := by
  cases e with
  | call k ok => exact absurd rfl (he k ok)
  | _ => trivial

/-- The runs without a silent failure simulate such runs. -/
theorem tasks_simulate_lossless (cfg : SdifConfig) :
    (((wakeSystem cfg).restrict orderly).restrict (callLossless cfg)).Simulates
      (((sdifSystem cfg).restrict oneAtATime).restrict (lossless cfg)) sdifEvents HostRel := by
  apply (tasks_simulate cfg).restrict
  rintro s e s' _ ⟨rfl, -⟩ hok hs
  obtain ⟨-, hs⟩ := System.restrict_step.mp hs
  cases e with
  | call k ok =>
      have hstep : (((sdifSystem cfg).restrict oneAtATime).restrict (lossless cfg)).step s.sdif
          (.call k ok) = ((sdifSystem cfg).restrict oneAtATime).step s.sdif (.call k ok) :=
        if_pos hok
      rw [sdifEvents, System.run_cons, System.run_cons, hstep]
      rfl
  | intr reports =>
      obtain ⟨hall, -⟩ := Option.ite_none_right_eq_some.mp hs
      apply System.run_restrict
      intro f hf t
      apply lossless_of_not_call
      rintro k ok rfl
      cases List.all_eq_true.mp hall _ hf
  | _ =>
      apply System.run_restrict
      intro f hf t
      apply lossless_of_not_call
      rintro k ok rfl
      simp [sdifEvents] at hf

/-- **The host lock serialises requests.** In every run in which each task submits
its requests one after the other and only while it has the host, at most one
task has it, every request that is not over is that task's, and the driver is
used as by one client. -/
theorem host_serialises (h : ((wakeSystem cfg).restrict orderly).Reachable s) :
    ((sdifSystem cfg).restrict oneAtATime).Reachable s.sdif ∧
      s.busBusy = (if s.host.isSome then 1 else 0) ∧
      ∀ k < s.sdif.submitted, Over s.sdif k ∨ s.host = some (s.submitter k) := by
  obtain ⟨t, ht, rfl, hinv⟩ := (tasks_simulate cfg).reachable h
  exact ⟨ht, hinv.busy, hinv.owned⟩

/-- Task 1 has the host and its request is started; task 2 waits for the host. -/
def contendedRun (v : Version) : List WakeEvent := startedRun v ++ [.acquireHost 2]

theorem host_serialises_contended :
    ∃ s, ((wakeSystem (sampleSdif .v1)).restrict orderly).run
        (wakeAttached (fun _ => 0#8) false) (contendedRun .v1) = some s ∧
      s.host = some 1 ∧ s.sleeping = [2] ∧ s.busBusy = 1 := by
  have hrun : (((wakeSystem (sampleSdif .v1)).restrict orderly).run
      (wakeAttached (fun _ => 0#8) false) (contendedRun .v1)).map
      (fun s => (s.host, s.sleeping)) = some (some 1, [2]) := by
    decide
  obtain ⟨s, hs, hq⟩ := Option.map_eq_some_iff.mp hrun
  obtain ⟨hhost, hsleep⟩ := Prod.mk.inj hq
  have hbusy := (host_serialises (System.reachable_of_run _ ⟨_, _, rfl⟩ hs)).2.1
  rw [hhost] at hbusy
  exact ⟨s, hs, hhost, hsleep, hbusy⟩

end Phytium.Sdif
