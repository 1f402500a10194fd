import PhytiumSdk.Sdif.AtMostOnce

/-!
# Who the interrupt wakes

In the RTEMS build `SDIF_LOCK` notes the calling task in `sc->task_id`, and
`sdif_intr` sends its event to that task. Here the requests of `Sdif.Request`
belong to tasks, and other tasks take the lock around them. The lock is free
whenever a section of `acquire_host`, `release_host`, `update_ios` or
`card_task` begins, so each is one step; `msleep` gives the lock back and takes
it again without `SDIF_LOCK`.
-/

namespace Phytium.Sdif

open Lib

structure WakeState where
  sdif : SdifState
  /-- `sc->task_id` -/
  taskId : ℕ
  busBusy : ℤ
  /-- the tasks in the `msleep` of `acquire_host` -/
  sleeping : List ℕ
  -- history
  /-- the task that submitted each request -/
  submitter : ℕ → ℕ
  /-- the task that has acquired the host -/
  host : Option ℕ
  /-- for each request an interrupt completed, the task it then woke -/
  woken : List (ℕ × ℕ)

inductive WakeEvent where
  /-- `phytium_sdif_request` is called by a task -/
  | request (task : ℕ) (cmd : MmcCommand) (bytes : List (BitVec 8))
  | call (k : ℕ) (ok : Bool)
  /-- `sdif_intr`, with what the controller has to report -/
  | intr (reports : List SdifEvent)
  | expire
  | timeout
  | acquireHost (task : ℕ)
  /-- `msleep` returns to the `i`-th sleeping task -/
  | wake (i : ℕ)
  | releaseHost (task : ℕ)
  | updateIos (task : ℕ) (powerUp useHold : Bool)
  | cardTask (task : ℕ)
deriving DecidableEq

/-- What the controller can report. -/
def SdifEvent.isReport : SdifEvent → Bool
  | .cmdDone _ => true
  | .dataDone _ => true
  | .errOccure => true
  | _ => false

variable (cfg : SdifConfig)

/-- `SDIF_LOCK` and `SDIF_UNLOCK` around a section that changes nothing a
request uses. -/
def lockSection (task : ℕ) (s : WakeState) : Option WakeState :=
  if s.sdif.lock = none then some { s with taskId := task } else none

/-- The body of `acquire_host` behind its loop. -/
def takeHost (task : ℕ) (s : WakeState) : WakeState :=
  { s with busBusy := s.busBusy + 1, host := some task }

/-- `phytium_sdif_acquire_host` up to its end or to `msleep`. -/
def acquireHost (task : ℕ) (s : WakeState) : Option WakeState :=
  (lockSection task s).map fun s =>
    if s.busBusy = 0 then takeHost task s else { s with sleeping := s.sleeping ++ [task] }

/-- `phytium_sdif_acquire_host` behind `msleep`. -/
def wake (i : ℕ) (s : WakeState) : Option WakeState :=
  s.sleeping[i]?.bind fun task =>
    if s.sdif.lock = none then
      if s.busBusy = 0 then some (takeHost task { s with sleeping := s.sleeping.eraseIdx i })
      else some s
    else none

/-- `phytium_sdif_release_host`. -/
def releaseHost (task : ℕ) (s : WakeState) : Option WakeState :=
  (lockSection task s).map fun s => { s with busBusy := s.busBusy - 1, host := none }

/-- A step of a request call, with the store of `SDIF_LOCK` if it is there. -/
def callLocking (k : ℕ) (ok : Bool) (s : WakeState) : Option WakeState :=
  (sdifStep cfg s.sdif (.call k ok)).map fun t =>
    { s with
      sdif := t
      taskId := if (s.sdif.pc k).locking then s.submitter k else s.taskId }

/-- `sdif_intr`. -/
def intr (reports : List SdifEvent) (s : WakeState) : Option WakeState :=
  if reports.all SdifEvent.isReport then
    ((sdifSystem cfg).run s.sdif reports).map fun t =>
      { s with
        sdif := t
        woken := s.woken ++
          (t.doneReqs.drop s.sdif.doneReqs.length).map fun r => (r, s.taskId) }
  else none

def wakeStep (s : WakeState) : WakeEvent → Option WakeState
  | .request task cmd bytes =>
      (sdifStep cfg s.sdif (.submit cmd bytes)).map fun t =>
        { s with
          sdif := t
          submitter := Function.update s.submitter s.sdif.submitted task }
  | .call k ok => callLocking cfg k ok s
  | .intr reports => intr cfg reports s
  | .expire => (sdifStep cfg s.sdif .expire).map fun t => { s with sdif := t }
  | .timeout => (sdifStep cfg s.sdif .timeout).map fun t => { s with sdif := t }
  | .acquireHost task => acquireHost task s
  | .wake i => wake i s
  | .releaseHost task => releaseHost task s
  | .updateIos task powerUp useHold =>
      (lockSection task s).bind fun s =>
        (sdifStep cfg s.sdif (.updateIos powerUp useHold)).map fun t => { s with sdif := t }
  | .cardTask task => lockSection task s

/-- The tasks and the driver behind `phytium_sdif_attach`. -/
def wakeAttached (mem : Mem) (need : Bool) : WakeState where
  sdif := attached mem need
  taskId := 0
  busBusy := 0
  sleeping := []
  submitter := fun _ => 0
  host := none
  woken := []

def wakeSystem : System WakeState WakeEvent where
  init := fun s => ∃ mem need, s = wakeAttached mem need
  step := wakeStep cfg

/-- Every request an interrupt completed woke the task that submitted it. -/
def RightTaskWoken (s : WakeState) : Prop := ∀ w ∈ s.woken, w.2 = s.submitter w.1

/-- The call has returned an error. -/
def CallPc.failed : CallPc → Bool
  | .returned (some _) => true
  | _ => false

/-- All requests are over: completed, or their calls have returned an error. -/
def requestsOver (s : SdifState) : Prop :=
  ∀ k < s.submitted, k ∈ s.doneReqs ∨ (s.pc k).failed = true

/-- Requests are serialised by `acquire_host` and `release_host`, and the
controller reports only on commands that were started. -/
def serialised (s : WakeState) : WakeEvent → Prop
  | .request task _ _ => s.host = some task ∧ requestsOver s.sdif
  | .releaseHost task => s.host = some task ∧ requestsOver s.sdif
  | .intr reports => (((sdifSystem cfg).restrict promised).run s.sdif reports).isSome = true
  | _ => True

/-- The task may take `SDIF_LOCK`: no request of another task is the current
one. -/
def mayLock (s : WakeState) (task : ℕ) : Prop := ∀ r ∈ s.sdif.req, task = s.submitter r

/-- While a request is the current one, only the task that submitted it takes
`SDIF_LOCK`. -/
def wakeOk (s : WakeState) : WakeEvent → Prop
  | .call k _ => (s.sdif.pc k).locking = true → mayLock s (s.submitter k)
  | .acquireHost task => mayLock s task
  | .releaseHost task => mayLock s task
  | .updateIos task _ _ => mayLock s task
  | .cardTask task => mayLock s task
  | _ => True

instance (s : SdifState) : Decidable (requestsOver s) :=
  inferInstanceAs (Decidable (∀ k < _, _ ∨ _))

instance (s : WakeState) (task : ℕ) : Decidable (mayLock s task) :=
  inferInstanceAs (Decidable (∀ r ∈ _, _ = _))

instance (s : WakeState) (e : WakeEvent) : Decidable (serialised cfg s e) := by
  cases e <;>
    · unfold serialised
      infer_instance

instance (s : WakeState) (e : WakeEvent) : Decidable (wakeOk s e) := by
  cases e <;>
    · unfold wakeOk
      infer_instance

instance (s : WakeState) : Decidable (RightTaskWoken s) :=
  inferInstanceAs (Decidable (∀ w ∈ s.woken, w.2 = s.submitter w.1))

variable {cfg} {s s' : WakeState} {t : SdifState} {k : ℕ}

/-! ## What an interrupt does -/

/-- The interrupt handler as a whole: it completes at most the request that was
the current one. -/
structure Reported (s t : SdifState) : Prop where
  lock : t.lock = s.lock
  subs : t.subs = s.subs
  req : t.req = s.req ∨ t.req = none
  done : ∃ rs, t.doneReqs = s.doneReqs ++ rs ∧ ∀ r ∈ rs, s.req = some r

theorem Reported.refl (s : SdifState) : Reported s s :=
  ⟨rfl, rfl, Or.inl rfl, [], (List.append_nil _).symm, fun _ hr => absurd hr List.not_mem_nil⟩

theorem Reported.trans {s t u : SdifState} (h : Reported s t) (g : Reported t u) :
    Reported s u := by
  obtain ⟨rs, hrs, hs⟩ := h.done
  obtain ⟨rs', hrs', ht⟩ := g.done
  refine ⟨g.lock.trans h.lock, g.subs.trans h.subs, ?_, rs ++ rs', ?_, ?_⟩
  · rcases g.req with hu | hu
    · rw [hu]
      exact h.req
    · exact Or.inr hu
  · rw [hrs', hrs, List.append_assoc]
  · intro r hr
    rcases List.mem_append.mp hr with hr | hr
    · exact hs r hr
    · have hcur := ht r hr
      rcases h.req with hreq | hreq
      · rwa [← hreq]
      · rw [hreq] at hcur
        exact (Option.some_ne_none _ hcur.symm).elim

theorem DoneEvent.reported {s t : SdifState} {c : Option ℕ} (hd : DoneEvent s t c) :
    Reported s t := by
  cases c with
  | none =>
      obtain ⟨hreq, hlog, -⟩ := hd.quiet rfl
      refine ⟨hd.lock, hd.subs, Or.inl hreq, [], ?_, fun _ hr => absurd hr List.not_mem_nil⟩
      rw [SdifState.doneReqs, hlog, List.append_nil]
      rfl
  | some r =>
      obtain ⟨hreq, hreq', resp, buffer, hlog⟩ := hd.done r rfl
      refine ⟨hd.lock, hd.subs, Or.inr hreq', [r], doneReqs_snoc hlog, ?_⟩
      intro q hq
      rw [List.mem_singleton] at hq
      rw [hq, hreq]

theorem sdifStep_reported {s t : SdifState} {e : SdifEvent} (he : e.isReport = true)
    (hs : sdifStep cfg s e = some t) : Reported s t := by
  obtain ⟨-, hs⟩ := sdifStep_iff.mp hs
  cases e with
  | cmdDone resp =>
      cases hs
      exact (commandDone_spec resp s).reported
  | dataDone bytes =>
      cases hs
      exact (dataDone_spec bytes s).reported
  | errOccure =>
      cases hs
      obtain ⟨-, hl, hsub, -, hreq, hlog, -⟩ := errorOccurred_spec cfg s
      refine ⟨hl, hsub, Or.inl hreq, [], ?_, fun _ hr => absurd hr List.not_mem_nil⟩
      rw [SdifState.doneReqs, hlog, List.append_nil]
      rfl
  | _ => exact Bool.noConfusion he

theorem run_reported : ∀ {reports : List SdifEvent} {s t : SdifState},
    reports.all SdifEvent.isReport = true → (sdifSystem cfg).run s reports = some t →
    Reported s t
  | [], s, _, _, hr => by
      cases hr
      exact .refl s
  | e :: reports, s, t, hall, hr => by
      rw [List.all_cons, Bool.and_eq_true] at hall
      rw [System.run_cons, Option.bind_eq_some_iff] at hr
      obtain ⟨u, hu, hr⟩ := hr
      exact (sdifStep_reported hall.1 hu).trans (run_reported hall.2 hr)

/-! ## What a good run keeps -/

/-- `sc->task_id` is the task of the call that has the lock, and of the current
request. -/
structure WakeInv (cfg : SdifConfig) (s : WakeState) : Prop where
  reachable : (sdifSystem cfg).Reachable s.sdif
  current : ∀ r, s.sdif.req = some r → s.taskId = s.submitter r
  locked : ∀ k, s.sdif.lock = some k → k < s.sdif.submitted ∧ s.taskId = s.submitter k
  woken : ∀ w ∈ s.woken, w.1 < s.sdif.submitted ∧ w.2 = s.submitter w.1

theorem WakeInv.born {r : ℕ} (h : WakeInv cfg s) (hr : s.sdif.req = some r) :
    r < s.sdif.submitted := by
  have hi := sdif_reachable_callInv h.reachable
  apply hi.born
  intro hn
  have hcur := hi.current r hr
  rw [hn] at hcur
  exact Bool.noConfusion hcur

/-- Another task's section: it starts with the lock free. -/
theorem WakeInv.lockSection {task : ℕ} (h : WakeInv cfg s) (hok : mayLock s task)
    (hs : lockSection task s = some s') : WakeInv cfg s' := by
  obtain ⟨hfree, ht⟩ := Option.ite_none_right_eq_some.mp hs
  cases ht
  refine ⟨h.reachable, fun r hr => hok r hr, ?_, h.woken⟩
  intro k hk
  have hk' : s.sdif.lock = some k := hk
  rw [hfree] at hk'
  exact (Option.some_ne_none _ hk'.symm).elim

/-- The wake-ups so far, while no request is submitted. -/
theorem WakeInv.woken_of (h : WakeInv cfg s) (hsubs : t.subs = s.sdif.subs) :
    ∀ w ∈ s.woken, w.1 < t.submitted ∧ w.2 = s.submitter w.1 := by
  intro w hw
  have hsub : t.submitted = s.sdif.submitted := congrArg List.length hsubs
  obtain ⟨hlt, htask⟩ := h.woken w hw
  exact ⟨hsub ▸ hlt, htask⟩

/-- The call that has the lock, when the lock stays as it is or is given
back. -/
theorem WakeInv.locked_of (h : WakeInv cfg s) (hlock : t.lock = s.sdif.lock ∨ t.lock = none)
    (hsubs : t.subs = s.sdif.subs) :
    ∀ k, t.lock = some k → k < t.submitted ∧ s.taskId = s.submitter k := by
  have hsub : t.submitted = s.sdif.submitted := congrArg List.length hsubs
  intro k hk
  rcases hlock with hlock | hlock
  · rw [hlock] at hk
    obtain ⟨hlt, htask⟩ := h.locked k hk
    exact ⟨hsub ▸ hlt, htask⟩
  · rw [hlock] at hk
    exact (Option.some_ne_none _ hk.symm).elim

/-- The driver moves, the current request stays or goes, and the lock stays as
it is or is given back. -/
theorem WakeInv.frame (h : WakeInv cfg s) (hr : (sdifSystem cfg).Reachable t)
    (hreq : t.req = s.sdif.req ∨ t.req = none) (hlock : t.lock = s.sdif.lock ∨ t.lock = none)
    (hsubs : t.subs = s.sdif.subs) : WakeInv cfg { s with sdif := t } := by
  refine ⟨hr, ?_, h.locked_of hlock hsubs, h.woken_of hsubs⟩
  intro r hcur
  have hcur' : t.req = some r := hcur
  rcases hreq with hreq | hreq
  · exact h.current r (hreq ▸ hcur')
  · rw [hreq] at hcur'
    exact (Option.some_ne_none _ hcur'.symm).elim

theorem WakeInv.request {task : ℕ} {cmd : MmcCommand} {bytes : List (BitVec 8)}
    (h : WakeInv cfg s) (hs : wakeStep cfg s (.request task cmd bytes) = some s') :
    WakeInv cfg s' := by
  obtain ⟨t, ht, rfl⟩ := Option.map_eq_some_iff.mp hs
  have hreach : (sdifSystem cfg).Reachable t := h.reachable.step ht
  obtain ⟨-, ht⟩ := sdifStep_iff.mp ht
  cases ht
  have hlen : (submit cfg cmd bytes s.sdif).submitted = s.sdif.submitted + 1 := by
    simp [submit, SdifState.submitted]
  have hold : ∀ k < s.sdif.submitted,
      Function.update s.submitter s.sdif.submitted task k = s.submitter k :=
    fun k hk => Function.update_of_ne (Nat.ne_of_lt hk) ..
  refine ⟨hreach, ?_, ?_, ?_⟩
  · intro r hr
    have hr' : s.sdif.req = some r := hr
    exact (h.current r hr').trans (hold r (h.born hr')).symm
  · intro k hk
    obtain ⟨hlt, htask⟩ := h.locked k hk
    exact ⟨hlen ▸ Nat.lt_succ_of_lt hlt, htask.trans (hold k hlt).symm⟩
  · intro w hw
    obtain ⟨hlt, htask⟩ := h.woken w hw
    exact ⟨hlen ▸ Nat.lt_succ_of_lt hlt, htask.trans (hold w.1 hlt).symm⟩

/-- The call takes the lock, and its task is noted. -/
theorem WakeInv.takeLock (h : WakeInv cfg s) (hr : (sdifSystem cfg).Reachable t)
    (hk : k < s.sdif.submitted) (hcur : ∀ r, s.sdif.req = some r → s.submitter k = s.submitter r)
    (hreq : t.req = s.sdif.req) (hlock : t.lock = some k) (hsubs : t.subs = s.sdif.subs) :
    WakeInv cfg { s with
      sdif := t
      taskId := s.submitter k } := by
  have hsub : t.submitted = s.sdif.submitted := congrArg List.length hsubs
  refine ⟨hr, ?_, ?_, h.woken_of hsubs⟩
  · intro r hr
    have hr' : t.req = some r := hr
    rw [hreq] at hr'
    exact hcur r hr'
  · intro j hj
    have hj' : t.lock = some j := hj
    rw [hlock, Option.some.injEq] at hj'
    subst hj'
    exact ⟨hsub ▸ hk, rfl⟩

/-- The call that makes its request the current one has the lock. -/
theorem WakeInv.setReq (h : WakeInv cfg s) (hr : (sdifSystem cfg).Reachable t)
    (hown : s.sdif.lock = some k) (hreq : t.req = some k)
    (hlock : t.lock = s.sdif.lock ∨ t.lock = none) (hsubs : t.subs = s.sdif.subs) :
    WakeInv cfg { s with sdif := t } := by
  refine ⟨hr, ?_, h.locked_of hlock hsubs, h.woken_of hsubs⟩
  intro r hr
  have hr' : t.req = some r := hr
  rw [hreq, Option.some.injEq] at hr'
  exact hr' ▸ (h.locked k hown).2

theorem WakeInv.call {ok : Bool} (h : WakeInv cfg s) (hok : wakeOk s (.call k ok))
    (hs : callLocking cfg k ok s = some s') : WakeInv cfg s' := by
  obtain ⟨t, ht, rfl⟩ := Option.map_eq_some_iff.mp hs
  have hreach : (sdifSystem cfg).Reachable t := h.reachable.step ht
  have hi := sdif_reachable_callInv h.reachable
  have hstep := callStep_spec (sdifStep_iff.mp ht).2
  cases hl : (s.sdif.pc k).locking with
  | true =>
      have hcur : t.req = s.sdif.req := by
        rcases hstep.req with hreq | ⟨hpc, -⟩
        · exact hreq
        · rw [hpc] at hl
          exact Bool.noConfusion hl
      have hlock : t.lock = some k := by
        rcases hstep.lock with ⟨hn, -⟩ | ⟨-, -, hlock⟩ | ⟨hn, -⟩
        · exact Bool.noConfusion (hl.symm.trans hn)
        · exact hlock
        · exact Bool.noConfusion (hl.symm.trans hn)
      exact h.takeLock hreach (hi.born hstep.entered) (hok hl) hcur hlock hstep.subs
  | false =>
      have hlock : t.lock = s.sdif.lock ∨ t.lock = none := by
        rcases hstep.lock with ⟨-, hlock, -⟩ | ⟨hn, -⟩ | ⟨-, hlock, -⟩
        · exact Or.inl hlock
        · exact Bool.noConfusion (hn.symm.trans hl)
        · exact Or.inr hlock
      rcases hstep.req with hreq | ⟨hpc, hreq, -⟩
      · exact h.frame hreach (Or.inl hreq) hlock hstep.subs
      · have hown : s.sdif.lock = some k := by
          apply hi.locked
          rw [hpc]
          rfl
        exact h.setReq hreach hown hreq hlock hstep.subs

theorem WakeInv.intr {reports : List SdifEvent} (h : WakeInv cfg s)
    (hs : intr cfg reports s = some s') : WakeInv cfg s' := by
  obtain ⟨hall, hs⟩ := Option.ite_none_right_eq_some.mp hs
  obtain ⟨t, ht, rfl⟩ := Option.map_eq_some_iff.mp hs
  have hrep := run_reported hall ht
  have hframe := h.frame (h.reachable.run ht) hrep.req (Or.inl hrep.lock) hrep.subs
  obtain ⟨rs, hrs, hcur⟩ := hrep.done
  refine ⟨hframe.reachable, hframe.current, hframe.locked, ?_⟩
  intro w hw
  have hw' : w ∈ s.woken ∨ w ∈ rs.map fun r => (r, s.taskId) := by
    have hdrop : t.doneReqs.drop s.sdif.doneReqs.length = rs := by
      rw [hrs, List.drop_left]
    simpa [hdrop] using hw
  rcases hw' with hw' | hw'
  · exact hframe.woken w hw'
  · obtain ⟨r, hr, rfl⟩ := List.mem_map.mp hw'
    have hr' := hcur r hr
    have hsub : t.submitted = s.sdif.submitted := congrArg List.length hrep.subs
    exact ⟨hsub ▸ h.born hr', h.current r hr'⟩

/-- The fields of the host and of the sleeping tasks play no part. -/
theorem WakeInv.host {busBusy : ℤ} {sleeping : List ℕ} {host : Option ℕ} (h : WakeInv cfg s) :
    WakeInv cfg { s with busBusy := busBusy, sleeping := sleeping, host := host } :=
  ⟨h.reachable, h.current, h.locked, h.woken⟩

theorem wakeStep_inv {e : WakeEvent} (h : WakeInv cfg s) (hok : wakeOk s e)
    (hs : wakeStep cfg s e = some s') : WakeInv cfg s' := by
  cases e with
  | request task cmd bytes => exact h.request hs
  | call k ok => exact h.call hok hs
  | intr reports => exact h.intr hs
  | expire =>
      obtain ⟨t, ht, rfl⟩ := Option.map_eq_some_iff.mp hs
      have hreach : (sdifSystem cfg).Reachable t := h.reachable.step ht
      obtain ⟨-, ht⟩ := Option.ite_none_right_eq_some.mp (sdifStep_iff.mp ht).2
      cases ht
      exact h.frame hreach (Or.inl rfl) (Or.inl rfl) rfl
  | timeout =>
      obtain ⟨t, ht, rfl⟩ := Option.map_eq_some_iff.mp hs
      have hreach : (sdifSystem cfg).Reachable t := h.reachable.step ht
      obtain ⟨-, ht⟩ := Option.ite_none_right_eq_some.mp (sdifStep_iff.mp ht).2
      cases ht
      obtain ⟨-, hl, hsub, hreq, -⟩ := timeout_spec cfg s.sdif
      exact h.frame hreach (Or.inl hreq) (Or.inl hl) hsub
  | acquireHost task =>
      obtain ⟨u, hu, rfl⟩ := Option.map_eq_some_iff.mp hs
      have hinv := h.lockSection hok hu
      split <;> exact hinv.host
  | wake i =>
      obtain ⟨task, -, hs⟩ := Option.bind_eq_some_iff.mp hs
      obtain ⟨-, hs⟩ := Option.ite_none_right_eq_some.mp hs
      split at hs <;> cases hs
      · exact h.host
      · exact h
  | releaseHost task =>
      obtain ⟨u, hu, rfl⟩ := Option.map_eq_some_iff.mp hs
      exact (h.lockSection hok hu).host
  | updateIos task powerUp useHold =>
      obtain ⟨u, hu, hs⟩ := Option.bind_eq_some_iff.mp hs
      obtain ⟨t, ht, rfl⟩ := Option.map_eq_some_iff.mp hs
      have hinv := h.lockSection hok hu
      have hreach : (sdifSystem cfg).Reachable t := hinv.reachable.step ht
      obtain ⟨-, ht⟩ := Option.ite_none_right_eq_some.mp (sdifStep_iff.mp ht).2
      cases ht
      exact hinv.frame hreach (Or.inl rfl) (Or.inl rfl) rfl
  | cardTask task => exact h.lockSection hok hs

theorem wake_reachable_inv
    (h : (((wakeSystem cfg).restrict (serialised cfg)).restrict wakeOk).Reachable s) :
    WakeInv cfg s := by
  apply h.restrict_invariant
  · rintro s ⟨mem, need, rfl⟩
    exact ⟨.init ⟨mem, need, rfl⟩, fun _ hr => (Option.some_ne_none _ hr.symm).elim,
      fun _ hk => (Option.some_ne_none _ hk.symm).elim, fun _ hw => absurd hw List.not_mem_nil⟩
  · intro s e s' _ hi hok hs
    exact wakeStep_inv hi hok (System.restrict_step.mp hs).2

/-- **The right task wakes up.** In every run in which, while a request is the
current one, only the task that submitted it takes `SDIF_LOCK`, each interrupt
that completes a request wakes the task that submitted it. -/
theorem right_task_woken
    (h : (((wakeSystem cfg).restrict (serialised cfg)).restrict wakeOk).Reachable s) :
    RightTaskWoken s :=
  fun w hw => ((wake_reachable_inv h).woken w hw).2

/-- Task 1 has the host and its request is started, up to `SDIF_UNLOCK`. -/
def startedRun (v : Version) : List WakeEvent :=
  .acquireHost 1 :: .request 1 sendStatus [] ::
    List.replicate (if v = .v1 then 15 else 16) (.call 0 true)

/-- The interrupt that ends the command `sendStatus`. -/
def statusIntr : WakeEvent := .intr [.cmdDone ⟨0x900#32, 0#32, 0#32, 0#32⟩]

theorem right_task_woken_alone :
    ∃ s, (((wakeSystem (sampleSdif .v1)).restrict (serialised (sampleSdif .v1))).restrict
        wakeOk).run (wakeAttached (fun _ => 0#8) false) (startedRun .v1 ++ [statusIntr]) =
          some s ∧ s.woken = [(0, 1)] ∧ RightTaskWoken s := by
  have hrun : ((((wakeSystem (sampleSdif .v1)).restrict (serialised (sampleSdif .v1))).restrict
      wakeOk).run (wakeAttached (fun _ => 0#8) false) (startedRun .v1 ++ [statusIntr])).map
        (fun s => s.woken) = some [(0, 1)] := by
    decide
  obtain ⟨s, hs, hq⟩ := Option.map_eq_some_iff.mp hrun
  exact ⟨s, hs, hq, right_task_woken (System.reachable_of_run _ ⟨_, _, rfl⟩ hs)⟩

/-- Task 2 calls `acquire_host` before the interrupt, and is woken in the place
of task 1. -/
theorem wrong_task_woken :
    (¬ ∀ s, ((wakeSystem (sampleSdif .v1)).restrict (serialised (sampleSdif .v1))).Reachable s →
      RightTaskWoken s) ∧
    (¬ ∀ s, ((wakeSystem (sampleSdif .v2)).restrict (serialised (sampleSdif .v2))).Reachable s →
      RightTaskWoken s) := by
  have hrun : ∀ v es, (((wakeSystem (sampleSdif v)).restrict (serialised (sampleSdif v))).run
      (wakeAttached (fun _ => 0#8) false) es).map (fun s => decide (RightTaskWoken s)) =
        some false →
      ¬ ∀ s, ((wakeSystem (sampleSdif v)).restrict (serialised (sampleSdif v))).Reachable s →
        RightTaskWoken s := by
    intro v es hes h
    obtain ⟨s, hs, hq⟩ := Option.map_eq_some_iff.mp hes
    exact decide_eq_false_iff_not.mp hq (h s (System.reachable_of_run _ ⟨_, _, rfl⟩ hs))
  constructor
  · apply hrun .v1 (startedRun .v1 ++ [.acquireHost 2, statusIntr])
    decide
  · apply hrun .v2 (startedRun .v2 ++ [.acquireHost 2, statusIntr])
    decide

end Phytium.Sdif
