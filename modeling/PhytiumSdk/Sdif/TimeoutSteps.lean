import PhytiumSdk.Lib.Simulation
import PhytiumSdk.Sdif.RequestSteps

/-!
# The timeout handler, access by access

`phytium_sdif_timeout` runs with the lock, and the interrupt handlers do not
take it: an event may arrive between any two accesses of the handler to a field
that `sdif_finish_command` writes. Here the handler is cut at these accesses, as
the request calls are; meanwhile a call that has to wait for the lock stands
still. Where no event comes in between, its steps amount to `timeout`
(`timeout_run`), so every run of the driver with the handler in one piece is a
run here (`cut_reachable`).
-/

namespace Phytium.Sdif

open Lib

variable (cfg : SdifConfig)

/-- Where `phytium_sdif_timeout` stands: before the statement given. -/
inductive TimeoutPc where
  /-- it has not been called -/
  | idle
  /-- `req = sc->req`, behind the test of `sc->curcmd` -/
  | readReq
  /-- `sdif_dma_done` and `sdif_dma_stop` -/
  | dmaStop (r : ℕ)
  /-- `FSdifRestart`, `FSdifMsgHostResetHW` -/
  | restart (r : ℕ)
  /-- `req->cmd->error = MMC_ERR_TIMEOUT` -/
  | setError (r : ℕ)
  /-- `(*req->done)(req)` -/
  | done (r : ℕ)
deriving DecidableEq, Repr

/-- The request the handler has read. -/
def TimeoutPc.req : TimeoutPc → Option ℕ
  | .idle => none
  | .readReq => none
  | .dmaStop r => some r
  | .restart r => some r
  | .setError r => some r
  | .done r => some r

/-- The handler has read `sc->req` and not yet reset the controller. -/
def TimeoutPc.beforeReset : TimeoutPc → Bool
  | .dmaStop _ => true
  | .restart _ => true
  | _ => false

/-- The handler has reset the controller. -/
def TimeoutPc.afterReset : TimeoutPc → Bool
  | .setError _ => true
  | .done _ => true
  | _ => false

/-- The driver, and where its timeout handler stands. -/
structure CutState where
  sdif : SdifState
  handler : TimeoutPc

/-- One step of `phytium_sdif_timeout`; the first is taken when the callout has
expired and the lock is free. -/
def timeoutStep (s : CutState) : Option CutState :=
  match s.handler with
  | .idle =>
      if s.sdif.callout = .expired ∧ s.sdif.lock = none then
        some
          { sdif := { s.sdif with callout := .idle }
            handler := if s.sdif.curcmd.isSome then .readReq else .idle }
      else none
  | .readReq =>
      match s.sdif.req with
      | none => some ⟨s.sdif.panic, .idle⟩
      | some r => some { s with handler := .dmaStop r }
  | .dmaStop r =>
      if cfg.usesDma && !dmaDoneOk cfg s.sdif (some r) then some ⟨s.sdif.panic, .idle⟩
      else some { s with handler := .restart r }
  | .restart r => some ⟨{ s.sdif with hc := s.sdif.hc.restart }, .setError r⟩
  | .setError r => some ⟨s.sdif.setErr r .timeout, .done r⟩
  | .done r => some ⟨s.sdif.callDone r, .idle⟩

/-- The event is held up while the handler has the lock. -/
def SdifEvent.waits (s : SdifState) : SdifEvent → Bool
  | .call k _ => (s.pc k).locking
  | .updateIos _ _ => true
  | _ => false

/-- One event, where `timeout` is one step of the handler. -/
def cutStep (s : CutState) (e : SdifEvent) : Option CutState :=
  if e = .timeout then if s.sdif.panicked then none else timeoutStep cfg s
  else if s.handler ≠ .idle ∧ e.waits s.sdif = true then none
  else (sdifStep cfg s.sdif e).map fun t => { s with sdif := t }

def cutSystem : System CutState SdifEvent where
  init := fun s => ∃ mem cardNeedInit, s = ⟨attached mem cardNeedInit, .idle⟩
  step := cutStep cfg

variable {cfg} {s s' : SdifState} {c c' : CutState}

theorem cutStep_timeout (h : cutStep cfg c .timeout = some c') :
    c.sdif.panicked = false ∧ timeoutStep cfg c = some c' := by
  unfold cutStep at h
  rw [if_pos rfl] at h
  split at h
  · cases h
  · rename_i hrun
    exact ⟨eq_false_of_ne_true hrun, h⟩

/-- An event other than the handler's is one of the driver's. -/
theorem cutStep_event {e : SdifEvent} (he : e ≠ .timeout) (h : cutStep cfg c e = some c') :
    (c.handler = .idle ∨ e.waits c.sdif = false) ∧ c'.handler = c.handler ∧
    sdifStep cfg c.sdif e = some c'.sdif := by
  unfold cutStep at h
  rw [if_neg he] at h
  split at h
  · cases h
  · rename_i hfree
    obtain ⟨t, ht, rfl⟩ := Option.map_eq_some_iff.mp h
    refine ⟨?_, rfl, ht⟩
    by_cases hidle : c.handler = .idle
    · exact Or.inl hidle
    · exact Or.inr (eq_false_of_ne_true fun hw => hfree ⟨hidle, hw⟩)

/-! ## The handler in one piece -/

/-- The steps the handler takes if nothing comes in between. -/
def timeoutSteps (cfg : SdifConfig) (s : SdifState) : ℕ :=
  match s.curcmd, s.req with
  | none, _ => 1
  | some _, none => 2
  | some _, some r => if cfg.usesDma && !dmaDoneOk cfg s (some r) then 3 else 6

/-- **The handler undisturbed.** -/
theorem timeout_run (hrun : s.panicked = false) (hexp : s.callout = .expired)
    (hfree : s.lock = none) :
    (cutSystem cfg).run ⟨s, .idle⟩ (List.replicate (timeoutSteps cfg s) .timeout) =
      some ⟨timeout cfg s, .idle⟩ := by
  have hstep : ∀ {u v : CutState} {n : ℕ}, u.sdif.panicked = false → timeoutStep cfg u = some v →
      (cutSystem cfg).run u (List.replicate (n + 1) .timeout) =
        (cutSystem cfg).run v (List.replicate n .timeout) := by
    intro u v n hu huv
    have hcut : cutStep cfg u .timeout = some v := by
      rw [cutStep, if_pos rfl, hu]
      exact huv
    rw [List.replicate_succ, System.run_cons]
    exact congrArg (Option.bind · _) hcut
  have hfirst : timeoutStep cfg ⟨s, .idle⟩ = some
      { sdif := { s with callout := .idle }
        handler := if s.curcmd.isSome then .readReq else .idle } := if_pos ⟨hexp, hfree⟩
  rcases Option.eq_none_or_eq_some s.curcmd with hcur | ⟨q, hcur⟩
  · have hn : timeoutSteps cfg s = 1 := by simp only [timeoutSteps, hcur]
    have ht : timeout cfg s = { s with callout := .idle } := by simp only [timeout, hcur]
    rw [if_neg (by simp [hcur])] at hfirst
    rw [hn, ht]
    exact hstep hrun hfirst
  rw [if_pos (by simp [hcur])] at hfirst
  rcases Option.eq_none_or_eq_some s.req with hreq | ⟨r, hreq⟩
  · have hn : timeoutSteps cfg s = 2 := by simp only [timeoutSteps, hcur, hreq]
    have ht : timeout cfg s = { s with callout := .idle }.panic := by
      simp only [timeout, hcur, hreq]
    have hread : timeoutStep cfg ⟨{ s with callout := .idle }, .readReq⟩ =
        some ⟨{ s with callout := .idle }.panic, .idle⟩ := by
      simp only [timeoutStep, hreq]
    rw [hn, ht]
    exact (hstep hrun hfirst).trans (hstep hrun hread)
  have hread : timeoutStep cfg ⟨{ s with callout := .idle }, .readReq⟩ =
      some ⟨{ s with callout := .idle }, .dmaStop r⟩ := by
    simp only [timeoutStep, hreq]
  have htested (n : ℕ) :
      (cutSystem cfg).run ⟨s, .idle⟩ (List.replicate (n + 2) .timeout) =
        (cutSystem cfg).run ⟨{ s with callout := .idle }, .dmaStop r⟩
          (List.replicate n .timeout) :=
    (hstep hrun hfirst).trans (hstep hrun hread)
  by_cases hdma : (cfg.usesDma && !dmaDoneOk cfg s (some r)) = true
  · have hn : timeoutSteps cfg s = 3 := by simp only [timeoutSteps, hcur, hreq, if_pos hdma]
    have ht : timeout cfg s = { s with callout := .idle }.panic := by
      simp only [timeout, hcur, hreq, if_pos hdma]
    have hstop : timeoutStep cfg ⟨{ s with callout := .idle }, .dmaStop r⟩ =
        some ⟨{ s with callout := .idle }.panic, .idle⟩ := if_pos hdma
    rw [hn, ht]
    exact (htested 1).trans (hstep hrun hstop)
  · have hn : timeoutSteps cfg s = 6 := by simp only [timeoutSteps, hcur, hreq, if_neg hdma]
    have ht : timeout cfg s =
        ({ s with callout := .idle, hc := s.hc.restart }.setErr r .timeout).callDone r := by
      simp only [timeout, hcur, hreq, if_neg hdma]
    have hstop : timeoutStep cfg ⟨{ s with callout := .idle }, .dmaStop r⟩ =
        some ⟨{ s with callout := .idle }, .restart r⟩ := if_neg hdma
    rw [hn, ht]
    refine (htested 4).trans ((hstep hrun hstop).trans ?_)
    exact (hstep hrun rfl).trans ((hstep hrun rfl).trans (hstep hrun rfl))

/-- What an event of the driver is here. -/
def cutEvents (cfg : SdifConfig) (s : SdifState) (e : SdifEvent) : List SdifEvent :=
  if e = .timeout then List.replicate (timeoutSteps cfg s) .timeout else [e]

theorem cut_simulates : System.Simulates (sdifSystem cfg) (cutSystem cfg) (cutEvents cfg)
    fun s c => c = ⟨s, .idle⟩ := by
  constructor
  · rintro s ⟨mem, need, rfl⟩
    exact ⟨_, ⟨mem, need, rfl⟩, rfl⟩
  · rintro s e s' _ rfl (hs : sdifStep cfg s e = some s')
    refine ⟨⟨s', .idle⟩, ?_, rfl⟩
    unfold cutEvents
    split
    · rename_i he
      subst he
      obtain ⟨hrun, hs⟩ := sdifStep_iff.mp hs
      obtain ⟨⟨hexp, hfree⟩, ht⟩ := Option.ite_none_right_eq_some.mp hs
      cases ht
      exact timeout_run hrun hexp hfree
    · rename_i he
      have hcut : cutStep cfg ⟨s, .idle⟩ e = some ⟨s', .idle⟩ := by
        rw [cutStep, if_neg he, if_neg fun hw => hw.1 rfl, hs]
        rfl
      rw [System.run_cons]
      exact congrArg (Option.bind · _) hcut

/-- **Refinement.** What the driver reaches with its handler in one piece is
reached here. -/
theorem cut_reachable (h : (sdifSystem cfg).Reachable s) :
    (cutSystem cfg).Reachable ⟨s, .idle⟩ := by
  obtain ⟨_, hreach, rfl⟩ := cut_simulates.reachable h
  exact hreach

end Phytium.Sdif
