import PhytiumSdk.Sdif.RequestSteps

/-!
# Reported errors

`sdif_error_occurred` leaves nothing behind, and `sdif_finish_command` stores
`MMC_ERR_NONE`. So a request with an error on record fails only if the timeout
completes it: a run reports every error just when no `CMD_DONE` or `DATA_DONE`
completes a request after its error.
-/

namespace Phytium.Sdif

open Lib

variable {cfg : SdifConfig} {s s' : SdifState} {k : ℕ}

/-- No callback finds `MMC_ERR_NONE` on a request an error was reported for. -/
def ErrorsReported (s : SdifState) : Prop :=
  ∀ d ∈ s.doneLog, d.errSeen = true → d.error ≠ .none

/-- The event completes no request an error was reported for. -/
def errorOk (cfg : SdifConfig) (s : SdifState) (e : SdifEvent) : Prop :=
  (completes cfg s e).all (fun r => !s.errSeen r) = true

instance (s : SdifState) (e : SdifEvent) : Decidable (errorOk cfg s e) :=
  inferInstanceAs (Decidable (_ = true))

instance (s : SdifState) : Decidable (ErrorsReported s) :=
  inferInstanceAs (Decidable (∀ d ∈ s.doneLog, d.errSeen = true → d.error ≠ .none))

theorem errorOk.errSeen {e : SdifEvent} {r : ℕ} (h : errorOk cfg s e)
    (hr : completes cfg s e = some r) : s.errSeen r = false := by
  rw [errorOk, hr, Option.all_some, Bool.not_eq_true'] at h
  exact h

/-! ## What a good run keeps -/

/-- Errors are reported, and only for requests that have been current. -/
structure ErrorInv (s : SdifState) : Prop where
  reported : ErrorsReported s
  fresh : ∀ k, (s.pc k).fresh = true → s.errSeen k = false

theorem ErrorInv.frame (h : ErrorInv s) (hlog : s'.doneLog = s.doneLog)
    (herr : s'.errSeen = s.errSeen) (hfresh : ∀ k, (s'.pc k).fresh = true → (s.pc k).fresh = true) :
    ErrorInv s' := by
  constructor
  · rw [ErrorsReported, hlog]
    exact h.reported
  · intro k hk
    rw [herr]
    exact h.fresh k (hfresh k hk)

/-- One more callback, which reports an error or has none to report. -/
theorem ErrorInv.snoc {d : DoneCall} (h : ErrorInv s) (hlog : s'.doneLog = s.doneLog ++ [d])
    (hd : d.errSeen = true → d.error ≠ .none) (herr : s'.errSeen = s.errSeen)
    (hfresh : ∀ k, (s'.pc k).fresh = true → (s.pc k).fresh = true) : ErrorInv s' := by
  constructor
  · intro d' hd'
    rw [hlog, List.mem_append, List.mem_singleton] at hd'
    rcases hd' with hd' | rfl
    · exact h.reported d' hd'
    · exact hd
  · intro k hk
    rw [herr]
    exact h.fresh k (hfresh k hk)

theorem CallStep.fresh_le {v : Version} {ok : Bool} (hs : CallStep v k ok s s') :
    ∀ j, (s'.pc j).fresh = true → (s.pc j).fresh = true := by
  intro j hj
  by_cases hjk : j = k
  · subst hjk
    exact hs.fresh_of hj
  · rwa [hs.others j hjk] at hj

theorem ErrorInv.callStep {v : Version} {ok : Bool} (h : ErrorInv s)
    (hs : CallStep v k ok s s') :
    ErrorInv s' := by
  rcases hs.doneLog with hlog | ⟨hf, -, -, error, resp, buffer, hlog⟩
  · exact h.frame hlog hs.errSeen hs.fresh_le
  · -- a command that `pre_request` skips was never the current one
    have hno : s.errSeen k = false := h.fresh k hf
    refine h.snoc hlog ?_ hs.errSeen hs.fresh_le
    simp [hno]

theorem ErrorInv.doneEvent {e : SdifEvent} (h : ErrorInv s)
    (hd : DoneEvent s s' (completes cfg s e)) (hok : errorOk cfg s e) : ErrorInv s' := by
  have hfresh : ∀ k, (s'.pc k).fresh = true → (s.pc k).fresh = true := by
    rw [hd.pc]
    intro _ hk
    exact hk
  cases hc : completes cfg s e with
  | none => exact h.frame (hd.quiet hc).2.1 hd.errSeen hfresh
  | some r =>
      obtain ⟨-, -, resp, buffer, hlog⟩ := hd.done r hc
      refine h.snoc hlog ?_ hd.errSeen hfresh
      simp [hok.errSeen hc]

theorem ErrorInv.errorOccurred (h : ErrorInv s) (hi : CallInv cfg s) :
    ErrorInv (errorOccurred cfg s) := by
  obtain ⟨hp, -, -, -, -, hlog, -, herr⟩ := errorOccurred_spec cfg s
  constructor
  · rw [ErrorsReported, hlog]
    exact h.reported
  · intro k hk
    rw [hp] at hk
    by_contra hn
    rw [Bool.not_eq_false] at hn
    rcases herr k hn with hseen | hcur
    · rw [h.fresh k hk] at hseen
      exact Bool.noConfusion hseen
    · rw [hi.current k hcur] at hk
      exact Bool.noConfusion hk

theorem eventStep_errorInv {e : SdifEvent} (h : ErrorInv s) (hi : CallInv cfg s)
    (hok : errorOk cfg s e) (hs : eventStep cfg s e = some s') : ErrorInv s' := by
  cases e with
  | submit cmd bytes =>
      cases hs
      exact h.frame rfl rfl hi.submit_fresh
  | call k ok => exact h.callStep (callStep_spec hs)
  | cmdDone resp =>
      cases hs
      exact h.doneEvent (commandDone_spec resp s) hok
  | dataDone bytes =>
      cases hs
      exact h.doneEvent (dataDone_spec bytes s) hok
  | errOccure =>
      cases hs
      exact h.errorOccurred hi
  | expire =>
      obtain ⟨-, ht⟩ := Option.ite_none_right_eq_some.mp hs
      cases ht
      exact h.frame rfl rfl fun _ hk => hk
  | timeout =>
      obtain ⟨-, ht⟩ := Option.ite_none_right_eq_some.mp hs
      cases ht
      obtain ⟨hp, -, -, -, herr, -, hlog⟩ := timeout_spec cfg s
      have hfresh : ∀ k, ((timeout cfg s).pc k).fresh = true → (s.pc k).fresh = true := by
        rw [hp]
        intro _ hk
        exact hk
      rcases hlog with ⟨hlog, -⟩ | ⟨r, resp, buffer, -, -, hlog⟩
      · exact h.frame hlog herr hfresh
      · exact h.snoc hlog (fun _ => MmcErr.noConfusion) herr hfresh
  | updateIos powerUp useHold =>
      obtain ⟨-, ht⟩ := Option.ite_none_right_eq_some.mp hs
      cases ht
      exact h.frame rfl rfl fun _ hk => hk

theorem attached_errorInv (mem : Mem) (need : Bool) : ErrorInv (attached mem need) :=
  ⟨fun _ hd => absurd hd (List.not_mem_nil), fun _ _ => rfl⟩

theorem error_reachable_inv (h : ((sdifSystem cfg).restrict (errorOk cfg)).Reachable s) :
    ErrorInv s := by
  apply h.restrict_invariant
  · rintro s ⟨mem, need, rfl⟩
    exact attached_errorInv mem need
  · intro s e s' hr hi hok (hs : sdifStep cfg s e = some s')
    exact eventStep_errorInv hi (sdif_reachable_callInv hr) hok (sdifStep_iff.mp hs).2

/-! ## What a bad event does -/

theorem DoneEvent.unreported {c : Option ℕ} {r : ℕ} (hd : DoneEvent s s' c) (hc : c = some r)
    (herr : s.errSeen r = true) : ¬ ErrorsReported s' := by
  obtain ⟨-, -, resp, buffer, hlog⟩ := hd.done r hc
  intro hn
  refine hn ⟨r, .none, resp, buffer, s.errSeen r⟩ ?_ herr rfl
  rw [hlog]
  exact List.mem_append_right _ (List.mem_singleton_self _)

theorem unreported_of_not_ok {e : SdifEvent} (hok : ¬ errorOk cfg s e)
    (hs : eventStep cfg s e = some s') : ¬ ErrorsReported s' := by
  cases hc : completes cfg s e with
  | none =>
      rw [errorOk, hc] at hok
      exact absurd rfl hok
  | some r =>
      have herr : s.errSeen r = true := by
        rw [errorOk, hc, Option.all_some, Bool.not_eq_true', Bool.not_eq_false] at hok
        exact hok
      cases e with
      | cmdDone resp =>
          cases hs
          exact (commandDone_spec resp s).unreported hc herr
      | dataDone bytes =>
          cases hs
          exact (dataDone_spec bytes s).unreported hc herr
      | _ => cases hc

/-- **Errors are reported.** From the moment the driver is attached, a run
reports every error if and only if none of its events completes a request that
an error was reported for. -/
theorem errors_reported_iff (cfg : SdifConfig) (mem : Mem) (need : Bool) (es : List SdifEvent) :
    (sdifSystem cfg).Always (attached mem need) es ErrorsReported ↔
      (sdifSystem cfg).Meets (errorOk cfg) (attached mem need) es := by
  have hinit : (sdifSystem cfg).init (attached mem need) := ⟨mem, need, rfl⟩
  apply System.always_iff_meets hinit
  · intro s hs
    exact (error_reachable_inv hs).reported
  · intro s e s' _ hok hs
    exact unreported_of_not_ok hok (sdifStep_iff.mp hs).2

/-- `SEND_STATUS`, which has no data. -/
def sendStatus : MmcCommand :=
  ⟨13#32, 0x10000#32, true, false, true, none, ⟨0#32, 0#32, 0#32, 0#32⟩, .none⟩

/-- The command is started, its response has a bad checksum, and the controller
reports the error and the end of the command. -/
theorem error_lost_after_command_done :
    (¬ ∀ s, (sdifSystem (sampleSdif .v1)).Reachable s → ErrorsReported s) ∧
    (¬ ∀ s, (sdifSystem (sampleSdif .v2)).Reachable s → ErrorsReported s) := by
  have hrun : ∀ v es, ((sdifSystem (sampleSdif v)).run (attached (fun _ => 0#8) false) es).map
      (fun s => decide (ErrorsReported s)) = some false →
      ¬ ∀ s, (sdifSystem (sampleSdif v)).Reachable s → ErrorsReported s := by
    intro v es hes h
    obtain ⟨s, hs, hq⟩ := Option.map_eq_some_iff.mp hes
    exact decide_eq_false_iff_not.mp hq (h s (System.reachable_of_run _ ⟨_, _, rfl⟩ hs))
  constructor
  · apply hrun .v1
      (.submit sendStatus [] :: calls 0 13 ++ [.errOccure, .cmdDone ⟨0x900#32, 0#32, 0#32, 0#32⟩])
    decide
  · apply hrun .v2
      (.submit sendStatus [] :: calls 0 14 ++ [.errOccure, .cmdDone ⟨0x900#32, 0#32, 0#32, 0#32⟩])
    decide

end Phytium.Sdif
