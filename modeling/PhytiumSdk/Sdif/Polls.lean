import PhytiumSdk.Lib.Potential
import PhytiumSdk.Lib.Simulation
import PhytiumSdk.Sdif.RequestProgress

/-!
# SDIF requests: the polling loops, round by round

`sdif_polling_card_busy` and `sdif_polling_request_done` are one step of a call
in `sdifSystem`, with an outcome that is left open. Here each round of them is a
step, with its own reading of the card or of `sc->req_pending`, and everything
else may happen between two rounds. The loops end in just the ways the one step
does (`poll_reachable_iff`), and no call goes on for ever: in every run the
rounds and all other steps are bounded by the number of requests
(`own_rounds_le`).
-/

namespace Phytium.Sdif

open Lib

/-! ## The loops -/

/-- `SDIF_TIME_OUT`, in microseconds. -/
def sdifTimeOut : Version → ℕ
  | .v1 => 6000000
  | .v2 => 25000000

/-- The driver, and for each call the `wait_counter` of the loop it is in; the
counter is 0 outside. -/
structure PollState where
  sdif : SdifState
  waitCounter : ℕ → ℕ

variable (cfg : SdifConfig)

/-- The call makes a step of the driver; the next loop starts at 0. -/
def PollState.leave (k : ℕ) (ok : Bool) (s : PollState) : Option PollState :=
  (sdifStep cfg s.sdif (.call k ok)).map fun t => ⟨t, Function.update s.waitCounter k 0⟩

/-- The call waits, and counts it. -/
def PollState.wait (k d : ℕ) (s : PollState) : PollState :=
  { s with waitCounter := Function.update s.waitCounter k (s.waitCounter k + d) }

/-- One round of a loop that waits for `more` to be false, `d` microseconds at a
time. -/
def pollRound (k d : ℕ) (more : Bool) (s : PollState) : Option PollState :=
  if more then
    if sdifTimeOut cfg.version < s.waitCounter k then s.leave cfg k false
    else some (s.wait k d)
  else s.leave cfg k true

/-- `sdif_polling_card_busy`. -/
def cardBusyRound (k : ℕ) (busy : Bool) (s : PollState) : Option PollState :=
  pollRound cfg k 100 busy s

/-- `sdif_polling_request_done`. -/
def requestDoneRound (k : ℕ) (s : PollState) : Option PollState :=
  pollRound cfg k 1 s.sdif.reqPending s

/-- One step of the `k`-th call. Where it polls the card, `ok` tells that the card
is not busy. -/
def pollCall (k : ℕ) (ok : Bool) (s : PollState) : Option PollState :=
  match s.sdif.pc k with
  | .busy => cardBusyRound cfg k (!ok) s
  | .blockCount .busy => cardBusyRound cfg k (!ok) s
  | .blockCount .poll => requestDoneRound cfg k s
  | _ => s.leave cfg k ok

def pollStep (s : PollState) (e : SdifEvent) : Option PollState :=
  if s.sdif.panicked then none
  else
    match e with
    | .call k ok => pollCall cfg k ok s
    | e => (sdifStep cfg s.sdif e).map fun t => { s with sdif := t }

def pollSystem : System PollState SdifEvent where
  init := fun s => ∃ mem cardNeedInit, s = ⟨attached mem cardNeedInit, fun _ => 0⟩
  step := pollStep cfg

variable {cfg} {s s' : SdifState} {u u' : PollState} {k : ℕ}

/-- What a loop waits each time, and for what. -/
def polls (s : SdifState) (ok : Bool) : CallPc → Option (ℕ × Bool)
  | .busy => some (100, !ok)
  | .blockCount .busy => some (100, !ok)
  | .blockCount .poll => some (1, s.reqPending)
  | _ => none

theorem pollCall_eq (cfg : SdifConfig) (k : ℕ) (ok : Bool) (u : PollState) :
    pollCall cfg k ok u =
      match polls u.sdif ok (u.sdif.pc k) with
      | some (d, more) => pollRound cfg k d more u
      | none => u.leave cfg k ok := by
  unfold pollCall polls
  split <;> rfl

/-- A loop waits on in a round, or the call makes a step of the driver. -/
theorem pollRound_cases {d : ℕ} {more : Bool} (h : pollRound cfg k d more u = some u') :
    u.waitCounter k ≤ sdifTimeOut cfg.version ∧ u' = u.wait k d ∨
    ∃ ok, u.leave cfg k ok = some u' := by
  unfold pollRound at h
  split at h
  · split at h
    · exact Or.inr ⟨_, h⟩
    · rename_i hle
      cases h
      exact Or.inl ⟨Nat.le_of_not_lt hle, rfl⟩
  · exact Or.inr ⟨_, h⟩

theorem pollCall_cases {ok : Bool} (h : pollCall cfg k ok u = some u') :
    (∃ d more, polls u.sdif ok (u.sdif.pc k) = some (d, more) ∧
      u.waitCounter k ≤ sdifTimeOut cfg.version ∧ u' = u.wait k d) ∨
    ∃ ok', u.leave cfg k ok' = some u' := by
  rw [pollCall_eq] at h
  split at h
  · rename_i d more hpolls
    rcases pollRound_cases h with ⟨hle, hwait⟩ | hleave
    · exact Or.inl ⟨d, more, hpolls, hle, hwait⟩
    · exact Or.inr hleave
  · exact Or.inr ⟨ok, h⟩

theorem leave_iff {ok : Bool} : u.leave cfg k ok = some u' ↔
    sdifStep cfg u.sdif (.call k ok) = some u'.sdif ∧
      u'.waitCounter = Function.update u.waitCounter k 0 := by
  unfold PollState.leave
  rw [Option.map_eq_some_iff]
  constructor
  · rintro ⟨t, ht, rfl⟩
    exact ⟨ht, rfl⟩
  · rintro ⟨ht, hc⟩
    exact ⟨u'.sdif, ht, by rw [← hc]⟩

/-- An event that is not a call's is one of the driver's. -/
theorem pollStep_event {e : SdifEvent} (he : ∀ k ok, e ≠ .call k ok)
    (h : pollStep cfg u e = some u') :
    sdifStep cfg u.sdif e = some u'.sdif ∧ u'.waitCounter = u.waitCounter := by
  unfold pollStep at h
  split at h
  · cases h
  · split at h
    · exact absurd rfl (he _ _)
    · obtain ⟨t, ht, rfl⟩ := Option.map_eq_some_iff.mp h
      exact ⟨ht, rfl⟩

theorem pollStep_call {ok : Bool} :
    pollStep cfg u (.call k ok) = some u' ↔
      u.sdif.panicked = false ∧ pollCall cfg k ok u = some u' := by
  unfold pollStep
  split <;> rename_i hrun
  · simp [hrun]
  · simp [eq_false_of_ne_true hrun]

/-! ## The loops as one step -/

/-- To the driver with its loops in one piece, a step is one of its own or
nothing. -/
theorem pollStep_sdif {e : SdifEvent} (h : pollStep cfg u e = some u') :
    u'.sdif = u.sdif ∨ ∃ e', sdifStep cfg u.sdif e' = some u'.sdif := by
  by_cases he : ∃ k ok, e = .call k ok
  · obtain ⟨k, ok, rfl⟩ := he
    rcases pollCall_cases (pollStep_call.mp h).2 with ⟨_, _, -, -, rfl⟩ | ⟨ok', hleave⟩
    · exact Or.inl rfl
    · exact Or.inr ⟨_, (leave_iff.mp hleave).1⟩
  · exact Or.inr ⟨e, (pollStep_event (fun k ok hcall => he ⟨k, ok, hcall⟩) h).1⟩

theorem poll_reachable_sdif (h : (pollSystem cfg).Reachable u) :
    (sdifSystem cfg).Reachable u.sdif := by
  induction h with
  | init hi =>
      obtain ⟨mem, need, rfl⟩ := hi
      exact .init ⟨mem, need, rfl⟩
  | step _ hs ih =>
      rcases pollStep_sdif hs with heq | ⟨e', he⟩
      · rw [heq]
        exact ih
      · exact ih.step he

/-- The `k`-th call has waited `c` microseconds, the others are in no loop. -/
def waiting (s : SdifState) (k c : ℕ) : PollState := ⟨s, Function.update (fun _ => 0) k c⟩

theorem waiting_zero (s : SdifState) (k : ℕ) : waiting s k 0 = ⟨s, fun _ => 0⟩ := by
  rw [waiting, Function.update_eq_self]

theorem waiting_counter (s : SdifState) (k c : ℕ) : (waiting s k c).waitCounter k = c := by
  simp [waiting]

theorem waiting_wait (s : SdifState) (k c d : ℕ) :
    (waiting s k c).wait k d = waiting s k (c + d) := by
  rw [PollState.wait, waiting_counter, waiting, waiting, Function.update_idem]

theorem waiting_leave {ok : Bool} (h : sdifStep cfg s (.call k ok) = some s') (c : ℕ) :
    (waiting s k c).leave cfg k ok = some ⟨s', fun _ => 0⟩ := by
  rw [leave_iff]
  refine ⟨h, ?_⟩
  rw [waiting, Function.update_idem, Function.update_eq_self]

/-- **A loop gives up** when it has waited for longer than `SDIF_TIME_OUT`, in the
round that is the last of `n + 2`. -/
theorem waiting_run {d n : ℕ} {ok : Bool} (hpolls : polls s ok (s.pc k) = some (d, true))
    (h : sdifStep cfg s (.call k false) = some s') (hle : d * n ≤ sdifTimeOut cfg.version)
    (hlt : sdifTimeOut cfg.version < d * (n + 1)) :
    (pollSystem cfg).run ⟨s, fun _ => 0⟩ (List.replicate (n + 2) (.call k ok)) =
      some ⟨s', fun _ => 0⟩ := by
  have hround : ∀ {c v}, pollRound cfg k d true (waiting s k c) = some v →
      (pollSystem cfg).step (waiting s k c) (.call k ok) = some v := by
    intro c v hv
    refine pollStep_call.mpr ⟨(sdifStep_iff.mp h).1, ?_⟩
    rw [pollCall_eq]
    change (match polls s ok (s.pc k) with | some (d, more) => _ | none => _) = _
    rw [hpolls]
    exact hv
  have hrun : ∀ m ≤ n + 1, (pollSystem cfg).run ⟨s, fun _ => 0⟩
      (List.replicate m (.call k ok)) = some (waiting s k (d * m)) := by
    intro m
    induction m with
    | zero =>
        intro _
        rw [Nat.mul_zero, waiting_zero]
        rfl
    | succ m ih =>
        intro hm
        have hc : d * m ≤ sdifTimeOut cfg.version :=
          (Nat.mul_le_mul_left d (Nat.le_of_succ_le_succ hm)).trans hle
        have hwait : pollRound cfg k d true (waiting s k (d * m)) =
            some (waiting s k (d * (m + 1))) := by
          rw [pollRound, if_pos rfl, waiting_counter, if_neg (Nat.not_lt.mpr hc), waiting_wait,
            Nat.mul_succ]
        rw [List.replicate_succ', System.run_append, ih (Nat.le_of_succ_le hm), Option.bind_some,
          System.run_cons, hround hwait]
        rfl
  have hlast : pollRound cfg k d true (waiting s k (d * (n + 1))) = some ⟨s', fun _ => 0⟩ := by
    rw [pollRound, if_pos rfl, waiting_counter, if_pos hlt, waiting_leave h]
  rw [List.replicate_succ', System.run_append, hrun _ le_rfl, Option.bind_some, System.run_cons,
    hround hlast]
  rfl

/-- A loop is left with the outcome its last round has found. -/
theorem polls_outcome {d : ℕ} {more ok : Bool} (h : sdifStep cfg s (.call k ok) = some s')
    (hpolls : polls s ok (s.pc k) = some (d, more)) : more = !ok ∧ 0 < d := by
  have hcall : callStep cfg k ok s = some s' := (sdifStep_iff.mp h).2
  unfold polls at hpolls
  split at hpolls <;> rename_i hpc
  · cases hpolls
    exact ⟨rfl, by decide⟩
  · cases hpolls
    exact ⟨rfl, by decide⟩
  · cases hpolls
    rw [callStep, hpc] at hcall
    obtain ⟨hne, -⟩ := Option.ite_none_left_eq_some.mp hcall
    refine ⟨?_, by decide⟩
    cases ok <;> simp_all
  · cases hpolls

/-- The rounds that a step of the driver stands for. -/
def roundsOf (cfg : SdifConfig) (s : SdifState) : SdifEvent → List SdifEvent
  | .call k false =>
      match polls s false (s.pc k) with
      | some (d, _) => List.replicate (sdifTimeOut cfg.version / d + 2) (.call k false)
      | none => [.call k false]
  | e => [e]

/-- One round, or no loop. -/
theorem single_run {e : SdifEvent} (h : pollStep cfg ⟨s, fun _ => 0⟩ e = some u) :
    (pollSystem cfg).run ⟨s, fun _ => 0⟩ [e] = some u :=
  congrArg (Option.bind · _) h

theorem leave_run {ok : Bool} (h : sdifStep cfg s (.call k ok) = some s')
    (hpolls : polls s ok (s.pc k) = none ∨ ok = true) :
    (pollSystem cfg).run ⟨s, fun _ => 0⟩ [.call k ok] = some ⟨s', fun _ => 0⟩ := by
  have hleave := waiting_leave h 0
  rw [waiting_zero] at hleave
  refine single_run (pollStep_call.mpr ⟨(sdifStep_iff.mp h).1, ?_⟩)
  rw [pollCall_eq]
  dsimp only
  split
  · rename_i d more hsome
    rcases hpolls with hnone | rfl
    · rw [hsome] at hnone
      cases hnone
    · rw [(polls_outcome h hsome).1]
      exact hleave
  · exact hleave

theorem polls_simulate : System.Simulates (sdifSystem cfg) (pollSystem cfg) (roundsOf cfg)
    fun s u => u = ⟨s, fun _ => 0⟩ := by
  constructor
  · rintro s ⟨mem, need, rfl⟩
    exact ⟨_, ⟨mem, need, rfl⟩, rfl⟩
  · rintro s e s' _ rfl (hs : sdifStep cfg s e = some s')
    refine ⟨⟨s', fun _ => 0⟩, ?_, rfl⟩
    have hevent : (∀ k ok, e ≠ .call k ok) → (pollSystem cfg).run ⟨s, fun _ => 0⟩ [e] =
        some ⟨s', fun _ => 0⟩ := by
      intro he
      refine single_run ?_
      unfold pollStep
      rw [(sdifStep_iff.mp hs).1, if_neg Bool.false_ne_true]
      split
      · exact absurd rfl (he _ _)
      · rw [hs]
        rfl
    unfold roundsOf
    split
    · split
      · rename_i d more hpolls
        obtain ⟨rfl, hd⟩ := polls_outcome hs hpolls
        exact waiting_run hpolls hs (Nat.mul_div_le _ d) (Nat.lt_mul_div_succ _ hd)
      · rename_i hpolls
        exact leave_run hs (Or.inl hpolls)
    · rename_i hfalse
      by_cases he : ∃ k ok, e = .call k ok
      · obtain ⟨k, ok, rfl⟩ := he
        cases ok with
        | false => exact absurd rfl (hfalse k)
        | true => exact leave_run hs (Or.inr rfl)
      · exact hevent fun k ok hcall => he ⟨k, ok, hcall⟩

/-- **The loops can end as the one step does**, and in no other way. -/
theorem poll_reachable_iff :
    (sdifSystem cfg).Reachable s ↔ ∃ c, (pollSystem cfg).Reachable ⟨s, c⟩ := by
  constructor
  · intro h
    obtain ⟨_, hreach, rfl⟩ := polls_simulate.reachable h
    exact ⟨_, hreach⟩
  · rintro ⟨c, hreach⟩
    exact poll_reachable_sdif hreach

/-! ## The end of all steps -/

def SdifEvent.cost (e : SdifEvent) : ℕ := if e.own then 1 else 0

/-- Steps left to the callout. -/
def Callout.left : Callout → ℕ
  | .idle => 0
  | .armed => 2
  | .expired => 1

/-- The potential of the driver: a step of a call pays for the callout it may
set. -/
def ownWork (v : Version) (s : SdifState) : ℕ :=
  if s.panicked then 0
  else 3 * (∑ k ∈ Finset.range s.submitted, (s.pc k).left v) + s.callout.left

theorem Callout.left_le (c : Callout) : c.left ≤ 2 := by
  cases c <;> simp [left]

theorem CallPc.left_pos (v : Version) {p : CallPc} (h : p.isReturned = false) : 0 < p.left v := by
  cases p with
  | issue i =>
      have := i.rank_le v
      simp only [left]
      omega
  | returned err => cases h
  | _ => simp [left]

theorem entry_left : (entry cfg).left cfg.version ≤ 29 := by
  apply CallPc.left_le
  unfold entry
  split <;> exact CallPc.noConfusion

theorem callStep_not_returned {ok : Bool} (hs : callStep cfg k ok s = some s') :
    (s.pc k).isReturned = false := by
  unfold CallPc.isReturned
  split
  · rename_i hpc
    rw [callStep, hpc] at hs
    cases hs
  · rfl

theorem ownWork_call {ok : Bool} (hi : CallInv cfg s) (hrun : s.panicked = false)
    (hs : callStep cfg k ok s = some s') :
    ownWork cfg.version s' + 1 ≤ ownWork cfg.version s := by
  have hstep := callStep_spec hs
  have hk := hi.born hstep.entered
  unfold ownWork
  rw [hrun, if_neg Bool.false_ne_true]
  cases hpanic : s'.panicked with
  | true =>
      have hpos := CallPc.left_pos cfg.version (callStep_not_returned hs)
      have hle := Finset.single_le_sum (f := fun j => (s.pc j).left cfg.version)
        (fun _ _ => Nat.zero_le _) (Finset.mem_range.mpr hk)
      rw [if_pos rfl]
      omega
  | false =>
      have hsum := hstep.left_lt hk hpanic
      have hcall : s'.callout.left ≤ s.callout.left + 2 := by
        rcases hstep.callout with hc | -
        · rw [hc]
          exact Nat.le_add_right ..
        · have := s'.callout.left_le
          omega
      rw [if_neg Bool.false_ne_true]
      omega

/-- An event that moves no call, with `c` steps of the callout. -/
theorem ownWork_frame {v : Version} {c : ℕ} (hp : s'.pc = s.pc) (hsubs : s'.subs = s.subs)
    (hrun : s.panicked = false) (hcall : s'.callout.left + c ≤ s.callout.left) :
    ownWork v s' + c ≤ ownWork v s := by
  have hsub : s'.submitted = s.submitted := congrArg List.length hsubs
  unfold ownWork
  rw [hrun, if_neg Bool.false_ne_true, hp, hsub]
  split <;> omega

/-- `sdif_finish_command` stops the callout or leaves it as it is. -/
theorem finishCommand_callout (s : SdifState) :
    (finishCommand cfg s).callout.left ≤ s.callout.left := by
  unfold finishCommand
  split
  · exact le_rfl
  · split
    · split
      · show (if s.callout = .armed then Callout.idle else s.callout).left ≤ _
        split
        · exact Nat.zero_le _
        · exact le_rfl
      · exact le_rfl
    · exact le_rfl

theorem commandDone_callout (resp : Resp) (s : SdifState) :
    (commandDone cfg resp s).callout.left ≤ s.callout.left := by
  unfold commandDone
  split
  · exact finishCommand_callout (noteCommandDone cfg resp s)
  · exact le_rfl

theorem dataDone_callout (bytes : List (BitVec 8)) (s : SdifState) :
    (dataDone cfg bytes s).callout.left ≤ s.callout.left := by
  unfold dataDone
  split
  · exact le_rfl
  · split
    · exact finishCommand_callout (noteDataDone bytes s)
    · exact le_rfl

theorem ownWork_submit {cmd : MmcCommand} {bytes : List (BitVec 8)} (hrun : s.panicked = false) :
    ownWork cfg.version (submit cfg cmd bytes s) ≤ ownWork cfg.version s + 87 := by
  have hlen : (submit cfg cmd bytes s).submitted = s.submitted + 1 := submitted_submit ..
  have hold : ∑ j ∈ Finset.range s.submitted, ((submit cfg cmd bytes s).pc j).left cfg.version =
      ∑ j ∈ Finset.range s.submitted, (s.pc j).left cfg.version := by
    apply Finset.sum_congr rfl
    intro j hj
    rw [submit_pc, if_neg (Nat.ne_of_lt (Finset.mem_range.mp hj))]
  have hrun' : (submit cfg cmd bytes s).panicked = false := hrun
  have hcall : (submit cfg cmd bytes s).callout = s.callout := rfl
  have hnew : (entry cfg).left cfg.version ≤ 29 := entry_left
  simp only [ownWork, hrun, hrun', Bool.false_eq_true, if_false]
  rw [hlen, Finset.sum_range_succ, hold, submit_pc, if_pos rfl, hcall]
  omega

/-- Of the other events only a request concerns the calls, and none sets the
callout. -/
theorem eventStep_calls {e : SdifEvent} (he : ∀ k ok, e ≠ .call k ok)
    (hs : eventStep cfg s e = some s') :
    (∃ cmd bytes, e = .submit cmd bytes ∧ s' = submit cfg cmd bytes s) ∨
    e.submits = 0 ∧ s'.pc = s.pc ∧ s'.subs = s.subs ∧
      s'.callout.left + e.cost ≤ s.callout.left := by
  cases e with
  | submit cmd bytes =>
      cases hs
      exact Or.inl ⟨cmd, bytes, rfl, rfl⟩
  | call k ok => exact absurd rfl (he k ok)
  | cmdDone resp =>
      cases hs
      have hd : DoneEvent s (commandDone cfg resp s) _ := commandDone_spec resp s
      exact Or.inr ⟨rfl, hd.pc, hd.subs, commandDone_callout resp s⟩
  | dataDone bytes =>
      cases hs
      have hd : DoneEvent s (dataDone cfg bytes s) _ := dataDone_spec bytes s
      exact Or.inr ⟨rfl, hd.pc, hd.subs, dataDone_callout bytes s⟩
  | errOccure =>
      cases hs
      obtain ⟨hp, -, hsub, -, -, -, hcall, -⟩ := errorOccurred_spec cfg s
      exact Or.inr ⟨rfl, hp, hsub, le_of_eq (congrArg Callout.left hcall)⟩
  | expire =>
      obtain ⟨harmed, ht⟩ := Option.ite_none_right_eq_some.mp hs
      cases ht
      refine Or.inr ⟨rfl, rfl, rfl, ?_⟩
      rw [harmed]
      exact le_rfl
  | timeout =>
      obtain ⟨⟨hexp, -⟩, ht⟩ := Option.ite_none_right_eq_some.mp hs
      cases ht
      obtain ⟨hp, -, hsub, -, -, hcall, -⟩ := timeout_spec cfg s
      refine Or.inr ⟨rfl, hp, hsub, ?_⟩
      rw [hcall, hexp]
      exact le_rfl
  | updateIos powerUp useHold =>
      obtain ⟨-, ht⟩ := Option.ite_none_right_eq_some.mp hs
      cases ht
      exact Or.inr ⟨rfl, rfl, rfl, le_rfl⟩

/-- **One event.** A step of the driver is paid for, and only a request brings
more to do. -/
theorem sdifStep_ownWork {e : SdifEvent} (hi : CallInv cfg s) (hs : sdifStep cfg s e = some s') :
    ownWork cfg.version s' + e.cost ≤ ownWork cfg.version s + 87 * e.submits := by
  obtain ⟨hrun, hs⟩ := sdifStep_iff.mp hs
  by_cases he : ∃ k ok, e = .call k ok
  · obtain ⟨k, ok, rfl⟩ := he
    exact ownWork_call hi hrun hs
  · rcases eventStep_calls (fun k ok hcall => he ⟨k, ok, hcall⟩) hs with
      ⟨cmd, bytes, rfl, rfl⟩ | ⟨-, hp, hsubs, hcall⟩
    · exact ownWork_submit hrun
    · exact (ownWork_frame hp hsubs hrun hcall).trans (Nat.le_add_right ..)

/-- The rounds left to a loop that has waited `c` microseconds. -/
def CallPc.rounds (T c : ℕ) : CallPc → ℕ
  | .busy => T / 100 + 1 - c / 100
  | .blockCount .poll => T + 1 - c
  | .blockCount .busy => T / 100 + 1 - c / 100
  | _ => 0

/-- The rounds of the loops that a call with `n` steps left has not come to: the
three have 28, 19 and 18 steps left. -/
def roundsAhead (T n : ℕ) : ℕ :=
  (if 28 < n then T / 100 + 1 else 0) + (if 19 < n then T + 1 else 0) +
    (if 18 < n then T / 100 + 1 else 0)

def CallPc.roundsLeft (v : Version) (T c : ℕ) (p : CallPc) : ℕ :=
  p.rounds T c + roundsAhead T (p.left v)

/-- The rounds of a request. -/
def pollRounds (v : Version) : ℕ := 2 * (sdifTimeOut v / 100 + 1) + (sdifTimeOut v + 1)

theorem roundsAhead_mono (T : ℕ) {m n : ℕ} (h : m ≤ n) : roundsAhead T m ≤ roundsAhead T n := by
  unfold roundsAhead
  split_ifs <;> omega

/-- Further on there are fewer rounds, those of the loop come to included. -/
theorem CallPc.roundsLeft_le {v : Version} {p q : CallPc} (T c : ℕ) (h : q.left v < p.left v) :
    q.roundsLeft v T c ≤ roundsAhead T (p.left v) := by
  have hnext : q.roundsLeft v T c ≤ roundsAhead T (q.left v + 1) := by
    cases q with
    | busy =>
        simp only [roundsLeft, rounds, roundsAhead, left, lt_self_iff_false, ↓reduceIte,
          Nat.reduceLT, zero_add, Nat.reduceAdd, Nat.lt_add_one]
        omega
    | blockCount b => cases b <;> simp [roundsLeft, rounds, roundsAhead, left, BlockCountPc.left]
    | _ => exact (Nat.zero_add _).trans_le (roundsAhead_mono T (Nat.le_succ _))
  exact hnext.trans (roundsAhead_mono T h)

theorem entry_roundsLeft (c : ℕ) : (entry cfg).roundsLeft cfg.version (sdifTimeOut cfg.version) c ≤
    pollRounds cfg.version := by
  have hlt : (entry cfg).left cfg.version < CallPc.new.left cfg.version :=
    Nat.lt_succ_of_le entry_left
  refine (CallPc.roundsLeft_le _ c hlt).trans_eq ?_
  simp only [roundsAhead, CallPc.left, Nat.reduceLT, ↓reduceIte, pollRounds]
  omega

/-- A round is one less. -/
theorem CallPc.roundsLeft_wait {v : Version} {T c d : ℕ} {ok more : Bool} (hc : c ≤ T)
    (h : polls s ok (s.pc k) = some (d, more)) :
    (s.pc k).roundsLeft v T (c + d) + 1 = (s.pc k).roundsLeft v T c := by
  have hless : (s.pc k).rounds T (c + d) + 1 = (s.pc k).rounds T c := by
    unfold polls at h
    split at h <;> rename_i hpc
    · cases h
      rw [hpc, rounds, rounds]
      omega
    · cases h
      rw [hpc, rounds, rounds]
      omega
    · cases h
      rw [hpc, rounds, rounds]
      omega
    · cases h
  unfold roundsLeft
  omega

/-- The rounds left to all calls. -/
def roundsWork (cfg : SdifConfig) (u : PollState) : ℕ :=
  if u.sdif.panicked then 0
  else ∑ k ∈ Finset.range u.sdif.submitted,
    (u.sdif.pc k).roundsLeft cfg.version (sdifTimeOut cfg.version) (u.waitCounter k)

theorem roundsWork_wait {d : ℕ} {ok more : Bool} (hrun : u.sdif.panicked = false)
    (hk : k < u.sdif.submitted) (hc : u.waitCounter k ≤ sdifTimeOut cfg.version)
    (h : polls u.sdif ok (u.sdif.pc k) = some (d, more)) :
    roundsWork cfg (u.wait k d) + 1 ≤ roundsWork cfg u := by
  have hlt : (∑ j ∈ Finset.range u.sdif.submitted, (u.sdif.pc j).roundsLeft cfg.version
      (sdifTimeOut cfg.version) ((u.wait k d).waitCounter j)) <
      ∑ j ∈ Finset.range u.sdif.submitted, (u.sdif.pc j).roundsLeft cfg.version
        (sdifTimeOut cfg.version) (u.waitCounter j) := by
    have hwait := CallPc.roundsLeft_wait (v := cfg.version) hc h
    have hkc : (u.wait k d).waitCounter k = u.waitCounter k + d := by simp [PollState.wait]
    refine Finset.sum_lt_sum (fun j _ => ?_) ⟨k, Finset.mem_range.mpr hk, ?_⟩
    · by_cases hj : j = k
      · rw [hj, hkc]
        omega
      · have hjc : (u.wait k d).waitCounter j = u.waitCounter j := Function.update_of_ne hj ..
        rw [hjc]
    · rw [hkc]
      omega
  have hrun' : (u.wait k d).sdif.panicked = false := hrun
  unfold roundsWork
  rw [hrun, hrun', if_neg Bool.false_ne_true]
  exact hlt

theorem roundsWork_leave {ok : Bool} (h : u.leave cfg k ok = some u') :
    roundsWork cfg u' ≤ roundsWork cfg u := by
  obtain ⟨hs, hc⟩ := leave_iff.mp h
  obtain ⟨hrun, hs⟩ := sdifStep_iff.mp hs
  have hstep : CallStep cfg.version k ok u.sdif u'.sdif := callStep_spec hs
  have hsub : u'.sdif.submitted = u.sdif.submitted := congrArg List.length hstep.subs
  unfold roundsWork
  rw [hrun, hsub, if_neg Bool.false_ne_true]
  split
  · exact Nat.zero_le _
  · rename_i hpanic
    have hlt := hstep.forward.resolve_right hpanic
    refine Finset.sum_le_sum fun j _ => ?_
    by_cases hj : j = k
    · rw [hj]
      exact (CallPc.roundsLeft_le _ _ hlt).trans (Nat.le_add_left ..)
    · rw [hstep.others j hj, hc, Function.update_of_ne hj]

theorem roundsWork_event {e : SdifEvent} (he : ∀ k ok, e ≠ .call k ok)
    (h : pollStep cfg u e = some u') :
    roundsWork cfg u' ≤ roundsWork cfg u + pollRounds cfg.version * e.submits := by
  obtain ⟨hs, hc⟩ := pollStep_event he h
  obtain ⟨hrun, hs⟩ := sdifStep_iff.mp hs
  unfold roundsWork
  rw [hrun, if_neg Bool.false_ne_true, hc]
  split
  · exact Nat.zero_le _
  · rcases eventStep_calls he hs with ⟨cmd, bytes, rfl, hsub⟩ | ⟨-, hpc, hsubs, -⟩
    · have hlen : u'.sdif.submitted = u.sdif.submitted + 1 := by
        rw [hsub, submitted_submit]
      have hpc : ∀ j, u'.sdif.pc j = if j = u.sdif.submitted then entry cfg else u.sdif.pc j := by
        intro j
        rw [hsub, submit_pc]
      have hold : ∀ j ∈ Finset.range u.sdif.submitted, (u'.sdif.pc j).roundsLeft cfg.version
          (sdifTimeOut cfg.version) (u.waitCounter j) = (u.sdif.pc j).roundsLeft cfg.version
          (sdifTimeOut cfg.version) (u.waitCounter j) := by
        intro j hj
        rw [hpc, if_neg (Nat.ne_of_lt (Finset.mem_range.mp hj))]
      rw [hlen, Finset.sum_range_succ, Finset.sum_congr rfl hold, hpc, if_pos rfl]
      exact Nat.add_le_add_left ((entry_roundsLeft _).trans_eq (Nat.mul_one _).symm) _
    · have hsub : u'.sdif.submitted = u.sdif.submitted := congrArg List.length hsubs
      rw [hpc, hsub]
      exact Nat.le_add_right ..

/-- **One event.** A round or a step is paid for, and only a request brings more
to do. -/
theorem pollStep_work {e : SdifEvent} (hi : CallInv cfg u.sdif)
    (h : pollStep cfg u e = some u') :
    ownWork cfg.version u'.sdif + roundsWork cfg u' + e.cost ≤
      ownWork cfg.version u.sdif + roundsWork cfg u +
        (87 + pollRounds cfg.version) * e.submits := by
  by_cases he : ∃ k ok, e = .call k ok
  · obtain ⟨k, ok, rfl⟩ := he
    obtain ⟨hrun, h⟩ := pollStep_call.mp h
    rcases pollCall_cases h with ⟨d, more, hpolls, hle, rfl⟩ | ⟨ok', hleave⟩
    · have hk : k < u.sdif.submitted := by
        refine hi.born fun hnew => ?_
        rw [hnew] at hpolls
        cases hpolls
      have hwait := roundsWork_wait hrun hk hle hpolls
      have hsame : (u.wait k d).sdif = u.sdif := rfl
      rw [hsame]
      simp only [SdifEvent.cost, SdifEvent.own, SdifEvent.submits, if_true]
      omega
    · have hown := sdifStep_ownWork hi (leave_iff.mp hleave).1
      have hrounds := roundsWork_leave hleave
      simp only [SdifEvent.cost, SdifEvent.own, SdifEvent.submits, if_true] at hown ⊢
      omega
  · have he' : ∀ k ok, e ≠ .call k ok := fun k ok hcall => he ⟨k, ok, hcall⟩
    have hown := sdifStep_ownWork hi (pollStep_event he' h).1
    have hrounds := roundsWork_event he' h
    rw [Nat.add_mul]
    omega

/-- **No call goes on for ever.** In every run, whatever the controller reports
and the card says, the rounds of the polling loops and all other steps of the
driver and its callout are at most `87 + pollRounds` for each request. -/
theorem own_rounds_le {mem : Mem} {need : Bool} {es : List SdifEvent}
    (hr : (pollSystem cfg).run ⟨attached mem need, fun _ => 0⟩ es = some u) :
    (es.map SdifEvent.cost).sum ≤
      (87 + pollRounds cfg.version) * (es.map SdifEvent.submits).sum := by
  have hcost := System.Reachable.cost_le
    (fun u => ownWork cfg.version u.sdif + roundsWork cfg u) SdifEvent.cost
    (fun e => (87 + pollRounds cfg.version) * e.submits) (Q := fun _ => True)
    (fun u e u' h _ hs => pollStep_work (sdif_reachable_callInv (poll_reachable_sdif h)) hs)
    (.init ⟨mem, need, rfl⟩) (fun _ _ => trivial) hr
  have hstart : ownWork cfg.version (attached mem need) +
      roundsWork cfg ⟨attached mem need, fun _ => 0⟩ = 0 := rfl
  rw [hstart, List.sum_map_mul_left] at hcost
  omega

/-- A card that is busy for two rounds, and a `CMD23` that ends in the third round
of the loop that waits for it. -/
theorem own_rounds_le_busy :
    ∃ u, (pollSystem (sampleSdif .v1)).run ⟨attached (fun _ => 0#8) false, fun _ => 0⟩
        (.submit readTwoBlocks [] :: .call 0 true :: .call 0 false :: .call 0 false ::
          calls 0 10 ++ .cmdDone ⟨0x900#32, 0#32, 0#32, 0#32⟩ :: calls 0 16) = some u ∧
      29 ≤ 87 + pollRounds .v1 := by
  have hrun : ((pollSystem (sampleSdif .v1)).run ⟨attached (fun _ => 0#8) false, fun _ => 0⟩
      (.submit readTwoBlocks [] :: .call 0 true :: .call 0 false :: .call 0 false ::
        calls 0 10 ++ .cmdDone ⟨0x900#32, 0#32, 0#32, 0#32⟩ :: calls 0 16)).isSome = true := by
    decide
  obtain ⟨u, hu⟩ := Option.isSome_iff_exists.mp hrun
  exact ⟨u, hu, own_rounds_le hu⟩

end Phytium.Sdif
