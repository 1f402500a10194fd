import PhytiumSdk.Lib.Potential
import PhytiumSdk.Xmac.TxRing
import Mathlib.Algebra.BigOperators.Ring.List

/-!
# XMAC transmit: the driver gets on

`start_locked` and `clean_tx` come to an end whatever the hardware does
meanwhile (`tx_call_ends`), and a completion interrupt makes room: once the
hardware is done with the ring, a call of `clean_tx` and one of `start_locked`
leave no packet in the send queue, or 62 fewer (`tx_round`). So the send queue
cannot be stuck behind `OACTIVE`.
-/

namespace Phytium.Xmac

open Lib Lib.Mask

variable {M : TxbufMasks} {hw : XmacHw} {s s' : TxState} {D U : List (List Seg)}
  {t u v : RingState} {segs : List Seg}

/-! ## The end of the two functions -/

/-- How many stores are left of the frame. -/
def fillLeft (i : ℕ) : FillStore → ℕ
  | .addr => 4 * i + 3
  | .addrhi => 4 * i + 2
  | .ctl => 4 * i + 1
  | .slot => 4 * i

/-- What is left of `clean_tx` when the ring is empty, and of `start_locked`
behind it. -/
def CleanCaller.left : CleanCaller → ℕ
  | .intr => 1
  | .start => 3

def TxPc.left : TxPc → ℕ
  | .idle => 0
  | .dequeue => 1
  | .spaceAgain => 2
  | .space => 4
  | .cleanTest caller => caller.left
  | .cleanMark caller _ => caller.left
  | .cleanSkip caller _ => caller.left - 1
  | .commit segs => 4 * segs.length + 5
  | .fill segs i store => 4 * segs.length + 5 + fillLeft i store

/-- The potential of the driver: a packet pays for its descriptors, and a
descriptor for being cleaned. -/
def txPotential (s : TxState) : ℕ :=
  80 * s.sendq.length + 4 * s.txringQueued.toNat + s.pc.left

theorem fillStep_left (i : ℕ) (store : FillStore) (hi : store = .slot → 0 < i) :
    (fillStep M s segs i store).pc.left < 4 * segs.length + 5 + fillLeft i store := by
  cases store with
  | ctl =>
      unfold fillStep
      by_cases h0 : i = 0
      · simp [h0, TxPc.left, fillLeft]
      · simp [h0, TxPc.left, fillLeft]
  | slot =>
      have := hi rfl
      simp only [fillStep, TxPc.left, fillLeft]
      omega
  | _ =>
      simp only [fillStep, TxPc.left, fillLeft]
      omega

theorem fillStep_frame (i : ℕ) (store : FillStore) :
    (fillStep M s segs i store).sendq = s.sendq ∧
      (fillStep M s segs i store).txringQueued = s.txringQueued ∧
      (fillStep M s segs i store).oactive = s.oactive := by
  cases store <;> exact ⟨rfl, rfl, rfl⟩

/-- **One step of the driver** lowers the potential. -/
theorem driverStep_potential {defrag : Option MbufChain} (h : TxInv M s D U)
    (hd : ∀ c ∈ defrag, c.Short) (hs : driverStep M hw defrag s = some s') :
    txPotential s' + 1 ≤ txPotential s := by
  have hat := h.atPc
  unfold txPotential
  cases driverStep_stepped hs with
  | room hpc hsp =>
      rcases hpc with hpc | hpc
      · rw [hpc]
        simp only [TxPc.left]
        omega
      · rw [hpc]
        simp only [TxPc.left]
        omega
  | reclaim hpc =>
      rw [hpc]
      simp only [TxPc.left, CleanCaller.left]
      omega
  | full hpc =>
      rw [hpc]
      simp only [TxPc.left]
      omega
  | dequeue hpc hdeq =>
      rw [hpc]
      cases hdeq with
      | nothing =>
          simp only [TxPc.left]
          omega
      | accepted m m' q k segs hq hname hsegs =>
          have hlen : segs.length ≤ 8 := (takenSegs_ok (M := M) h.short hd hsegs).length_le
          unfold acceptPacket
          rw [hq, List.length_cons]
          by_cases hnil : segs = []
          · simp only [hnil, if_true, TxPc.left, List.length_nil]
            omega
          · simp only [hnil, if_false, TxPc.left, fillLeft]
            omega
      | freed m m' q k fails mapfails hq =>
          rw [hq, List.length_cons]
          simp only [TxPc.left]
          omega
  | fill segs i store hpc =>
      rw [hpc] at hat ⊢
      obtain ⟨hq, hn, -⟩ : (fillStep M s segs i store).sendq = s.sendq ∧
          (fillStep M s segs i store).txringQueued = s.txringQueued ∧ _ :=
        fillStep_frame i store
      have hleft : (fillStep M s segs i store).pc.left < _ := fillStep_left i store (by
        rintro rfl
        exact hat.filled.1)
      rw [hq, hn]
      simp only [TxPc.left] at hleft ⊢
      omega
  | commit segs hpc =>
      rw [hpc] at hat ⊢
      have hnonneg := hat.nonneg
      simp only [commitStep, TxPc.left]
      omega
  | cleanTest caller hpc =>
      rw [hpc]
      unfold cleanTestStep
      dsimp only
      split
      · cases caller <;> simp only [TxPc.left, CleanCaller.left] <;> omega
      · cases caller <;> simp only [TxPc.left, CleanCaller.left, CleanCaller.pc] <;> omega
  | cleanSkip caller ctl hpc =>
      rw [hpc] at hat ⊢
      -- the frame being freed still has a descriptor in the window
      obtain ⟨w, D, rfl⟩ := List.exists_cons_of_ne_nil hat.freeing
      have hlen := (hat.window.size (w := w) (by simp)).1
      have hcount := hat.count
      rw [List.cons_append, descs_cons] at hcount
      unfold cleanSkipStep
      dsimp only
      split
      · cases caller <;> simp only [TxPc.left, CleanCaller.left] <;> omega
      · cases caller <;> simp only [TxPc.left, CleanCaller.left] <;> omega
  | cleanMark caller ctl hpc =>
      rw [hpc]
      unfold cleanMarkStep
      cases caller <;> simp only [TxPc.left, CleanCaller.left] <;> omega

/-- What goes on while the lock is held: the driver, the hardware, and the
stack, which fills the send queue. -/
def RingEvent.meanwhile : RingEvent → Bool
  | .tx (.driver _) | .tx (.enqueue _) | .complete _ _ => true
  | _ => false

def RingEvent.driverCost : RingEvent → ℕ
  | .tx (.driver _) => 1
  | _ => 0

def RingEvent.packets : RingEvent → ℕ
  | .tx (.enqueue _) => 1
  | _ => 0

theorem ringStep_potential {e : RingEvent} (h : (ringSystem M hw).Reachable t)
    (he : e.meanwhile = true) (hs : ringStep M hw t e = some u) :
    txPotential u.tx + e.driverCost ≤ txPotential t.tx + 80 * e.packets := by
  obtain ⟨D, U, hinv⟩ := ring_reachable_inv h
  cases e with
  | complete i ctl =>
      obtain ⟨-, ht⟩ := Option.ite_none_right_eq_some.mp hs
      cases ht
      exact Nat.le_refl _
  | tx e =>
      obtain ⟨u', hu, rfl⟩ := Option.map_eq_some_iff.mp hs
      cases e with
      | driver defrag =>
          obtain ⟨hd, hstep⟩ := Option.ite_none_right_eq_some.mp hu
          exact driverStep_potential hinv hd hstep
      | enqueue m =>
          obtain ⟨-, ht⟩ := Option.ite_none_right_eq_some.mp hu
          cases ht
          simp only [txPotential, RingEvent.driverCost, RingEvent.packets, List.length_append,
            List.length_singleton]
          omega
      | _ => cases he

theorem txPotential_idle (h : (ringSystem M hw).Reachable t) (hpc : t.tx.pc = .idle) :
    txPotential t.tx ≤ 80 * t.tx.sendq.length + 2012 := by
  obtain ⟨D, U, hinv⟩ := ring_reachable_inv h
  have hat := hinv.atPc
  rw [hpc] at hat
  have htotal := hat.window.total_le
  have hcount := hat.count
  rw [txPotential, hpc, TxPc.left]
  omega

theorem driver_enabled (hpc : t.tx.pc ≠ .idle) {defrag : Option MbufChain}
    (hd : ∀ c ∈ defrag, c.Short) : ∃ u, ringStep M hw t (.tx (.driver defrag)) = some u := by
  have hsome : ∃ s', driverStep M hw defrag t.tx = some s' := by
    unfold driverStep
    split
    · rename_i h
      exact absurd h hpc
    · split <;> exact ⟨_, rfl⟩
    · split <;> exact ⟨_, rfl⟩
    all_goals exact ⟨_, rfl⟩
  obtain ⟨s', hs'⟩ := hsome
  refine ⟨⟨s', t.detached || decide (TxEvent.driver defrag = .stop)⟩, ?_⟩
  show (txStep M hw t.tx (.driver defrag)).map _ = _
  rw [show txStep M hw t.tx (.driver defrag) = driverStep M hw defrag t.tx from if_pos hd, hs']
  rfl

/-- The two functions of the driver that are called. -/
def TxEvent.calls : TxEvent → Bool
  | .start | .clean => true
  | _ => false

/-- **Every call ends.** Whatever the hardware completes and the stack queues
while `start_locked` or `clean_tx` runs, it never gets stuck, and it makes at
most 80 accesses for each packet that is in the send queue or put there, and
2016 more. -/
theorem tx_call_ends {call : TxEvent} {es : List RingEvent} (hcall : call.calls = true)
    (h : (ringSystem M hw).Reachable t) (hes : ∀ e ∈ es, e.meanwhile = true)
    (hr : (ringSystem M hw).run t (.tx call :: es) = some u) :
    (es.map RingEvent.driverCost).sum ≤
        80 * (t.tx.sendq.length + (es.map RingEvent.packets).sum) + 2016 ∧
    (u.tx.pc ≠ .idle → ∀ defrag : Option MbufChain, (∀ c ∈ defrag, c.Short) →
      ∃ v, (ringSystem M hw).step u (.tx (.driver defrag)) = some v) := by
  rw [System.run_cons, Option.bind_eq_some_iff] at hr
  obtain ⟨w, hw', hr⟩ := hr
  have hfirst : txPotential w.tx ≤ 80 * t.tx.sendq.length + 2016 := by
    obtain ⟨w', hcalled, rfl⟩ := Option.map_eq_some_iff.mp hw'
    cases call with
    | start =>
        obtain ⟨hpc, ht⟩ := Option.ite_none_right_eq_some.mp hcalled
        cases ht
        have hidle := txPotential_idle h hpc
        unfold txPotential at hidle ⊢
        rw [hpc] at hidle
        by_cases hactive : t.tx.oactive = true
        · simp only [hactive, if_true, TxPc.left] at hidle ⊢
          omega
        · rw [if_neg hactive]
          simp only [TxPc.left] at hidle ⊢
          omega
    | clean =>
        obtain ⟨hpc, ht⟩ := Option.ite_none_right_eq_some.mp hcalled
        cases ht
        have hidle := txPotential_idle h hpc
        simp only [txPotential, hpc, TxPc.left, CleanCaller.left] at hidle ⊢
        omega
    | _ => cases hcall
  have hcost := (h.step hw').cost_le (fun t => txPotential t.tx) RingEvent.driverCost
    (fun e => 80 * e.packets) (Q := fun e => e.meanwhile = true)
    (fun s e s' hs he hstep => ringStep_potential hs he hstep) hes hr
  have hgain : (es.map fun e => 80 * e.packets).sum = 80 * (es.map RingEvent.packets).sum :=
    List.sum_map_mul_left es RingEvent.packets 80
  refine ⟨?_, fun hpc defrag hd => driver_enabled hpc hd⟩
  omega

/-- A packet is sent, and another one waits. -/
def oneSentRun : List RingEvent :=
  [.tx .init, .tx (.enqueue ⟨1, ⟨⟨0x1000#64, 60⟩, []⟩⟩), .tx .start] ++
  List.replicate 8 (.tx (.driver none)) ++
  [.complete 0 (1#32 <<< 31 ||| 1#32 <<< 15 ||| 60#32), .tx (.enqueue ⟨2, ⟨⟨0x3000#64, 60⟩, []⟩⟩)]

/-- The second packet takes eight accesses, and one that comes meanwhile six
more. -/
theorem tx_call_ends_two : ∃ t u, (ringSystem sampleTxMasks .version1).run
      ⟨setupDescs sampleTxMasks .version1, false⟩ oneSentRun = some t ∧
    (ringSystem sampleTxMasks .version1).run t (.tx .start ::
      (.tx (.enqueue ⟨3, ⟨⟨0x5000#64, 60⟩, []⟩⟩) :: List.replicate 14 (.tx (.driver none)))) =
        some u ∧
    u.tx.pc = .idle ∧ 14 ≤ 80 * (t.tx.sendq.length + 1) + 2016 := by
  have hrun : ((ringSystem sampleTxMasks .version1).run
      ⟨setupDescs sampleTxMasks .version1, false⟩ (oneSentRun ++ .tx .start ::
        (.tx (.enqueue ⟨3, ⟨⟨0x5000#64, 60⟩, []⟩⟩) :: List.replicate 14 (.tx (.driver none))))).map
        (fun u => u.tx.pc) = some .idle := by
    decide
  obtain ⟨u, hu, hpc⟩ := Option.map_eq_some_iff.mp hrun
  rw [System.run_append, Option.bind_eq_some_iff] at hu
  obtain ⟨t, ht, hu⟩ := hu
  have hends := tx_call_ends rfl (System.reachable_of_run _ rfl ht)
    (List.forall_iff_forall_mem.mp (by decide)) hu
  exact ⟨t, u, ht, hu, hpc, hends.1⟩

/-! ## A round -/

/-- Within `clean_tx`, called from the interrupt handler; once it is through, the
ring is empty. -/
def Cleaning (s : TxState) : Prop :=
  match s.pc with
  | .idle => s.txringQueued = 0
  | .cleanTest caller | .cleanSkip caller _ | .cleanMark caller _ => caller = .intr
  | _ => False

/-- The hardware is done with every frame. -/
def AllSent (M : TxbufMasks) (s : TxState) : Prop := ∃ D, TxInv M s D []

theorem allSent_of_none (h : TxInv M s D U)
    (hnone : oldestUncompleted M (storedRing M s) (handedOver s) s.txringTlPtr true = none) :
    AllSent M s := by
  obtain ⟨⟨busy, hwin⟩, hn, -⟩ := h.atPc.storedWindow
  rw [hn, hwin.oldest_eq] at hnone
  by_cases hU : U = []
  · exact ⟨D, hU ▸ h⟩
  · rw [if_neg hU] at hnone
    cases hnone

/-- A frame that is done with has its `USED` bit set, so the loop goes on as long
as there is one. -/
theorem cleanTest_exit {caller : CleanCaller} (h : TxInv M s D []) (hpc : s.pc = .cleanTest caller)
    (hexit : ¬ (0 < s.txringQueued ∧ has (s.txring s.txringTlPtr).ctl M.used = true)) :
    s.txringQueued = 0 := by
  have hat := h.atPc
  rw [hpc] at hat
  have hcount := hat.count
  rw [List.append_nil] at hcount
  cases D with
  | nil => exact hcount
  | cons w D =>
      obtain ⟨g, gs, rfl⟩ := List.exists_cons_of_ne_nil (hat.window.ne_nil w (by simp))
      have hused := hat.window.done.1.1.used
      exfalso
      apply hexit
      rw [descs_cons, List.length_cons] at hcount
      exact ⟨by omega, hused⟩

theorem Cleaning.step {defrag : Option MbufChain} (h : Cleaning s) (hsent : AllSent M s)
    (hd : ∀ c ∈ defrag, c.Short) (hs : driverStep M hw defrag s = some s') :
    Cleaning s' ∧ AllSent M s' ∧ s'.sendq = s.sendq := by
  obtain ⟨D, hinv⟩ := hsent
  obtain ⟨D', U', hinv', hkept⟩ := hinv.driverStep hd hs
  obtain ⟨new, hnew, hunsent⟩ := hkept.unsent
  unfold Cleaning at h
  -- no packet is taken, so all that is in the ring has been sent
  have hall : s'.queuedPkts = s.queuedPkts → unsent [] s.pc = [] → unsent U' s'.pc = U' →
      AllSent M s' := by
    intro hq h1 h2
    rw [hq] at hnew
    have hnil : new = [] := by
      simpa using hnew
    rw [h1, h2, hnil] at hunsent
    obtain rfl : U' = [] := hunsent
    exact ⟨D', hinv'⟩
  cases driverStep_stepped hs with
  | cleanTest caller hpc =>
      rw [hpc] at h
      dsimp only at h
      subst h
      unfold cleanTestStep at hall ⊢
      dsimp only at hall ⊢
      split
      · rename_i hgo
        rw [if_pos hgo] at hall
        exact ⟨rfl, hall rfl (by rw [hpc]; rfl) rfl, rfl⟩
      · rename_i hexit
        rw [if_neg hexit] at hall
        have hempty := cleanTest_exit hinv hpc hexit
        exact ⟨hempty, hall rfl (by rw [hpc]; rfl) rfl, rfl⟩
  | cleanSkip caller ctl hpc =>
      rw [hpc] at h
      unfold cleanSkipStep at hall ⊢
      dsimp only at hall ⊢
      split
      · rename_i hlast
        rw [if_pos hlast] at hall
        exact ⟨h, hall rfl (by rw [hpc]; rfl) rfl, rfl⟩
      · rename_i hlast
        rw [if_neg hlast] at hall
        exact ⟨h, hall rfl (by rw [hpc]; rfl) rfl, rfl⟩
  | cleanMark caller ctl hpc =>
      rw [hpc] at h
      exact ⟨h, hall rfl (by rw [hpc]; rfl) rfl, rfl⟩
  | room hpc =>
      rcases hpc with hpc | hpc
      · rw [hpc] at h
        exact h.elim
      · rw [hpc] at h
        exact h.elim
  | reclaim hpc =>
      rw [hpc] at h
      exact h.elim
  | full hpc =>
      rw [hpc] at h
      exact h.elim
  | dequeue hpc =>
      rw [hpc] at h
      exact h.elim
  | fill segs i store hpc =>
      rw [hpc] at h
      exact h.elim
  | commit segs hpc =>
      rw [hpc] at h
      exact h.elim

/-- Within `start_locked`; it ends with no packet left, or no room. -/
def Serving (s : TxState) : Prop :=
  match s.pc with
  | .idle => s.sendq = [] ∨ 496 ≤ s.txringQueued
  | .cleanTest caller | .cleanSkip caller _ | .cleanMark caller _ => caller = .start
  | _ => True

theorem Serving.step {defrag : Option MbufChain} (h : Serving s)
    (hs : driverStep M hw defrag s = some s') : Serving s' := by
  unfold Serving at h
  cases driverStep_stepped hs with
  | room => trivial
  | reclaim => exact rfl
  | full _ hsp => exact Or.inr (noSpace_iff.mp hsp)
  | dequeue _ hdeq =>
      cases hdeq with
      | nothing hq => exact Or.inl hq
      | accepted m m' q k segs =>
          unfold acceptPacket Serving
          by_cases hnil : segs = []
          · simp [hnil]
          · simp [hnil]
      | freed => trivial
  | fill segs i store =>
      cases store with
      | ctl =>
          unfold fillStep Serving
          by_cases h0 : i = 0
          · simp [h0]
          · simp [h0]
      | _ => trivial
  | commit => trivial
  | cleanTest caller hpc =>
      rw [hpc] at h
      dsimp only at h
      subst h
      unfold cleanTestStep
      dsimp only
      split
      · exact rfl
      · trivial
  | cleanSkip caller ctl hpc =>
      rw [hpc] at h
      unfold cleanSkipStep
      dsimp only
      split <;> exact h
  | cleanMark caller ctl hpc =>
      rw [hpc] at h
      exact h

/-- A frame that is being written or handed over. -/
def TxPc.entering : TxPc → ℕ
  | .fill segs _ _ | .commit segs => segs.length
  | _ => 0

/-- The room that what is in the send queue may take, and what is in the ring. -/
def ringLoad (s : TxState) : ℕ := 8 * s.sendq.length + s.txringQueued.toNat + s.pc.entering

theorem driverStep_load {defrag : Option MbufChain} (h : TxInv M s D U)
    (hd : ∀ c ∈ defrag, c.Short) (hs : driverStep M hw defrag s = some s') :
    ringLoad s' ≤ ringLoad s := by
  have hat := h.atPc
  unfold ringLoad
  cases driverStep_stepped hs with
  | room hpc =>
      rcases hpc with hpc | hpc
      · rw [hpc]
        exact Nat.le_refl _
      · rw [hpc]
        exact Nat.le_refl _
  | reclaim hpc =>
      rw [hpc]
      exact Nat.le_refl _
  | full hpc =>
      rw [hpc]
      exact Nat.le_refl _
  | dequeue hpc hdeq =>
      rw [hpc]
      cases hdeq with
      | nothing => exact Nat.le_refl _
      | accepted m m' q k segs hq hname hsegs =>
          have hlen : segs.length ≤ 8 := (takenSegs_ok (M := M) h.short hd hsegs).length_le
          unfold acceptPacket
          rw [hq, List.length_cons]
          by_cases hnil : segs = []
          · simp only [hnil, if_true, TxPc.entering, List.length_nil]
            omega
          · simp only [hnil, if_false, TxPc.entering]
            omega
      | freed m m' q k fails mapfails hq =>
          rw [hq, List.length_cons]
          simp only [TxPc.entering]
          omega
  | fill segs i store hpc =>
      rw [hpc]
      obtain ⟨hq, hn, -⟩ : (fillStep M s segs i store).sendq = s.sendq ∧
          (fillStep M s segs i store).txringQueued = s.txringQueued ∧ _ :=
        fillStep_frame i store
      rw [hq, hn]
      have hsame : (fillStep M s segs i store).pc.entering = segs.length := by
        cases store with
        | ctl =>
            unfold fillStep
            by_cases h0 : i = 0
            · simp [h0, TxPc.entering]
            · simp [h0, TxPc.entering]
        | _ => rfl
      rw [hsame]
      exact Nat.le_refl _
  | commit segs hpc =>
      rw [hpc] at hat ⊢
      have hnonneg := hat.nonneg
      simp only [commitStep, TxPc.entering]
      omega
  | cleanTest caller hpc =>
      rw [hpc]
      unfold cleanTestStep
      dsimp only
      split
      · exact Nat.le_refl _
      · cases caller <;> exact Nat.le_refl _
  | cleanSkip caller ctl hpc =>
      rw [hpc]
      unfold cleanSkipStep
      dsimp only
      split
      · simp only [TxPc.entering]
        omega
      · simp only [TxPc.entering]
        omega
  | cleanMark caller ctl hpc =>
      rw [hpc]
      exact Nat.le_refl _

theorem driverStep_running {defrag : Option MbufChain} (hs : driverStep M hw defrag s = some s') :
    s'.running = s.running := by
  cases driverStep_stepped hs with
  | dequeue _ hdeq => cases hdeq <;> rfl
  | fill segs i store => cases store <;> rfl
  | cleanTest =>
      unfold cleanTestStep
      dsimp only
      split <;> rfl
  | cleanSkip =>
      unfold cleanSkipStep
      dsimp only
      split <;> rfl
  | _ => rfl

/-- The driver by itself, with what `m_defrag` returns in its steps. -/
def driverEvents (ds : List (Option MbufChain)) : List RingEvent :=
  ds.map fun d => .tx (.driver d)

theorem cleaning_run {ds : List (Option MbufChain)} (h : Cleaning t.tx) (hsent : AllSent M t.tx)
    (hr : (ringSystem M hw).run t (driverEvents ds) = some u) :
    Cleaning u.tx ∧ u.tx.sendq = t.tx.sendq ∧ u.tx.running = t.tx.running ∧
      u.detached = t.detached := by
  induction ds generalizing t with
  | nil =>
      cases hr
      exact ⟨h, rfl, rfl, rfl⟩
  | cons d ds ih =>
      rw [driverEvents, List.map_cons, System.run_cons, Option.bind_eq_some_iff] at hr
      obtain ⟨w, hw', hr⟩ := hr
      obtain ⟨w', hstep, rfl⟩ := Option.map_eq_some_iff.mp hw'
      obtain ⟨hd, hs⟩ := Option.ite_none_right_eq_some.mp hstep
      obtain ⟨hclean, hall, hq⟩ := h.step hsent hd hs
      obtain ⟨h1, h2, h3, h4⟩ := ih hclean hall hr
      refine ⟨h1, h2.trans hq, h3.trans (driverStep_running hs), h4.trans ?_⟩
      simp

/-- The driver and the hardware. -/
def RingEvent.drives : RingEvent → Bool
  | .tx (.driver _) | .complete _ _ => true
  | _ => false

theorem ringStep_serving {e : RingEvent} (hreach : (ringSystem M hw).Reachable t)
    (he : e.drives = true) (h : Serving t.tx) (hs : ringStep M hw t e = some u) :
    Serving u.tx ∧ ringLoad u.tx ≤ ringLoad t.tx := by
  obtain ⟨D, U, hinv⟩ := ring_reachable_inv hreach
  cases e with
  | complete i ctl =>
      obtain ⟨-, ht⟩ := Option.ite_none_right_eq_some.mp hs
      cases ht
      exact ⟨h, Nat.le_refl _⟩
  | tx e =>
      obtain ⟨u', hu, rfl⟩ := Option.map_eq_some_iff.mp hs
      cases e with
      | driver defrag =>
          obtain ⟨hd, hstep⟩ := Option.ite_none_right_eq_some.mp hu
          exact ⟨h.step hstep, driverStep_load hinv hd hstep⟩
      | _ => cases he

theorem serving_run {es : List RingEvent} (hreach : (ringSystem M hw).Reachable t)
    (hes : ∀ e ∈ es, e.drives = true) (h : Serving t.tx)
    (hr : (ringSystem M hw).run t es = some u) :
    Serving u.tx ∧ ringLoad u.tx ≤ ringLoad t.tx := by
  induction es generalizing t with
  | nil =>
      cases hr
      exact ⟨h, Nat.le_refl _⟩
  | cons e es ih =>
      rw [System.run_cons, Option.bind_eq_some_iff] at hr
      obtain ⟨w, hw', hr⟩ := hr
      obtain ⟨hserve, hload⟩ := ringStep_serving hreach (hes e List.mem_cons_self) h hw'
      obtain ⟨h1, h2⟩ := ih (hreach.step hw') (fun f hf => hes f (List.mem_cons_of_mem e hf))
        hserve hr
      exact ⟨h1, h2.trans hload⟩

theorem transmit_ring_full (h : (ringSystem M hw).Reachable t) : FullWhenActive t := by
  apply h.invariant
  · rintro t rfl _ _ hrun
    cases hrun
  · intro t e t' hf (hs : ringStep M hw t e = some t')
    exact ringStep_full hf hs

/-- **A round makes room.** When the hardware is done with the ring, `clean_tx`,
called from the interrupt handler, empties it and clears `OACTIVE`, and
`start_locked` after that leaves the send queue empty or 62 packets shorter,
whatever the hardware completes meanwhile. -/
theorem tx_round {ds : List (Option MbufChain)} {es : List RingEvent}
    (h : (ringSystem M hw).Reachable t) (hrun : t.tx.running = true) (hdet : t.detached = false)
    (hsent : oldestUncompleted M (storedRing M t.tx) (handedOver t.tx) t.tx.txringTlPtr true = none)
    (hclean : (ringSystem M hw).run t (.tx .clean :: driverEvents ds) = some u)
    (hu : u.tx.pc = .idle) (hes : ∀ e ∈ es, e.drives = true)
    (hstart : (ringSystem M hw).run u (.tx .start :: es) = some v) (hv : v.tx.pc = .idle) :
    u.tx.txringQueued = 0 ∧ u.tx.oactive = false ∧
      (v.tx.sendq = [] ∨ v.tx.sendq.length + 62 ≤ t.tx.sendq.length) := by
  obtain ⟨D, U, hinv⟩ := ring_reachable_inv h
  have hreachu := h.run hclean
  -- `clean_tx`
  rw [System.run_cons, Option.bind_eq_some_iff] at hclean
  obtain ⟨w, hw', hclean⟩ := hclean
  have hreachw := h.step hw'
  obtain ⟨w', hcalled, rfl⟩ := Option.map_eq_some_iff.mp hw'
  obtain ⟨hpc, ht⟩ := Option.ite_none_right_eq_some.mp hcalled
  cases ht
  have hsentw : AllSent M { t.tx with pc := .cleanTest .intr } := by
    obtain ⟨D, hD⟩ := allSent_of_none hinv hsent
    have hat := hD.atPc
    rw [hpc] at hat
    exact ⟨D, ⟨hat.window, hat.head, hat.count⟩, hD.short⟩
  have hcleanw : Cleaning { t.tx with pc := .cleanTest .intr } := rfl
  obtain ⟨hcl, hq, hr, hde⟩ := cleaning_run hcleanw hsentw hclean
  have hzero : u.tx.txringQueued = 0 := by
    unfold Cleaning at hcl
    rw [hu] at hcl
    exact hcl
  have hactive : u.tx.oactive = false := by
    have hfull := (transmit_ring_full hreachu) (by rw [hu]; rfl) (by simpa [hdet] using hde)
      (hr.trans hrun)
    by_contra hset
    have := hfull (Bool.eq_true_of_not_eq_false hset)
    omega
  refine ⟨hzero, hactive, ?_⟩
  -- `start_locked`
  rw [System.run_cons, Option.bind_eq_some_iff] at hstart
  obtain ⟨x, hx, hstart⟩ := hstart
  have hreachx := hreachu.step hx
  obtain ⟨x', hcalled, rfl⟩ := Option.map_eq_some_iff.mp hx
  obtain ⟨-, ht⟩ := Option.ite_none_right_eq_some.mp hcalled
  rw [hactive] at ht
  cases ht
  obtain ⟨hserve, hload⟩ := serving_run hreachx hes trivial hstart
  unfold Serving at hserve
  rw [hv] at hserve
  rcases hserve with hempty | hfull
  · exact Or.inl hempty
  · refine Or.inr ?_
    unfold ringLoad at hload
    rw [hv] at hload
    simp only [TxPc.entering, Bool.false_eq_true, if_false, hq, hzero] at hload
    omega

theorem tx_round_two : ∃ t u v, (ringSystem sampleTxMasks .version1).run
      ⟨setupDescs sampleTxMasks .version1, false⟩ oneSentRun = some t ∧
    (ringSystem sampleTxMasks .version1).run t
      (.tx .clean :: driverEvents (List.replicate 3 none)) = some u ∧
    (ringSystem sampleTxMasks .version1).run u
      (.tx .start :: driverEvents (List.replicate 8 none)) = some v ∧
    u.tx.txringQueued = 0 ∧
    (v.tx.sendq = [] ∨ v.tx.sendq.length + 62 ≤ t.tx.sendq.length) := by
  have hfirst : ((ringSystem sampleTxMasks .version1).run
      ⟨setupDescs sampleTxMasks .version1, false⟩ oneSentRun).map (fun t =>
        (t.tx.running, t.detached, oldestUncompleted sampleTxMasks (storedRing sampleTxMasks t.tx)
          (handedOver t.tx) t.tx.txringTlPtr true)) = some (true, false, none) := by
    decide
  have hsecond : ((ringSystem sampleTxMasks .version1).run
      ⟨setupDescs sampleTxMasks .version1, false⟩ (oneSentRun ++
        (.tx .clean :: driverEvents (List.replicate 3 none)))).map (fun u => u.tx.pc) =
      some .idle := by
    decide
  have hthird : ((ringSystem sampleTxMasks .version1).run
      ⟨setupDescs sampleTxMasks .version1, false⟩ (oneSentRun ++
        (.tx .clean :: driverEvents (List.replicate 3 none)) ++
        (.tx .start :: driverEvents (List.replicate 8 none)))).map (fun v => v.tx.pc) =
      some .idle := by
    decide
  obtain ⟨t, ht, hq⟩ := Option.map_eq_some_iff.mp hfirst
  simp only [Prod.mk.injEq] at hq
  obtain ⟨u, hu, hupc⟩ := Option.map_eq_some_iff.mp hsecond
  obtain ⟨v, hv, hvpc⟩ := Option.map_eq_some_iff.mp hthird
  rw [System.run_append, hu, Option.bind_some] at hv
  rw [System.run_append, ht, Option.bind_some] at hu
  have hround := tx_round (System.reachable_of_run _ rfl ht) hq.1 hq.2.1 hq.2.2 hu hupc
    (List.forall_iff_forall_mem.mp (by decide)) hv hvpc
  exact ⟨t, u, v, ht, hu, hv, hround.1, hround.2.2⟩

end Phytium.Xmac
