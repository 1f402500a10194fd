import PhytiumSdk.Xmac.TxInvariant

/-!
# The transmit ring, read off the descriptors

The window as any reader of the ring finds it: `walk` follows the `WRAP` bits
from the tail pointer. `ringSystem` runs the driver with a hardware that
completes the oldest uncompleted frame, found by the same walk, and
`anyRingSystem` does so with packets of any length. As long as no length runs
into the control bits of its descriptor, in all reachable states the window is
a sequence of whole frames that ends at the head pointer, and everything outside
it is the driver's.
-/

namespace Phytium.Xmac

open Lib Lib.Mask

variable {M : TxbufMasks} {hw : XmacHw} {r : ℕ → TxDesc} {s s' : TxState}
  {D U W : List (List Seg)} {w : List Seg} {p n m : ℕ} {isUsed : Bool}

/-! ## Walking the ring -/

/-- The `n` descriptors from `p` on, following `WRAP`. -/
def walk (M : TxbufMasks) (r : ℕ → TxDesc) : ℕ → ℕ → List ℕ
  | 0, _ => []
  | n + 1, p => p :: walk M r n (behind M (r p).ctl p)

/-- The descriptor behind them. -/
def walkEnd (M : TxbufMasks) (r : ℕ → TxDesc) : ℕ → ℕ → ℕ
  | 0, p => p
  | n + 1, p => walkEnd M r n (behind M (r p).ctl p)

/-- `f` ends with the one of its descriptors that has `LAST`. -/
def WholeFrame (M : TxbufMasks) (r : ℕ → TxDesc) (f : List ℕ) : Prop :=
  ∃ front l, f = front ++ [l] ∧ has (r l).ctl M.last = true ∧
    ∀ i ∈ front, has (r i).ctl M.last = false

/-- The first descriptor of the oldest uncompleted frame among the `n`
descriptors from `p` on: `first` tells whether a frame starts at `p`. -/
def oldestUncompleted (M : TxbufMasks) (r : ℕ → TxDesc) : ℕ → ℕ → Bool → Option ℕ
  | 0, _, _ => none
  | n + 1, p, first =>
      if first && !has (r p).ctl M.used then some p
      else oldestUncompleted M r n (behind M (r p).ctl p) (has (r p).ctl M.last)

theorem walk_add : ∀ {m p : ℕ}, walk M r (m + n) p = walk M r m p ++ walk M r n (walkEnd M r m p)
  | 0, p => by
      rw [Nat.zero_add]
      rfl
  | m + 1, p => by
      rw [Nat.succ_add, walk, walk_add]
      rfl

theorem walkEnd_add : ∀ {m p : ℕ}, walkEnd M r (m + n) p = walkEnd M r n (walkEnd M r m p)
  | 0, p => by
      rw [Nat.zero_add]
      rfl
  | m + 1, p => by
      rw [Nat.succ_add, walkEnd, walkEnd_add]
      rfl

theorem length_walk : ∀ {n p : ℕ}, (walk M r n p).length = n
  | 0, _ => rfl
  | n + 1, p => by rw [walk, List.length_cons, length_walk]

/-- Over one frame the walk goes from descriptor to descriptor. -/
theorem walk_frame : ∀ {w : List Seg} {p : ℕ} {isUsed : Bool}, FrameAt M r p w isUsed → w ≠ [] →
    walk M r w.length p = List.range' p w.length ∧
    walkEnd M r w.length p = behindFrame p w.length
  | [], _, _, _, hne => absurd rfl hne
  | [g], p, _, h, _ => by
      refine ⟨rfl, ?_⟩
      show behind M (r p).ctl p = behindFrame p 1
      exact h.1.behind_last
  | g :: g' :: gs, p, _, h, _ => by
      obtain ⟨hwalk, hend⟩ := walk_frame h.2 (List.cons_ne_nil _ _)
      rw [List.length_cons, walk, walkEnd, h.1.behind_mid, hwalk, hend, List.range'_succ]
      exact ⟨rfl, LapRing.next_succ⟩

theorem walk_frames : ∀ {W : List (List Seg)} {p : ℕ}, Frames M r isUsed p W → (∀ w ∈ W, w ≠ []) →
    walk M r (descs W) p = slots p W ∧ walkEnd M r (descs W) p = after p W
  | [], _, _, _ => ⟨rfl, rfl⟩
  | w :: W, p, h, hne => by
      obtain ⟨hw, he⟩ := walk_frame h.1 (hne w List.mem_cons_self)
      obtain ⟨ihw, ihe⟩ := walk_frames h.2 fun v hv => hne v (List.mem_cons_of_mem _ hv)
      rw [descs_cons, walk_add, walkEnd_add, hw, he, ihw, ihe]
      exact ⟨rfl, rfl⟩

theorem wholeFrame_range : ∀ {w : List Seg} {p : ℕ} {isUsed : Bool}, FrameAt M r p w isUsed →
    w ≠ [] → WholeFrame M r (List.range' p w.length)
  | [], _, _, _, hne => absurd rfl hne
  | [g], p, _, h, _ => ⟨[], p, rfl, h.1.last, by simp⟩
  | g :: g' :: gs, p, _, h, _ => by
      obtain ⟨front, l, heq, hl, hfront⟩ := wholeFrame_range h.2 (List.cons_ne_nil _ _)
      refine ⟨p :: front, l, ?_, hl, ?_⟩
      · rw [List.length_cons, List.range'_succ, heq, List.cons_append]
      · intro i hi
        rcases List.mem_cons.mp hi with rfl | hi
        · exact h.1.last
        · exact hfront i hi

theorem wholeFrames_slots : ∀ {W : List (List Seg)} {p : ℕ}, Frames M r isUsed p W →
    (∀ w ∈ W, w ≠ []) → ∃ fs : List (List ℕ), slots p W = fs.flatten ∧ ∀ f ∈ fs, WholeFrame M r f
  | [], _, _, _ => ⟨[], rfl, by simp⟩
  | w :: W, p, h, hne => by
      obtain ⟨fs, heq, hfs⟩ := wholeFrames_slots h.2 fun v hv => hne v (List.mem_cons_of_mem _ hv)
      refine ⟨List.range' p w.length :: fs, ?_, ?_⟩
      · rw [slots, List.map_cons, LapRing.cells_cons, List.flatten_cons, ← heq]
      · intro f hf
        rcases List.mem_cons.mp hf with rfl | hf
        · exact wholeFrame_range h.1 (hne w List.mem_cons_self)
        · exact hfs f hf

/-- The search passes over a completed frame, and over the rest of any frame. -/
theorem oldestUncompleted_frame : ∀ {w : List Seg} {p : ℕ} {isUsed first : Bool},
    FrameAt M r p w isUsed → w ≠ [] → (first && !isUsed) = false →
    oldestUncompleted M r (w.length + n) p first =
      oldestUncompleted M r n (behindFrame p w.length) true
  | [], _, _, _, _, hne, _ => absurd rfl hne
  | [g], p, _, _, h, _, hf => by
      rw [List.length_singleton, Nat.add_comm, oldestUncompleted, h.1.used, hf, h.1.behind_last,
        h.1.last]
      rfl
  | g :: g' :: gs, p, _, _, h, _, hf => by
      rw [List.length_cons, Nat.succ_add, oldestUncompleted, h.1.used, hf, h.1.behind_mid, h.1.last]
      have ih : oldestUncompleted M r ((g' :: gs).length + n) (p + 1) false =
          oldestUncompleted M r n (behindFrame (p + 1) (g' :: gs).length) true :=
        oldestUncompleted_frame h.2 (List.cons_ne_nil _ _) rfl
      rw [behindFrame, LapRing.next_succ] at ih
      exact ih

theorem oldestUncompleted_completed : ∀ {D : List (List Seg)} {p : ℕ}, Frames M r true p D →
    (∀ w ∈ D, w ≠ []) →
    oldestUncompleted M r (descs D + n) p true = oldestUncompleted M r n (after p D) true
  | [], p, _, _ => by
      rw [show descs [] = 0 from rfl, Nat.zero_add]
      rfl
  | w :: D, p, h, hne => by
      rw [descs_cons, Nat.add_assoc, oldestUncompleted_frame h.1 (hne w List.mem_cons_self) rfl]
      exact oldestUncompleted_completed h.2 fun v hv => hne v (List.mem_cons_of_mem _ hv)

namespace Window

variable {busy : Set ℕ} {tl : ℕ}

theorem ne_nil (h : Window M r tl D U busy) : ∀ v ∈ D ++ U, v ≠ [] := by
  intro v hv
  exact List.length_pos_iff.mp (h.size hv).1

/-- **The walk** over as many descriptors as the frames have is the window. -/
theorem walk_eq (h : Window M r tl D U busy) :
    walk M r (descs (D ++ U)) tl = slots tl (D ++ U) ∧
    walkEnd M r (descs (D ++ U)) tl = after tl (D ++ U) := by
  obtain ⟨hd, he⟩ := walk_frames h.done fun v hv => h.ne_nil v (List.mem_append_left _ hv)
  obtain ⟨hu, hf⟩ := walk_frames h.todo fun v hv => h.ne_nil v (List.mem_append_right _ hv)
  rw [descs_append, walk_add, walkEnd_add, hd, he, hu, hf, slots_append, after_append]
  exact ⟨rfl, rfl⟩

theorem whole (h : Window M r tl D U busy) :
    ∃ fs : List (List ℕ), slots tl (D ++ U) = fs.flatten ∧ ∀ f ∈ fs, WholeFrame M r f := by
  obtain ⟨fs, hfs, hf⟩ :=
    wholeFrames_slots h.done fun v hv => h.ne_nil v (List.mem_append_left _ hv)
  obtain ⟨gs, hgs, hg⟩ :=
    wholeFrames_slots h.todo fun v hv => h.ne_nil v (List.mem_append_right _ hv)
  refine ⟨fs ++ gs, by rw [slots_append, hfs, hgs, List.flatten_append], ?_⟩
  intro f hmem
  rcases List.mem_append.mp hmem with hmem | hmem
  · exact hf f hmem
  · exact hg f hmem

/-- The search finds the first of the frames still to be transmitted. -/
theorem oldest_eq (h : Window M r tl D U busy) :
    oldestUncompleted M r (descs (D ++ U)) tl true =
      if U = [] then none else some (after tl D) := by
  rw [descs_append, oldestUncompleted_completed h.done
    fun v hv => h.ne_nil v (List.mem_append_left _ hv)]
  cases U with
  | nil => rfl
  | cons w U =>
      obtain ⟨g, gs, rfl⟩ := List.exists_cons_of_ne_nil (h.ne_nil w (by simp))
      rw [descs_cons, List.length_cons, Nat.succ_add, oldestUncompleted, h.todo.1.1.used]
      rfl

end Window

/-! ## The driver with its hardware -/

/-- The ring with the store done that `clean_tx` stands before: the descriptor
at the tail pointer is of a frame already completed. -/
def storedRing (M : TxbufMasks) (s : TxState) : ℕ → TxDesc :=
  match s.pc with
  | .cleanMark _ ctl => setCtl s.txring s.txringTlPtr (ctl ||| M.used)
  | _ => s.txring

/-- How many descriptors the hardware may look at: `txring_queued`, and the
frame that `start_locked` has handed over and not counted yet. -/
def handedOver (s : TxState) : ℕ :=
  match s.pc with
  | .commit segs => (s.txringQueued + segs.length).toNat
  | _ => s.txringQueued.toNat

/-- The ring's state, and whether the driver has been detached. -/
structure RingState where
  tx : TxState
  detached : Bool

inductive RingEvent where
  | tx (e : TxEvent)
  /-- the hardware stores `ctl` over the control word of descriptor `i` -/
  | complete (i : ℕ) (ctl : BitVec 32)
deriving DecidableEq, Repr

def ringStep (M : TxbufMasks) (hw : XmacHw) (s : RingState) : RingEvent → Option RingState
  | .tx e => (txStep M hw s.tx e).map fun t => ⟨t, s.detached || decide (e = .stop)⟩
  | .complete i ctl =>
      if oldestUncompleted M (storedRing M s.tx) (handedOver s.tx) s.tx.txringTlPtr true = some i ∧
          Completes M (s.tx.txring i).ctl ctl then
        some { s with tx := { s.tx with txring := setCtl s.tx.txring i ctl } }
      else none

/-- The transmit ring from `phytium_xmac_setup_descs` on. -/
def ringSystem (M : TxbufMasks) (hw : XmacHw) : System RingState RingEvent where
  init := fun s => s = ⟨setupDescs M hw, false⟩
  step := ringStep M hw

def anyRingStep (M : TxbufMasks) (hw : XmacHw) (s : RingState) : RingEvent → Option RingState
  | .tx e => (anyTxStep M hw s.tx e).map fun t => ⟨t, s.detached || decide (e = .stop)⟩
  | e => ringStep M hw s e

/-- As `ringSystem`, with packets of any shape. -/
def anyRingSystem (M : TxbufMasks) (hw : XmacHw) : System RingState RingEvent where
  init := fun s => s = ⟨setupDescs M hw, false⟩
  step := anyRingStep M hw

/-- A packet that is given descriptors has no length that runs into the control
bits. -/
def plainOk (M : TxbufMasks) (s : RingState) : RingEvent → Prop
  | .tx (.driver defrag) =>
      s.tx.pc = .dequeue → ∀ segs ∈ takenSegs defrag s.tx, ∀ g ∈ segs, M.Plain g.dsLen
  | _ => True

instance (M : TxbufMasks) (s : RingState) : (e : RingEvent) → Decidable (plainOk M s e)
  | .tx (.driver defrag) =>
      inferInstanceAs (Decidable (s.tx.pc = .dequeue →
        ∀ segs ∈ takenSegs defrag s.tx, ∀ g ∈ segs, M.Plain g.dsLen))
  | .tx (.enqueue _) | .tx .start | .tx .clean | .tx .init | .tx .down | .tx .stop
  | .complete _ _ => isTrue trivial

/-- `OACTIVE` is set when the ring is full and cleared with every frame freed. -/
def FullWhenActive (s : RingState) : Prop :=
  inFlight s.tx.pc = 0 → s.detached = false → s.tx.running = true → s.tx.oactive = true →
    496 ≤ s.tx.txringQueued

theorem AtPc.storedWindow (hat : AtPc M s D U s.pc) :
    (∃ busy, Window M (storedRing M s) s.txringTlPtr D U busy) ∧
    handedOver s = descs (D ++ U) ∧ 0 ≤ s.txringQueued := by
  unfold storedRing handedOver
  generalize hpc : s.pc = pc at hat
  have hnat : s.txringQueued = (descs (D ++ U) : ℕ) →
      s.txringQueued.toNat = descs (D ++ U) ∧ 0 ≤ s.txringQueued := by
    intro hc
    omega
  cases pc with
  | commit segs =>
      refine ⟨⟨_, hat.window⟩, ?_, hat.nonneg⟩
      have hc := hat.count
      show (s.txringQueued + segs.length).toNat = _
      omega
  | _ => exact ⟨⟨_, hat.window⟩, hnat hat.count⟩

/-- The descriptor the hardware completes is the first of the oldest frame still
to be transmitted. -/
theorem AtPc.oldest {i : ℕ} (hat : AtPc M s D U s.pc)
    (hi : oldestUncompleted M (storedRing M s) (handedOver s) s.txringTlPtr true = some i) :
    ∃ w U', U = w :: U' ∧ i = after s.txringTlPtr D := by
  obtain ⟨⟨busy, hwin⟩, hn, -⟩ := hat.storedWindow
  rw [hn, hwin.oldest_eq] at hi
  cases U with
  | nil => cases hi
  | cons w U =>
      cases hi
      exact ⟨w, U, rfl, rfl⟩

/-- **A step of the ring with its hardware** keeps the invariant. -/
theorem ringStep_inv {t t' : RingState} {e : RingEvent} (h : ∃ D U, TxInv M t.tx D U)
    (hs : ringStep M hw t e = some t') : ∃ D U, TxInv M t'.tx D U := by
  obtain ⟨D, U, h⟩ := h
  cases e with
  | tx e =>
      obtain ⟨u, hu, rfl⟩ := Option.map_eq_some_iff.mp hs
      obtain ⟨D', U', hinv, -⟩ := h.txStep hu
      exact ⟨D', U', hinv⟩
  | complete i ctl =>
      obtain ⟨⟨hi, hc⟩, ht⟩ := Option.ite_none_right_eq_some.mp hs
      cases ht
      obtain ⟨w, U, rfl, rfl⟩ := h.atPc.oldest hi
      exact ⟨D ++ [w], U, h.complete hc⟩

theorem anyRingStep_atPc {t t' : RingState} {e : RingEvent} (h : ∃ D U, AtPc M t.tx D U t.tx.pc)
    (hok : plainOk M t e) (hs : anyRingStep M hw t e = some t') :
    ∃ D U, AtPc M t'.tx D U t'.tx.pc := by
  obtain ⟨D, U, h⟩ := h
  cases e with
  | tx e =>
      obtain ⟨u, hu, rfl⟩ := Option.map_eq_some_iff.mp hs
      have hsegs : ∀ defrag segs, e = .driver defrag → t.tx.pc = .dequeue →
          takenSegs defrag t.tx = some segs → SegsOk M segs := by
        rintro defrag segs rfl hpc htaken
        exact takenSegs_plain htaken (hok hpc segs htaken)
      obtain ⟨D', U', hat, -⟩ := h.anyTxStep hsegs hu
      exact ⟨D', U', hat⟩
  | complete i ctl =>
      obtain ⟨⟨hi, hc⟩, ht⟩ := Option.ite_none_right_eq_some.mp hs
      cases ht
      obtain ⟨w, U, rfl, rfl⟩ := h.oldest hi
      exact ⟨D ++ [w], U, h.complete hc⟩

theorem plain_reachable_atPc {t : RingState}
    (h : ((anyRingSystem M hw).restrict (plainOk M)).Reachable t) :
    ∃ D U, AtPc M t.tx D U t.tx.pc := by
  apply h.restrict_invariant
  · rintro t rfl
    exact ⟨[], [], setupDescs_inv.atPc⟩
  · intro t e t' _ hat hok hs
    exact anyRingStep_atPc hat hok hs

theorem ring_reachable_inv {t : RingState} (h : (ringSystem M hw).Reachable t) :
    ∃ D U, TxInv M t.tx D U := by
  apply h.invariant
  · rintro t rfl
    exact ⟨[], [], setupDescs_inv⟩
  · intro t e t' hinv (hs : ringStep M hw t e = some t')
    exact ringStep_inv hinv hs

/-! ## `OACTIVE` -/

theorem driverStep_full {defrag : Option MbufChain} {d d' : Bool}
    (hs : driverStep M hw defrag s = some s') (hd : d' = false → d = false)
    (h : FullWhenActive ⟨s, d⟩) : FullWhenActive ⟨s', d'⟩ := by
  cases driverStep_stepped hs with
  | room hpc =>
      rcases hpc with hpc | hpc
      all_goals exact fun _ h2 => h (by rw [hpc]; rfl) (hd h2)
  | reclaim hpc => exact fun _ h2 => h (by rw [hpc]; rfl) (hd h2)
  | full _ hsp => exact fun _ _ _ _ => noSpace_iff.mp hsp
  | dequeue hpc hdeq =>
      have h' := h (by rw [hpc]; rfl)
      cases hdeq <;> exact fun _ h2 => h' (hd h2)
  | fill segs i store hpc =>
      intro _ h2
      cases store <;> exact h (by rw [hpc]; rfl) (hd h2)
  | commit segs hpc =>
      intro _ h2 h3 h4
      have hle := h (by rw [hpc]; rfl) (hd h2) h3 h4
      show 496 ≤ s.txringQueued + segs.length
      dsimp only at hle
      omega
  | cleanTest caller hpc =>
      unfold cleanTestStep
      dsimp only
      split
      · intro h1
        cases h1
      · intro _ h2
        exact h (by rw [hpc]; rfl) (hd h2)
  | cleanSkip =>
      unfold cleanSkipStep
      dsimp only
      split
      · intro _ _ _ h4
        cases h4
      · intro h1
        cases h1
  | cleanMark =>
      intro h1
      cases h1

theorem anyRingStep_full {t t' : RingState} {e : RingEvent} (h : FullWhenActive t)
    (hs : anyRingStep M hw t e = some t') : FullWhenActive t' := by
  cases e with
  | complete i ctl =>
      obtain ⟨-, ht⟩ := Option.ite_none_right_eq_some.mp hs
      cases ht
      exact h
  | tx e =>
      obtain ⟨u, hu, rfl⟩ := Option.map_eq_some_iff.mp hs
      cases e with
      | enqueue m =>
          cases hu
          intro h1 h2
          exact h h1 ((Bool.or_eq_false_iff.mp h2).1)
      | start =>
          obtain ⟨hpc, ht⟩ := Option.ite_none_right_eq_some.mp hu
          cases ht
          intro _ h2
          exact h (by rw [hpc]; rfl) ((Bool.or_eq_false_iff.mp h2).1)
      | clean =>
          obtain ⟨hpc, ht⟩ := Option.ite_none_right_eq_some.mp hu
          cases ht
          intro _ h2
          exact h (by rw [hpc]; rfl) ((Bool.or_eq_false_iff.mp h2).1)
      | driver defrag => exact driverStep_full hu (fun h2 => (Bool.or_eq_false_iff.mp h2).1) h
      | init =>
          obtain ⟨hpc, ht⟩ := Option.ite_none_right_eq_some.mp hu
          cases ht
          unfold initTx
          split
          · intro h1 h2
            exact h h1 ((Bool.or_eq_false_iff.mp h2).1)
          · intro _ _ _ h4
            cases h4
      | down =>
          obtain ⟨hpc, ht⟩ := Option.ite_none_right_eq_some.mp hu
          cases ht
          split
          · intro _ _ h3
            cases h3
          · intro h1 h2
            exact h h1 ((Bool.or_eq_false_iff.mp h2).1)
      | stop =>
          intro _ h2
          rw [Bool.or_eq_false_iff] at h2
          cases h2.2

theorem ringStep_any {t t' : RingState} {e : RingEvent} (hs : ringStep M hw t e = some t') :
    anyRingStep M hw t e = some t' := by
  cases e with
  | tx e =>
      obtain ⟨u, hu, rfl⟩ := Option.map_eq_some_iff.mp hs
      exact Option.map_eq_some_iff.mpr ⟨u, txStep_any hu, rfl⟩
  | complete i ctl => exact hs

theorem ringStep_full {t t' : RingState} {e : RingEvent} (h : FullWhenActive t)
    (hs : ringStep M hw t e = some t') : FullWhenActive t' :=
  anyRingStep_full h (ringStep_any hs)

/-! ## The inner loop of `clean_tx` -/

/-- The driver takes `n` steps. -/
def driverRun (M : TxbufMasks) (hw : XmacHw) : ℕ → TxState → Option TxState
  | 0, s => some s
  | n + 1, s => (driverStep M hw none s).bind (driverRun M hw n)

/-- **The inner loop stops**: each pass leaves one descriptor less to count. -/
theorem innerLoop_stops : ∀ (k : ℕ) {s : TxState} {D U : List (List Seg)} {caller : CleanCaller}
    {ctl : BitVec 32}, AtPc M s D U s.pc → s.pc = .cleanSkip caller ctl → s.txringQueued ≤ k →
    ∃ n t, n ≤ 2 * k ∧ driverRun M hw n s = some t ∧ t.pc = .cleanTest caller := by
  intro k
  induction k with
  | zero =>
      intro s D U caller ctl h hpc hk
      rw [hpc] at h
      -- the frame being freed still has a descriptor in the window
      obtain ⟨w, D, rfl⟩ := List.exists_cons_of_ne_nil h.freeing
      have hlen := (h.window.size (w := w) (by simp)).1
      have hcount := h.count
      rw [List.cons_append, descs_cons] at hcount
      omega
  | succ k ih =>
      intro s D U caller ctl h hpc hk
      have hskip : driverStep M hw none s = some (cleanSkipStep M s caller ctl) := by
        rw [driverStep, hpc]
      obtain ⟨D', U', h', -⟩ := h.driverStep (by simp [hpc]) hskip
      by_cases hl : has ctl M.last = true
      · refine ⟨1, cleanSkipStep M s caller ctl, by omega, by rw [driverRun, hskip]; rfl, ?_⟩
        simp [cleanSkipStep, hl]
      · obtain ⟨c, hpc'⟩ : ∃ c, (cleanSkipStep M s caller ctl).pc = .cleanMark caller c := by
          refine ⟨(s.txring (behind M ctl s.txringTlPtr)).ctl, ?_⟩
          simp [cleanSkipStep, hl]
        have hq : (cleanSkipStep M s caller ctl).txringQueued = s.txringQueued - 1 := by
          simp [cleanSkipStep, hl]
        have hmark : driverStep M hw none (cleanSkipStep M s caller ctl) =
            some (cleanMarkStep M (cleanSkipStep M s caller ctl) caller c) := by
          rw [driverStep, hpc']
        obtain ⟨D'', U'', h'', -⟩ := h'.driverStep (by simp [hpc']) hmark
        obtain ⟨n, t, hn, hrun, ht⟩ := ih h'' rfl (by
          show (cleanSkipStep M s caller ctl).txringQueued ≤ k
          omega)
        refine ⟨n + 2, t, by omega, ?_, ht⟩
        rw [driverRun, hskip, Option.bind_some, driverRun, hmark, Option.bind_some]
        exact hrun

/-! ## The ring between operations -/

/-- The window: the descriptors counted by `txring_queued`, from the tail
pointer on. -/
def window (M : TxbufMasks) (s : TxState) : List ℕ :=
  walk M s.txring s.txringQueued.toNat s.txringTlPtr

/-- The transmit ring with the lock's critical section finished. -/
structure RingOk (M : TxbufMasks) (s : RingState) : Prop where
  head_le : s.tx.txringHdPtr ≤ 503
  queued_le : s.tx.txringQueued ≤ 503
  closes : walkEnd M s.tx.txring s.tx.txringQueued.toNat s.tx.txringTlPtr = s.tx.txringHdPtr
  length_eq : ((window M s.tx).length : ℤ) = s.tx.txringQueued
  nodup : (window M s.tx).Nodup
  in_ring : ∀ i ∈ window M s.tx, i < 512
  whole : ∃ fs : List (List ℕ), window M s.tx = fs.flatten ∧
    ∀ f ∈ fs, WholeFrame M s.tx.txring f
  outside : ∀ i, i ∉ window M s.tx → has (s.tx.txring i).ctl M.used = true
  head_free : s.tx.txringHdPtr ∉ window M s.tx
  full : s.detached = false → s.tx.running = true → s.tx.oactive = true →
    496 ≤ s.tx.txringQueued

/-- What holds at every access: the counters stay in range, the inner loop of
`clean_tx` stops at a `LAST` of the window, and no descriptor of the window is
written for a new frame. -/
structure RingSafe (M : TxbufMasks) (hw : XmacHw) (s : TxState) : Prop where
  queued_nonneg : 0 ≤ s.txringQueued
  tail_lt : s.txringTlPtr < 512
  last_ahead : ∀ caller ctl, s.pc = .cleanSkip caller ctl →
    ∃ i ∈ window M s, has (s.txring i).ctl M.last = true
  stops : ∀ caller ctl, s.pc = .cleanSkip caller ctl →
    ∃ n t, n ≤ 2 * s.txringQueued.toNat ∧ driverRun M hw n s = some t ∧
      t.pc = .cleanTest caller
  no_overwrite : ∀ segs i store, s.pc = .fill segs i store →
    s.txringHdPtr + i ∉ window M s

theorem Settled.ringOk {t : RingState} (h : Settled M t.tx D U) (hf : FullWhenActive t)
    (hpc : t.tx.pc = .idle) : RingOk M t := by
  obtain ⟨hwin, hhead, hcount⟩ := h
  obtain ⟨hwalk, hend⟩ := hwin.walk_eq
  have hn : t.tx.txringQueued.toNat = descs (D ++ U) := by omega
  have hw : Xmac.window M t.tx = slots t.tx.txringTlPtr (D ++ U) := by
    rw [Xmac.window, hn, hwalk]
  constructor
  · rw [hhead]
    exact hwin.head_le
  · have := hwin.total_le
    omega
  · rw [hn, hend, hhead]
  · rw [Xmac.window, length_walk]
    omega
  · rw [hw]
    exact hwin.packed.nodup
  · intro i hi
    rw [hw] at hi
    have hlt : i + 1 < 512 := hwin.packed.cells_lt i hi
    omega
  · rw [hw]
    exact hwin.whole
  · intro i hi
    rw [hw] at hi
    exact hwin.outside i hi (Set.notMem_empty i)
  · rw [hw, hhead]
    exact hwin.packed.pos_not_mem
  · exact hf (by rw [hpc]; rfl)

theorem AtPc.ringSafe (hat : AtPc M s D U s.pc) : RingSafe M hw s := by
  obtain ⟨⟨busy, hwin⟩, -, hnn⟩ := hat.storedWindow
  refine ⟨hnn, hwin.tail_lt, ?_, ?_, ?_⟩
  · intro caller ctl hpc
    rw [hpc] at hat
    obtain ⟨fs, hfs, hf⟩ := hat.window.whole
    have hcount := hat.count
    have hn : s.txringQueued.toNat = descs (D ++ U) := by omega
    obtain ⟨w, D, rfl⟩ := List.exists_cons_of_ne_nil hat.freeing
    have hlen := (hat.window.size (w := w) (by simp)).1
    rw [Xmac.window, hn, hat.window.walk_eq.1, hfs]
    cases fs with
    | nil =>
        rw [slots, List.cons_append, List.map_cons, LapRing.cells_cons, List.flatten_nil,
          List.append_eq_nil_iff, List.range'_eq_nil_iff] at hfs
        omega
    | cons f fs =>
        obtain ⟨front, l, hfl, hl, -⟩ := hf f List.mem_cons_self
        exact ⟨l, by simp [hfl], hl⟩
  · intro caller ctl hpc
    exact innerLoop_stops _ hat hpc (by omega)
  · intro segs i store hpc
    rw [hpc] at hat
    have hcount := hat.count
    have hn : s.txringQueued.toNat = descs (D ++ U) := by omega
    rw [Xmac.window, hn, hat.window.walk_eq.1, hat.head]
    exact hat.window.next_free hat.room hat.segs_ok hat.lt

/-- **The transmit ring invariant.** In every state reached with packets whose
lengths stay off the control bits, the counters are in range and `clean_tx`
stops inside the window; with the driver outside both functions the window is a
sequence of whole frames from the tail pointer to the head pointer, and all
other descriptors are the driver's. -/
theorem transmit_ring_invariant {t : RingState}
    (h : ((anyRingSystem M hw).restrict (plainOk M)).Reachable t) :
    RingSafe M hw t.tx ∧ (t.tx.pc = .idle → RingOk M t) := by
  obtain ⟨D, U, hat⟩ := plain_reachable_atPc h
  have hfull : FullWhenActive t := by
    apply h.restrict_invariant
    · rintro t rfl _ _ hrun
      cases hrun
    · intro t e t' _ hf _ hs
      exact anyRingStep_full hf hs
  refine ⟨hat.ringSafe, ?_⟩
  intro hpc
  rw [hpc] at hat
  exact hat.ringOk hfull hpc

/-- Two packets are sent, the second one mbuf that is just too long for the length
field; the first is completed and freed. -/
def twoPacketRun : List RingEvent :=
  [.tx .init, .tx (.enqueue ⟨1, ⟨⟨0x1000#64, 60⟩, [⟨0x2000#64, 40⟩]⟩⟩),
    .tx (.enqueue ⟨2, ⟨⟨0x3000#64, 0x4000⟩, []⟩⟩), .tx .start] ++
  List.replicate 18 (.tx (.driver none)) ++
  [.complete 0 (1#32 <<< 31 ||| 60#32), .tx .clean] ++
  List.replicate 5 (.tx (.driver none))

theorem transmit_ring_invariant_two_packets :
    ∃ t, ((anyRingSystem sampleTxMasks .version1).restrict (plainOk sampleTxMasks)).run
        ⟨setupDescs sampleTxMasks .version1, false⟩ twoPacketRun = some t ∧
      t.tx.pc = .idle ∧ t.tx.txringQueued = 1 ∧
      RingSafe sampleTxMasks .version1 t.tx ∧ (t.tx.pc = .idle → RingOk sampleTxMasks t) := by
  have hrun : (((anyRingSystem sampleTxMasks .version1).restrict (plainOk sampleTxMasks)).run
      ⟨setupDescs sampleTxMasks .version1, false⟩ twoPacketRun).map
        (fun t => (t.tx.pc, t.tx.txringQueued)) = some (.idle, 1) := by
    decide
  obtain ⟨t, ht, hq⟩ := Option.map_eq_some_iff.mp hrun
  rw [Prod.mk.injEq] at hq
  exact ⟨t, ht, hq.1, hq.2, transmit_ring_invariant (System.reachable_of_run _ rfl ht)⟩

/-- A packet of two mbufs is sent, the first of `n` bytes. -/
def longPacketRun (n : ℤ) : List RingEvent :=
  [.tx .init, .tx (.enqueue ⟨1, ⟨⟨0x1000#64, n⟩, [⟨0x2000#64, 40⟩]⟩⟩), .tx .start] ++
  List.replicate 12 (.tx (.driver none))

/-- A length that has the bit of `WRAP` leads every reader of the ring back to its
start, and one that has the bit of `LAST` ends the frame too early. -/
theorem long_packet_breaks_ring :
    (¬ ∀ t, (anyRingSystem sampleTxMasks .version1).Reachable t → t.tx.pc = .idle →
      RingOk sampleTxMasks t) ∧
    ∃ t, (anyRingSystem sampleTxMasks .version1).Reachable t ∧ t.tx.pc = .idle ∧
      t.tx.queuedPkts = [[⟨0x1000#64, 0x8000⟩, ⟨0x2000#64, 40⟩]] ∧
      window sampleTxMasks t.tx = [0, 1] ∧ ¬ WholeFrame sampleTxMasks t.tx.txring [0, 1] := by
  constructor
  · intro h
    have hrun : ((anyRingSystem sampleTxMasks .version1).run
        ⟨setupDescs sampleTxMasks .version1, false⟩ (longPacketRun 0x40000000)).map
          (fun t => (t.tx.pc, window sampleTxMasks t.tx)) = some (.idle, [0, 0]) := by
      decide
    obtain ⟨t, ht, hq⟩ := Option.map_eq_some_iff.mp hrun
    rw [Prod.mk.injEq] at hq
    have hnodup := (h t (System.reachable_of_run _ rfl ht) hq.1).nodup
    rw [hq.2] at hnodup
    exact absurd hnodup (by decide)
  · have hrun : ((anyRingSystem sampleTxMasks .version1).run
        ⟨setupDescs sampleTxMasks .version1, false⟩ (longPacketRun 0x8000)).map
          (fun t => (t.tx.pc, t.tx.queuedPkts, window sampleTxMasks t.tx,
            has (t.tx.txring 0).ctl sampleTxMasks.last)) =
        some (.idle, [[⟨0x1000#64, 0x8000⟩, ⟨0x2000#64, 40⟩]], [0, 1], true) := by
      decide
    obtain ⟨t, ht, hq⟩ := Option.map_eq_some_iff.mp hrun
    simp only [Prod.mk.injEq] at hq
    obtain ⟨hpc, hpkts, hwin, hlast⟩ := hq
    refine ⟨t, System.reachable_of_run _ rfl ht, hpc, hpkts, hwin, ?_⟩
    rintro ⟨front, l, heq, -, hfront⟩
    -- the first of the two descriptors has `LAST` already
    have hmem : 0 ∈ front := by
      have hdrop := congrArg List.dropLast heq
      rw [List.dropLast_concat] at hdrop
      rw [← hdrop]
      exact List.mem_cons_self
    rw [hfront 0 hmem] at hlast
    cases hlast

end Phytium.Xmac
