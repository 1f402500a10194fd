import PhytiumSdk.Xmac.Transmit

/-!
# The tail doorbell of version 2

On version 2 hardware `start_locked` writes the head pointer to the tail
register behind every packet, and `setup_descs` writes `0`. `stop` sets the
head pointer back to `0` and leaves the register alone, so behind a stop the
register names a descriptor of the ring that was thrown away, until a packet is
queued or the pointer had been `0` all along.

Neither the packets nor the hardware matter here: packets have any shape, and
the hardware stores to any descriptor at any time.
-/

namespace Phytium.Xmac

open Lib Lib.Mask

/-- The index in the low bits of the tail register. -/
def tailIndex (s : TxState) : Option ℕ :=
  s.tailQueue.map fun w => (w &&& BitVec.ofNat 32 (xmacNumTxDescs - 1)).toNat

/-- The transmit ring, and whether its head pointer was set back from another
value than `0` with no packet queued since. -/
structure DoorState where
  tx : TxState
  setBack : Bool

inductive DoorEvent where
  | tx (e : TxEvent)
  /-- the hardware stores `ctl` over a control word -/
  | store (i : ℕ) (ctl : BitVec 32)
deriving DecidableEq

/-- What becomes of `setBack`. -/
def setBackAfter (s : DoorState) : TxEvent → Bool
  | .stop => s.setBack || decide (s.tx.txringHdPtr ≠ 0)
  | .down => s.setBack || (s.tx.running && decide (s.tx.txringHdPtr ≠ 0))
  | .driver _ =>
      match s.tx.pc with
      | .commit _ => false
      | _ => s.setBack
  | _ => s.setBack

def doorStep (M : TxbufMasks) (s : DoorState) : DoorEvent → Option DoorState
  | .tx e => (anyTxStep M .version2 s.tx e).map fun t => ⟨t, setBackAfter s e⟩
  | .store i ctl => some { s with tx := { s.tx with txring := setCtl s.tx.txring i ctl } }

/-- The ring of version 2 from `phytium_xmac_setup_descs` on. -/
def doorSystem (M : TxbufMasks) : System DoorState DoorEvent where
  init := fun s => s = ⟨setupDescs M .version2, false⟩
  step := doorStep M

/-- In a running interface with the lock free the register has the head
pointer. -/
def DoorCoherent (s : DoorState) : Prop :=
  s.tx.pc = .idle → s.tx.running = true → tailIndex s.tx = some s.tx.txringHdPtr

instance (s : DoorState) : Decidable (DoorCoherent s) := by
  unfold DoorCoherent
  infer_instance

/-- The interface is not brought up with the head pointer set back, and not
stopped while it is marked as running, unless the head pointer is `0`. -/
def doorOk (s : DoorState) : DoorEvent → Prop
  | .tx .init => s.tx.running = true ∨ s.setBack = false
  | .tx .stop => s.tx.running = false ∨ s.tx.txringHdPtr = 0
  | _ => True

instance (s : DoorState) (e : DoorEvent) : Decidable (doorOk s e) := by
  unfold doorOk
  split <;> infer_instance

variable {M : TxbufMasks} {hw : XmacHw} {s s' : TxState} {t t' : DoorState}

/-! ## What a step does to the head pointer -/

/-- A step that leaves the head pointer and the register alone. -/
structure HeadSame (s s' : TxState) : Prop where
  head : s'.txringHdPtr = s.txringHdPtr
  tail : s'.tailQueue = s.tailQueue
  running : s'.running = s.running

/-- Only where the head pointer moves is the register written. -/
theorem driverStep_head {defrag : Option MbufChain} (hs : driverStep M hw defrag s = some s') :
    (∃ segs, s.pc = .commit segs ∧ s' = commitStep hw s segs) ∨
    ((∀ segs, s.pc ≠ .commit segs) ∧ HeadSame s s') := by
  cases driverStep_stepped hs with
  | commit segs hpc => exact Or.inl ⟨segs, hpc, rfl⟩
  | room hpc =>
      right
      rcases hpc with hpc | hpc
      all_goals exact ⟨by simp [hpc], rfl, rfl, rfl⟩
  | reclaim hpc => exact Or.inr ⟨by simp [hpc], rfl, rfl, rfl⟩
  | full hpc => exact Or.inr ⟨by simp [hpc], rfl, rfl, rfl⟩
  | dequeue hpc hd =>
      right
      refine ⟨by simp [hpc], ?_⟩
      cases hd <;> exact ⟨rfl, rfl, rfl⟩
  | fill segs i store hpc =>
      right
      refine ⟨by simp [hpc], ?_⟩
      cases store <;> exact ⟨rfl, rfl, rfl⟩
  | cleanTest caller hpc =>
      right
      refine ⟨by simp [hpc], ?_⟩
      unfold cleanTestStep
      dsimp only
      split <;> exact ⟨rfl, rfl, rfl⟩
  | cleanSkip caller ctl hpc =>
      right
      refine ⟨by simp [hpc], ?_⟩
      unfold cleanSkipStep
      dsimp only
      split <;> exact ⟨rfl, rfl, rfl⟩
  | cleanMark caller ctl hpc => exact Or.inr ⟨by simp [hpc], rfl, rfl, rfl⟩

/-- The head pointer never comes within a packet of the end of the ring, so
the mask on the index does nothing. -/
theorem tailIndex_commit (s : TxState) (segs : List Seg) :
    tailIndex (commitStep .version2 s segs) = some (commitStep .version2 s segs).txringHdPtr := by
  have hindex : ∀ n, n < 512 →
      ((1#32 <<< 31 ||| BitVec.ofNat 32 (n &&& 511)) &&& BitVec.ofNat 32 511).toNat = n := by
    intro n hn
    have hlow : n &&& 511 = n % 512 := Nat.and_two_pow_sub_one_eq_mod n 9
    have htop : (1#32 <<< 31 &&& BitVec.ofNat 32 511 : BitVec 32) = 0#32 := by
      decide
    have hmask : n % 2 ^ 32 &&& 511 = n % 2 ^ 32 % 512 := Nat.and_two_pow_sub_one_eq_mod _ 9
    rw [BitVec.and_or_distrib_right, htop, BitVec.zero_or, hlow, Nat.mod_eq_of_lt hn,
      BitVec.toNat_and, BitVec.toNat_ofNat, BitVec.toNat_ofNat]
    show n % 2 ^ 32 &&& 511 = n
    omega
  apply congrArg some
  apply hindex
  show (if wraps s.txringHdPtr segs.length then 0 else s.txringHdPtr + segs.length) < 512
  split
  · omega
  · rename_i hw
    have hroom : ¬ 512 ≤ s.txringHdPtr + segs.length + 8 := by
      intro hle
      exact hw (decide_eq_true hle)
    omega

/-! ## Every run -/

/-- The register has the head pointer unless that has been set back; then it
has another value than the `0` the head pointer was set to, and the interface
is down. -/
structure DoorInv (t : DoorState) : Prop where
  agree : t.setBack = false → tailIndex t.tx = some t.tx.txringHdPtr
  apart : t.setBack = true →
    t.tx.txringHdPtr = 0 ∧ tailIndex t.tx ≠ some 0 ∧ t.tx.running = false

theorem DoorInv.same (h : DoorInv t) (hk : HeadSame t.tx s) : DoorInv ⟨s, t.setBack⟩ := by
  have htail : tailIndex s = tailIndex t.tx := by
    rw [tailIndex, tailIndex, hk.tail]
  constructor
  · intro hb
    rw [htail, hk.head]
    exact h.agree hb
  · intro hb
    rw [htail, hk.head, hk.running]
    exact h.apart hb

/-- Setting the head pointer back from another value separates the two. -/
theorem DoorInv.setBack {u : TxState} (h : DoorInv t) (hhead : u.txringHdPtr = 0)
    (htail : u.tailQueue = t.tx.tailQueue) :
    ((t.setBack || decide (t.tx.txringHdPtr ≠ 0)) = false → tailIndex u = some u.txringHdPtr) ∧
    ((t.setBack || decide (t.tx.txringHdPtr ≠ 0)) = true → tailIndex u ≠ some 0) := by
  have hindex : tailIndex u = tailIndex t.tx := by
    rw [tailIndex, tailIndex, htail]
  rw [hindex, hhead]
  constructor
  · intro hb
    obtain ⟨hback, hzero⟩ := Bool.or_eq_false_iff.mp hb
    have hz : t.tx.txringHdPtr = 0 := by simpa using hzero
    rw [h.agree hback, hz]
  · intro hb
    cases hback : t.setBack with
    | true => exact (h.apart hback).2.1
    | false =>
        rw [hback, Bool.false_or, decide_eq_true_iff] at hb
        rw [h.agree hback]
        exact fun he => hb (Option.some.inj he)

theorem DoorInv.step {e : DoorEvent} (h : DoorInv t) (hok : doorOk t e)
    (hs : doorStep M t e = some t') : DoorInv t' := by
  cases e with
  | store i ctl =>
      cases hs
      exact h.same ⟨rfl, rfl, rfl⟩
  | tx e =>
      obtain ⟨u, hu, rfl⟩ := Option.map_eq_some_iff.mp hs
      cases e with
      | enqueue m =>
          cases hu
          exact h.same ⟨rfl, rfl, rfl⟩
      | start =>
          obtain ⟨-, ht⟩ := Option.ite_none_right_eq_some.mp hu
          cases ht
          exact h.same ⟨rfl, rfl, rfl⟩
      | clean =>
          obtain ⟨-, ht⟩ := Option.ite_none_right_eq_some.mp hu
          cases ht
          exact h.same ⟨rfl, rfl, rfl⟩
      | driver defrag =>
          rcases driverStep_head hu with ⟨segs, hpc, rfl⟩ | ⟨hpc, hk⟩
          · have hback : setBackAfter t (.driver defrag) = false := by
              rw [setBackAfter, hpc]
            rw [hback]
            exact ⟨fun _ => tailIndex_commit t.tx segs, fun hb => Bool.noConfusion hb⟩
          · have hback : setBackAfter t (.driver defrag) = t.setBack := by
              show (match t.tx.pc with | .commit _ => false | _ => t.setBack) = t.setBack
              split
              · rename_i segs hseg
                exact absurd hseg (hpc segs)
              · rfl
            rw [hback]
            exact h.same hk
      | init =>
          obtain ⟨-, ht⟩ := Option.ite_none_right_eq_some.mp hu
          cases ht
          unfold initTx
          split
          · exact h.same ⟨rfl, rfl, rfl⟩
          · rename_i hr
            have hback : t.setBack = false := hok.resolve_left hr
            refine ⟨fun _ => h.agree hback, fun hb => ?_⟩
            exact absurd (hback.symm.trans hb) Bool.false_ne_true
      | down =>
          obtain ⟨-, ht⟩ := Option.ite_none_right_eq_some.mp hu
          cases ht
          cases hr : t.tx.running with
          | true =>
              simp only [setBackAfter, hr, if_true, Bool.true_and]
              obtain ⟨hagree, hapart⟩ :=
                h.setBack (u := stopTx M { t.tx with running := false }) rfl rfl
              exact ⟨hagree, fun hb => ⟨rfl, hapart hb, rfl⟩⟩
          | false =>
              simp only [setBackAfter, hr, Bool.false_and, Bool.or_false]
              exact h.same ⟨rfl, rfl, rfl⟩
      | stop =>
          obtain ⟨-, ht⟩ := Option.ite_none_right_eq_some.mp hu
          cases ht
          obtain ⟨hagree, hapart⟩ := h.setBack (u := stopTx M t.tx) rfl rfl
          refine ⟨hagree, fun hb => ⟨rfl, hapart hb, ?_⟩⟩
          rcases hok with hok | hok
          · exact hok
          · have hback : t.setBack = true := by
              simpa [setBackAfter, hok] using hb
            exact (h.apart hback).2.2

theorem door_reachable_inv (h : ((doorSystem M).restrict doorOk).Reachable t) : DoorInv t := by
  apply h.restrict_invariant
  · rintro t rfl
    exact ⟨fun _ => rfl, fun hb => Bool.noConfusion hb⟩
  · intro t e t' _ hi hok hs
    exact hi.step hok hs

theorem DoorInv.coherent (h : DoorInv t) : DoorCoherent t := by
  intro _ hr
  cases hback : t.setBack with
  | false => exact h.agree hback
  | true => exact absurd (hr.symm.trans (h.apart hback).2.2) Bool.noConfusion

/-- Either way of leaving the condition shows at once. -/
theorem DoorInv.incoherent {e : DoorEvent} (h : DoorInv t) (hok : ¬ doorOk t e)
    (hs : doorStep M t e = some t') : ¬ DoorCoherent t' := by
  cases e with
  | store i ctl => exact absurd trivial hok
  | tx e =>
      obtain ⟨u, hu, rfl⟩ := Option.map_eq_some_iff.mp hs
      cases e with
      | init =>
          obtain ⟨hpc, ht⟩ := Option.ite_none_right_eq_some.mp hu
          cases ht
          obtain ⟨hr, hb⟩ := not_or.mp hok
          obtain ⟨hzero, hne, -⟩ := h.apart (Bool.eq_true_of_not_eq_false hb)
          intro hc
          unfold initTx at hc
          rw [if_neg hr] at hc
          exact hne (hzero ▸ hc hpc rfl)
      | stop =>
          obtain ⟨hpc, ht⟩ := Option.ite_none_right_eq_some.mp hu
          cases ht
          obtain ⟨hr, hne⟩ := not_or.mp hok
          rw [Bool.not_eq_false] at hr
          obtain ⟨-, hapart⟩ := h.setBack (u := stopTx M t.tx) rfl rfl
          intro hc
          refine hapart ?_ (hc hpc hr)
          rw [decide_eq_true hne, Bool.or_true]
      | _ => exact absurd trivial hok

/-- **Doorbell coherence.** Along a run the register has the head pointer
whenever the interface is running and the lock is free, if and only if the
interface never comes up with the head pointer set back, and is never stopped
as running with another head pointer than `0`. -/
theorem doorbell_coherent_iff (es : List DoorEvent) :
    (doorSystem M).Always ⟨setupDescs M .version2, false⟩ es DoorCoherent ↔
      (doorSystem M).Meets doorOk ⟨setupDescs M .version2, false⟩ es := by
  apply System.always_iff_meets
  · rfl
  · intro t ht
    exact (door_reachable_inv ht).coherent
  · intro t e t' ht hok hs
    exact (door_reachable_inv ht).incoherent hok hs

/-- One packet is sent, and the interface goes down and up. -/
def downUpRun : List DoorEvent :=
  [.tx .init, .tx (.enqueue ⟨1, ⟨⟨0x1000#64, 60⟩, []⟩⟩), .tx .start] ++
  List.replicate 8 (.tx (.driver none)) ++
  [.store 0 (1#32 <<< 31 ||| 60#32), .tx .down, .tx .init]

/-- The register keeps the index behind the packet, and the head pointer is
`0`. -/
theorem doorbell_behind_down_up :
    ¬ ∀ t, (doorSystem sampleTxMasks).Reachable t → DoorCoherent t := by
  intro h
  have hrun : ((doorSystem sampleTxMasks).run ⟨setupDescs sampleTxMasks .version2, false⟩
      downUpRun).map (fun t => (decide (DoorCoherent t), tailIndex t.tx)) =
        some (false, some 1) := by
    decide
  obtain ⟨t, ht, hq⟩ := Option.map_eq_some_iff.mp hrun
  rw [Prod.mk.injEq] at hq
  exact decide_eq_false_iff_not.mp hq.1 (h t (System.reachable_of_run _ rfl ht))

end Phytium.Xmac
