import PhytiumSdk.Xmac.TxInvariant
import Mathlib.Data.List.Infix

/-!
# The driver and the transmitting hardware

The hardware stands at a descriptor `q` of its own. When that descriptor's
`USED` is clear it transmits the frame from there through the first `LAST`,
gives the frame's first descriptor back and moves behind its last one. It may
do so between any two accesses of the driver. What it transmits is a prefix of
what the driver was given, packet by packet and segment by segment.
-/

namespace Phytium.Xmac

open Lib Lib.Mask

variable {M : TxbufMasks} {hw : XmacHw} {r : ℕ → TxDesc} {D U : List (List Seg)}

/-! ## The hardware -/

/-- The piece of data a descriptor stands for. -/
def decodeDesc (d : TxDesc) : Seg :=
  ⟨d.addrhi ++ d.addr, (d.ctl &&& txbufLenMask).toNat⟩

/-- The frame from `p` through the first descriptor with `LAST`, and that
descriptor. After `n` descriptors the hardware gives up. -/
def readFrame (M : TxbufMasks) (r : ℕ → TxDesc) : ℕ → ℕ → List Seg × ℕ
  | 0, p => ([], p)
  | n + 1, p =>
      if has (r p).ctl M.last then ([decodeDesc (r p)], p)
      else (decodeDesc (r p) :: (readFrame M r n (p + 1)).1, (readFrame M r n (p + 1)).2)

/-- The driver, where the hardware stands, and what it has transmitted. -/
structure WireState where
  tx : TxState
  q : ℕ
  transmitted : List (List Seg)

inductive WireEvent where
  | tx (e : TxEvent)
  /-- one step of the hardware, which stores `ctl` if it transmits -/
  | hardware (ctl : BitVec 32)
deriving DecidableEq, Repr

def hardwareStep (M : TxbufMasks) (s : WireState) (ctl : BitVec 32) : Option WireState :=
  if has (s.tx.txring s.q).ctl M.used then some s
  else if Completes M (s.tx.txring s.q).ctl ctl then
    let (w, l) := readFrame M s.tx.txring xmacNumTxDescs s.q
    some
      { tx := { s.tx with txring := setCtl s.tx.txring s.q ctl }
        q := behind M (s.tx.txring l).ctl l
        transmitted := s.transmitted ++ [w] }
  else none

def wireStep (M : TxbufMasks) (hw : XmacHw) (s : WireState) : WireEvent → Option WireState
  | .tx e =>
      if e = .down ∨ e = .stop then none
      else (txStep M hw s.tx e).map fun t => { s with tx := t }
  | .hardware ctl => hardwareStep M s ctl

/-- The driver and the hardware from `phytium_xmac_setup_descs` on, while the
interface is not stopped. -/
def wireSystem (M : TxbufMasks) (hw : XmacHw) : System WireState WireEvent where
  init := fun s => s = ⟨setupDescs M hw, 0, []⟩
  step := wireStep M hw

/-! ## Reading a frame back -/

theorem Describes.decode {d : TxDesc} {p : ℕ} {g : Seg} {isLast isUsed : Bool}
    (h : Describes M d p g isLast isUsed) (hg : g.dsLen ≤ 0x3FFF) : decodeDesc d = g := by
  rw [decodeDesc, h.addr, h.addrhi, h.len, ofNat_and_txbufLenMask hg, append_setWidth,
    BitVec.toNat_ofNat, Nat.mod_eq_of_lt (by omega)]

/-- **What the hardware reads** at a frame is the frame, and it moves to where
the next one starts. -/
theorem readFrame_eq : ∀ {w : List Seg} {n p : ℕ} {isUsed : Bool}, FrameAt M r p w isUsed →
    w ≠ [] → (∀ g ∈ w, g.dsLen ≤ 0x3FFF) → w.length ≤ n →
    ∃ l, readFrame M r n p = (w, l) ∧ behind M (r l).ctl l = behindFrame p w.length
  | [], _, _, _, _, hne, _, _ => absurd rfl hne
  | _ :: _, 0, _, _, _, _, _, hn => absurd hn (Nat.not_succ_le_zero _)
  | [g], n + 1, p, _, h, _, hg, _ => by
      refine ⟨p, ?_, h.1.behind_last⟩
      rw [readFrame, h.1.last, h.1.decode (hg g List.mem_cons_self)]
      rfl
  | g :: g' :: gs, n + 1, p, _, h, _, hg, hn => by
      obtain ⟨l, hread, hl⟩ := readFrame_eq h.2 (List.cons_ne_nil _ _)
        (fun a ha => hg a (List.mem_cons_of_mem _ ha)) (Nat.le_of_succ_le_succ hn)
      refine ⟨l, ?_, ?_⟩
      · rw [readFrame, h.1.last, h.1.decode (hg g List.mem_cons_self), hread]
        rfl
      · rw [hl]
        exact LapRing.next_succ

/-! ## The two together -/

/-- The invariant: the hardware stands behind the completed frames `D` and has
yet to transmit the frames `U`; nothing is freed that it has not transmitted. -/
structure WireInv (M : TxbufMasks) (s : WireState) (D U : List (List Seg)) : Prop where
  tx : TxInv M s.tx D U
  pointer : s.q = after s.tx.txringTlPtr D
  queued : s.tx.queuedPkts = s.transmitted ++ unsent U s.tx.pc
  freed : s.tx.freedFrames + D.length = s.transmitted.length + inFlight s.tx.pc
  fits : ∀ w ∈ s.tx.queuedPkts, ∀ g ∈ w, g.dsLen ≤ 0x3FFF

theorem WireInv.kept {s : WireState} {t : TxState} {D' U' : List (List Seg)}
    (h : WireInv M s D U) (ht : TxInv M t D' U') (hk : Kept s.tx D U t D' U')
    (hfits : ∀ w ∈ t.queuedPkts, w ∈ s.tx.queuedPkts ∨ ∀ g ∈ w, g.dsLen ≤ 0x3FFF) :
    WireInv M { s with tx := t } D' U' := by
  obtain ⟨hpointer, ⟨new, hq, hu⟩, hfreed⟩ := hk
  refine ⟨ht, h.pointer.trans hpointer.symm, ?_, ?_,
    fun w hw => (hfits w hw).elim (h.fits w) id⟩
  · rw [hq, hu, h.queued, List.append_assoc]
  · have hf := h.freed
    show t.freedFrames + D'.length = s.transmitted.length + inFlight t.pc
    omega

theorem unsent_cons (w : List Seg) (pc : TxPc) : unsent (w :: U) pc = w :: unsent U pc := by
  cases pc <;> rfl

/-- **A step of the hardware** transmits the oldest frame that is left. -/
theorem WireInv.hardwareStep {s s' : WireState} {ctl : BitVec 32} (h : WireInv M s D U)
    (hs : hardwareStep M s ctl = some s') : ∃ D' U', WireInv M s' D' U' := by
  obtain ⟨htx, hpointer, hqueued, hfreed, hfits⟩ := h
  unfold Xmac.hardwareStep at hs
  rw [hpointer] at hs
  cases U with
  | nil =>
      rw [if_pos htx.used_of_nil] at hs
      cases hs
      exact ⟨D, [], htx, hpointer, hqueued, hfreed, hfits⟩
  | cons w U =>
      obtain ⟨hframe, hok, hlen⟩ := htx.frameAt
      have hne : w ≠ [] := List.length_pos_iff.mp hlen
      have hw8 : w.length ≤ xmacNumTxDescs := hok.length_le.trans (by decide)
      have hw : w ∈ s.tx.queuedPkts := by
        rw [hqueued, unsent_cons]
        exact List.mem_append_right _ List.mem_cons_self
      obtain ⟨l, hread, hl⟩ := readFrame_eq hframe hne (hfits w hw) hw8
      split at hs
      · cases hs
        exact ⟨D, w :: U, htx, hpointer, hqueued, hfreed, hfits⟩
      · obtain ⟨hc, ht⟩ := Option.ite_none_right_eq_some.mp hs
        rw [hread] at ht
        cases ht
        refine ⟨D ++ [w], U, htx.complete hc, ?_, ?_, ?_, hfits⟩
        · show behind M (s.tx.txring l).ctl l = after s.tx.txringTlPtr (D ++ [w])
          rw [hl, after_append]
          rfl
        · show s.tx.queuedPkts = s.transmitted ++ [w] ++ unsent U s.tx.pc
          rw [hqueued, unsent_cons, List.append_assoc, List.singleton_append]
        · show s.tx.freedFrames + (D ++ [w]).length =
            (s.transmitted ++ [w]).length + inFlight s.tx.pc
          rw [List.length_append, List.length_append, List.length_singleton, ← Nat.add_assoc,
            hfreed]
          omega

theorem wireStep_inv {s s' : WireState} {e : WireEvent} (h : ∃ D U, WireInv M s D U)
    (hs : wireStep M hw s e = some s') : ∃ D U, WireInv M s' D U := by
  obtain ⟨D, U, h⟩ := h
  cases e with
  | tx e =>
      simp only [wireStep] at hs
      split at hs
      · cases hs
      · rename_i hne
        obtain ⟨t, ht, rfl⟩ := Option.map_eq_some_iff.mp hs
        obtain ⟨D', U', hinv, hk⟩ := h.tx.txStep ht
        exact ⟨D', U', h.kept hinv (hk (fun e => hne (Or.inl e)) fun e => hne (Or.inr e))
          (txStep_queued h.tx.short ht)⟩
  | hardware ctl => exact h.hardwareStep hs

theorem TxInv.inFlight_le {s : TxState} (h : TxInv M s D U) : inFlight s.pc ≤ D.length := by
  obtain ⟨hat, -⟩ := h
  generalize s.pc = pc at hat
  cases pc with
  | cleanSkip c ctl => exact List.length_pos_iff.mpr hat.freeing
  | cleanMark c ctl => exact List.length_pos_iff.mpr hat.freeing
  | _ => exact Nat.zero_le _

/-- **Transmission**: in every run of the driver and the hardware, what has
been transmitted is a prefix of the packets given descriptors, and no frame is
freed before it was transmitted. -/
theorem transmitted_prefix {s : WireState} (h : (wireSystem M hw).Reachable s) :
    s.transmitted <+: s.tx.queuedPkts ∧ s.tx.freedFrames ≤ s.transmitted.length := by
  obtain ⟨D, U, hinv⟩ : ∃ D U, WireInv M s D U := by
    apply h.invariant
    · rintro s rfl
      exact ⟨[], [], setupDescs_inv, rfl, rfl, rfl, fun w hw => absurd hw List.not_mem_nil⟩
    · intro s e s' hi (hs : wireStep M hw s e = some s')
      exact wireStep_inv hi hs
  refine ⟨⟨unsent U s.tx.pc, hinv.queued.symm⟩, ?_⟩
  have hle := hinv.tx.inFlight_le
  have hf := hinv.freed
  omega

/-- The hardware finds the packet the moment its first control word is stored,
before the head pointer moves. -/
def earlyTransmitRun : List WireEvent :=
  [.tx .init, .tx (.enqueue ⟨1, ⟨⟨0x1000#64, 60⟩, [⟨0x2000#64, 40⟩]⟩⟩), .tx .start] ++
  List.replicate 8 (.tx (.driver none)) ++ [.hardware 0#32, .tx (.driver none)] ++
  [.hardware (1#32 <<< 31 ||| 60#32)]

theorem transmitted_prefix_early :
    ∃ s, (wireSystem sampleTxMasks .version1).run ⟨setupDescs sampleTxMasks .version1, 0, []⟩
        earlyTransmitRun = some s ∧
      s.transmitted = [[⟨0x1000#64, 60⟩, ⟨0x2000#64, 40⟩]] ∧
      s.transmitted <+: s.tx.queuedPkts ∧ s.tx.freedFrames ≤ s.transmitted.length := by
  have hrun : ((wireSystem sampleTxMasks .version1).run
      ⟨setupDescs sampleTxMasks .version1, 0, []⟩ earlyTransmitRun).map
        WireState.transmitted = some [[⟨0x1000#64, 60⟩, ⟨0x2000#64, 40⟩]] := by
    decide
  obtain ⟨s, hs, ht⟩ := Option.map_eq_some_iff.mp hrun
  exact ⟨s, hs, ht, transmitted_prefix (System.reachable_of_run _ rfl hs)⟩

end Phytium.Xmac
