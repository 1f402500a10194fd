import PhytiumSdk.Lib.Mask
import Mathlib.Tactic.Common

/-!
# XMAC descriptors, mbufs and segments

The data both rings of the XMAC drivers work on. The bit masks of the
descriptor words come from headers that are not part of the sources, so they
are fields of a structure here, with what the driver relies on (non-empty, no
shared bit) as further fields. `phytium_xmac.c` uses the `FXMAC_TXBUF_*`
names and `phytium_xmac_v2.c` the `FXMAC_MSG_TXBUF_*` ones for the same bits.
-/

namespace Phytium.Xmac

open Lib.Mask

/-- `XMAC_NUM_TX_DESCS`, `XMAC_MSG_NUM_TX_DESCS`. -/
abbrev xmacNumTxDescs : ℕ := 512

/-- `XMAC_NUM_RX_DESCS`, `XMAC_MSG_NUM_RX_DESCS`. -/
abbrev xmacNumRxDescs : ℕ := 512

/-- `TX_MAX_DMA_SEGS`: the most segments of a transmit mbuf chain. -/
abbrev txMaxDmaSegs : ℕ := 8

/-- The 14 low bits of a transmit control word, which hold the length. -/
def txbufLenMask : BitVec 32 := 0x3FFF#32

/-- The control bits of a transmit descriptor. -/
structure TxbufMasks where
  used : BitVec 32
  wrap : BitVec 32
  last : BitVec 32
  exh : BitVec 32
  retry : BitVec 32
  tcp : BitVec 32
  used_ne : used ≠ 0#32
  wrap_ne : wrap ≠ 0#32
  last_ne : last ≠ 0#32
  used_wrap : used &&& wrap = 0#32
  used_last : used &&& last = 0#32
  wrap_last : wrap &&& last = 0#32
  used_len : used &&& txbufLenMask = 0#32
  wrap_len : wrap &&& txbufLenMask = 0#32
  last_len : last &&& txbufLenMask = 0#32

/-- Masks as the headers could have them. -/
def sampleTxMasks : TxbufMasks where
  used := 1#32 <<< 31
  wrap := 1#32 <<< 30
  last := 1#32 <<< 15
  exh := 1#32 <<< 27
  retry := 1#32 <<< 29
  tcp := 7#32 <<< 20
  used_ne := by decide
  wrap_ne := by decide
  last_ne := by decide
  used_wrap := by decide
  used_last := by decide
  wrap_last := by decide
  used_len := by decide
  wrap_len := by decide
  last_len := by decide

/-- A transmit descriptor. Its fourth word is never read. -/
structure TxDesc where
  addr : BitVec 32
  ctl : BitVec 32
  addrhi : BitVec 32
deriving DecidableEq, Repr

/-- `bus_dma_segment_t`. A 32-bit build's bus addresses are the ones whose
upper half is zero. -/
structure Seg where
  dsAddr : BitVec 64
  dsLen : ℕ
deriving DecidableEq, Repr

/-- One mbuf of a chain: where its data is and how long. -/
structure MbufCell where
  mData : BitVec 64
  mLen : ℤ
deriving DecidableEq, Repr

/-- An mbuf chain: the first mbuf and those behind its `m_next`. -/
structure MbufChain where
  head : MbufCell
  next : List MbufCell
deriving DecidableEq, Repr

/-- A packet: its chain, and a name that stands for the object itself. -/
structure Mbuf where
  name : ℕ
  chain : MbufChain
deriving DecidableEq, Repr

/-- Every mbuf of the chain fits the length field of one descriptor, as the
interface's MTU promises with a wide margin. -/
def MbufChain.Short (c : MbufChain) : Prop :=
  ∀ m ∈ c.head :: c.next, m.mLen ≤ 0x3FFF

instance (c : MbufChain) : Decidable c.Short := by
  unfold MbufChain.Short
  infer_instance

/-- The one error of `phytium_xmac_get_segs_for_tx`. -/
inductive TxErr where
  | efbig
deriving DecidableEq, Repr

/-- The body of the loop: an mbuf that holds data becomes the next entry. -/
def pushSeg (segs : List Seg) (m : MbufCell) : List Seg :=
  if 0 < m.mLen then segs ++ [⟨m.mData, m.mLen.toNat⟩] else segs

/-- The loop of `phytium_xmac_get_segs_for_tx` at the mbuf `m`: `segs` holds
the `i` entries written so far, and the index is tested only after the link
has been followed. -/
def getSegsLoop (segs : List Seg) (m : MbufCell) : List MbufCell → Except TxErr (List Seg)
  | [] => .ok (pushSeg segs m)
  | m' :: next =>
      if (pushSeg segs m).length < txMaxDmaSegs then getSegsLoop (pushSeg segs m) m' next
      else .error .efbig

/-- `phytium_xmac_get_segs_for_tx`. -/
def getSegsForTx (c : MbufChain) : Except TxErr (List Seg) :=
  getSegsLoop [] c.head c.next

/-- A length that, stored as a control word, leaves the three bits by which
driver and hardware find their way alone. -/
def TxbufMasks.Plain (M : TxbufMasks) (n : ℕ) : Prop :=
  has (BitVec.ofNat 32 n) M.last = false ∧ has (BitVec.ofNat 32 n) M.wrap = false ∧
  has (BitVec.ofNat 32 n) M.used = false

instance (M : TxbufMasks) (n : ℕ) : Decidable (M.Plain n) := by
  unfold TxbufMasks.Plain
  infer_instance

/-- What a packet may be cut into: at most eight segments, none of which is
empty or has a length that runs into the control bits. -/
structure SegsOk (M : TxbufMasks) (segs : List Seg) : Prop where
  length_le : segs.length ≤ txMaxDmaSegs
  len_ok : ∀ g ∈ segs, 0 < g.dsLen ∧ M.Plain g.dsLen

/-- A length that fits the length field is stored there unchanged. -/
theorem ofNat_and_txbufLenMask {n : ℕ} (hn : n ≤ 0x3FFF) :
    BitVec.ofNat 32 n &&& txbufLenMask = BitVec.ofNat 32 n := by
  apply BitVec.eq_of_toNat_eq
  have h : n % 2 ^ 32 &&& 0x3FFF = n % 2 ^ 32 % 2 ^ 14 := Nat.and_two_pow_sub_one_eq_mod _ 14
  rw [BitVec.toNat_and, txbufLenMask, BitVec.toNat_ofNat, BitVec.toNat_ofNat]
  show n % 2 ^ 32 &&& 0x3FFF = n % 2 ^ 32
  omega

theorem has_ofNat {n : ℕ} {m : BitVec 32} (hn : n ≤ 0x3FFF) (hm : m &&& txbufLenMask = 0#32) :
    has (BitVec.ofNat 32 n) m = false := by
  rw [has_eq_false_iff, ← ofNat_and_txbufLenMask hn, BitVec.and_assoc, BitVec.and_comm _ m, hm,
    BitVec.and_zero]

theorem TxbufMasks.plain_of_le (M : TxbufMasks) {n : ℕ} (hn : n ≤ 0x3FFF) : M.Plain n :=
  ⟨has_ofNat hn M.last_len, has_ofNat hn M.wrap_len, has_ofNat hn M.used_len⟩

section Segments

variable {Q : Seg → Prop} {segs out : List Seg} {m : MbufCell} {next : List MbufCell}

theorem pushSeg_all (hs : ∀ g ∈ segs, Q g) (hm : 0 < m.mLen → Q ⟨m.mData, m.mLen.toNat⟩) :
    (pushSeg segs m).length ≤ segs.length + 1 ∧ ∀ g ∈ pushSeg segs m, Q g := by
  unfold pushSeg
  split
  · rename_i hlen
    refine ⟨by simp, ?_⟩
    intro g hg
    rcases List.mem_append.mp hg with hg | hg
    · exact hs g hg
    · rw [List.mem_singleton] at hg
      rw [hg]
      exact hm hlen
  · exact ⟨Nat.le_succ _, hs⟩

/-- What every mbuf with data gives, every segment has. -/
theorem getSegsLoop_all (hs : ∀ g ∈ segs, Q g) (hl : segs.length < txMaxDmaSegs)
    (hq : ∀ c ∈ m :: next, 0 < c.mLen → Q ⟨c.mData, c.mLen.toNat⟩)
    (h : getSegsLoop segs m next = .ok out) : out.length ≤ txMaxDmaSegs ∧ ∀ g ∈ out, Q g := by
  induction next generalizing segs m with
  | nil =>
      cases h
      obtain ⟨hlen, hall⟩ := pushSeg_all hs (hq m List.mem_cons_self)
      exact ⟨hlen.trans hl, hall⟩
  | cons m' next ih =>
      obtain ⟨-, hall⟩ := pushSeg_all hs (hq m List.mem_cons_self)
      simp only [getSegsLoop] at h
      split at h
      · rename_i hlen
        exact ih hall hlen (fun c hc => hq c (List.mem_cons_of_mem _ hc)) h
      · cases h

/-- The segments of any chain. -/
theorem getSegsForTx_pos {c : MbufChain} (h : getSegsForTx c = .ok segs) :
    segs.length ≤ txMaxDmaSegs ∧ ∀ g ∈ segs, 0 < g.dsLen := by
  apply getSegsLoop_all (by simp) (by simp) ?_ h
  intro a _ hpos
  dsimp only
  omega

/-- The segments of a chain of short mbufs. -/
theorem getSegsForTx_short {c : MbufChain} (hc : c.Short) (h : getSegsForTx c = .ok segs) :
    ∀ g ∈ segs, g.dsLen ≤ 0x3FFF := by
  have hall : segs.length ≤ txMaxDmaSegs ∧ ∀ g ∈ segs, g.dsLen ≤ 0x3FFF := by
    apply getSegsLoop_all (by simp) (by simp) ?_ h
    intro a ha _
    have hle := hc a ha
    dsimp only
    omega
  exact hall.2

theorem getSegsForTx_ok {M : TxbufMasks} {c : MbufChain} (h : getSegsForTx c = .ok segs)
    (hplain : ∀ g ∈ segs, M.Plain g.dsLen) : SegsOk M segs := by
  obtain ⟨hlen, hpos⟩ := getSegsForTx_pos h
  exact ⟨hlen, fun g hg => ⟨hpos g hg, hplain g hg⟩⟩

end Segments

end Phytium.Xmac
