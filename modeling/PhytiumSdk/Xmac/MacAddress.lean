import PhytiumSdk.Xmac.Control
import Mathlib.Data.Fin.VecNotation
import Mathlib.Tactic.FinCases

/-!
# XMAC v1: the MAC address

The boot loader leaves the address in one of four pairs of registers.
`phytium_xmac_get_mac` takes it from the first pair that is not empty, and moves
it to the first pair. `phytium_xmac_config` writes the address of the interface
to the same place, with an encoder of its own.
-/

namespace Phytium.Xmac

/-- `FXMAC_GEM_SA1B + i * 8` and `FXMAC_GEM_SA1T + i * 8`. -/
structure SaPair where
  sa1b : BitVec 32
  sa1t : BitVec 32
deriving DecidableEq

/-- The four pairs. -/
abbrev SaRegs := Fin 4 → SaPair

/-- The address taken out of two words. -/
def macOfWords (low high : BitVec 32) : EtherAddr :=
  ![(low &&& 0xff#32).setWidth 8, (low >>> 8 &&& 0xff#32).setWidth 8,
    (low >>> 16 &&& 0xff#32).setWidth 8, (low >>> 24 &&& 0xff#32).setWidth 8,
    (high &&& 0xff#32).setWidth 8, (high >>> 8 &&& 0xff#32).setWidth 8]

/-- One round of the search. -/
def macOfPair (p : SaPair) : Option EtherAddr :=
  let low := p.sa1b
  let high := p.sa1t &&& 0xffff#32
  if low ≠ 0#32 ∨ high ≠ 0#32 then some (macOfWords low high) else none

/-- `(eaddr[3] << 24) | (eaddr[2] << 16) | (eaddr[1] << 8) | eaddr[0]`; the bytes
are promoted to `int`. -/
def lowWord (eaddr : EtherAddr) : BitVec 32 :=
  (eaddr ⟨3, by decide⟩).setWidth 32 <<< 24 ||| (eaddr ⟨2, by decide⟩).setWidth 32 <<< 16 |||
    (eaddr ⟨1, by decide⟩).setWidth 32 <<< 8 ||| (eaddr ⟨0, by decide⟩).setWidth 32

/-- `(eaddr[5] << 8) | eaddr[4]`. -/
def highWord (eaddr : EtherAddr) : BitVec 32 :=
  (eaddr ⟨5, by decide⟩).setWidth 32 <<< 8 ||| (eaddr ⟨4, by decide⟩).setWidth 32

/-- `phytium_xmac_get_mac`; `random` is what `rtems_bsd_get_mac_address` gives,
should it be asked. -/
def getMac (random : EtherAddr) (regs : SaRegs) : EtherAddr × SaRegs :=
  let eaddr := ((List.finRange 4).findSome? fun i => macOfPair (regs i)).getD random
  let regs := Function.update regs 0 ⟨lowWord eaddr, highWord eaddr⟩
  (eaddr, [1, 2, 3].foldl (fun regs i => Function.update regs i ⟨0#32, 0#32⟩) regs)

/-- The receive address as `phytium_xmac_config` sets it. -/
def configAddress (eaddr : EtherAddr) (regs : SaRegs) : SaRegs :=
  Function.update regs 0 ⟨lowWord eaddr, highWord eaddr⟩

/-! ## What a pair encodes -/

/-- The 48 bits of an address: the low word, and the low half of the high one. -/
def SaPair.value (p : SaPair) : BitVec 48 := p.sa1t.setWidth 16 ++ p.sa1b

/-- The bytes of the address, from the lowest one on. -/
def SaPair.mac (p : SaPair) : EtherAddr := fun k => p.value.extractLsb' (8 * k) 8

/-- The pair holds an address. -/
def SaPair.Used (p : SaPair) : Prop := p.sa1b ≠ 0#32 ∨ p.sa1t.setWidth 16 ≠ 0#16

instance (p : SaPair) : Decidable p.Used := inferInstanceAs (Decidable (_ ∨ _))

variable {p : SaPair} {eaddr : EtherAddr} {regs : SaRegs}

/-- The mask of the `n` low bits. -/
theorem getLsbD_low_mask (w n i : ℕ) :
    (BitVec.ofNat w (2 ^ n - 1)).getLsbD i = (decide (i < w) && decide (i < n)) := by
  rw [BitVec.getLsbD_ofNat, Nat.testBit_two_pow_sub_one]

/-- A byte of a word. -/
theorem byte_eq (x : BitVec 32) (n : ℕ) :
    (x >>> n &&& 0xff#32).setWidth 8 = x.extractLsb' n 8 := by
  apply BitVec.eq_of_getLsbD_eq
  intro i hi
  have hmask := getLsbD_low_mask 32 8 i
  have hw : i < 32 := hi.trans (by decide)
  change (0xff#32).getLsbD i = _ at hmask
  simp only [BitVec.getLsbD_setWidth, BitVec.getLsbD_and, BitVec.getLsbD_ushiftRight, hmask,
    BitVec.getLsbD_extractLsb', hi, hw, decide_true, Bool.true_and, Bool.and_true]

theorem low_half (x : BitVec 32) : x &&& 0xffff#32 = (x.setWidth 16).setWidth 32 := by
  apply BitVec.eq_of_getLsbD_eq
  intro i hi
  have hmask := getLsbD_low_mask 32 16 i
  change (0xffff#32).getLsbD i = _ at hmask
  simp only [BitVec.getLsbD_setWidth, BitVec.getLsbD_and, hmask, hi, decide_true, Bool.true_and]
  exact Bool.and_comm _ _

theorem low_half_eq_zero {x : BitVec 32} : x &&& 0xffff#32 = 0#32 ↔ x.setWidth 16 = 0#16 := by
  rw [low_half]
  constructor
  · intro h
    have hback := congrArg (BitVec.setWidth 16) h
    rwa [BitVec.setWidth_setWidth_of_le _ (by decide), BitVec.setWidth_eq] at hback
  · intro h
    rw [h]
    rfl

/-- A byte of a word in its place. -/
theorem getLsbD_byte (x : BitVec 32) (n : ℕ) {i : ℕ} (hi : i < 32) :
    ((x.extractLsb' n 8).setWidth 32 <<< n).getLsbD i =
      (decide (n ≤ i ∧ i < n + 8) && x.getLsbD i) := by
  simp only [BitVec.getLsbD_shiftLeft, BitVec.getLsbD_setWidth, BitVec.getLsbD_extractLsb']
  by_cases h : n ≤ i
  · have hback : n + (i - n) = i := by omega
    have hw : i - n < 32 := by omega
    rw [hback]
    by_cases h8 : i < n + 8
    · have h8' : i - n < 8 := by omega
      simp [hi, h, h8, h8', hw]
    · have h8' : ¬ i - n < 8 := by omega
      simp [h8, h8']
  · simp [h, Nat.lt_of_not_le h]

/-- The bytes of a word, put together again. -/
theorem bytes_or (x : BitVec 32) :
    (x.extractLsb' 24 8).setWidth 32 <<< 24 ||| (x.extractLsb' 16 8).setWidth 32 <<< 16 |||
      (x.extractLsb' 8 8).setWidth 32 <<< 8 ||| (x.extractLsb' 0 8).setWidth 32 = x := by
  apply BitVec.eq_of_getLsbD_eq
  intro i hi
  have h0 := getLsbD_byte x 0 hi
  rw [BitVec.shiftLeft_zero] at h0
  simp only [BitVec.getLsbD_or, getLsbD_byte x _ hi, h0]
  cases hx : x.getLsbD i with
  | false => simp
  | true =>
      simp only [Bool.and_true, Bool.or_eq_true, decide_eq_true_eq]
      omega

theorem low_bytes_or (x : BitVec 32) :
    (x.extractLsb' 8 8).setWidth 32 <<< 8 ||| (x.extractLsb' 0 8).setWidth 32 =
      x &&& 0xffff#32 := by
  apply BitVec.eq_of_getLsbD_eq
  intro i hi
  have h0 := getLsbD_byte x 0 hi
  have hmask := getLsbD_low_mask 32 16 i
  change (0xffff#32).getLsbD i = _ at hmask
  rw [BitVec.shiftLeft_zero] at h0
  rw [BitVec.getLsbD_or, getLsbD_byte x _ hi, h0, BitVec.getLsbD_and, hmask]
  cases hx : x.getLsbD i with
  | false => simp
  | true =>
      rw [Bool.eq_iff_iff]
      simp only [Bool.and_true, Bool.true_and, Bool.or_eq_true, Bool.and_eq_true,
        decide_eq_true_eq]
      omega

/-! ## The pair and its words -/

/-- The bytes of a pair, the first four in the low word. -/
theorem mac_eq (p : SaPair) : p.mac =
    ![p.sa1b.extractLsb' 0 8, p.sa1b.extractLsb' 8 8, p.sa1b.extractLsb' 16 8,
      p.sa1b.extractLsb' 24 8, p.sa1t.extractLsb' 0 8, p.sa1t.extractLsb' 8 8] := by
  have hlow : ∀ n, n + 8 ≤ 32 → p.value.extractLsb' n 8 = p.sa1b.extractLsb' n 8 := by
    intro n hn
    apply BitVec.eq_of_getLsbD_eq
    intro i hi
    have hin : n + i < 32 := by omega
    simp only [SaPair.value, BitVec.getLsbD_extractLsb', BitVec.getLsbD_append, hin, hi,
      decide_true, Bool.true_and, if_true]
  have hhigh : ∀ n, n + 8 ≤ 16 → p.value.extractLsb' (32 + n) 8 = p.sa1t.extractLsb' n 8 := by
    intro n hn
    apply BitVec.eq_of_getLsbD_eq
    intro i hi
    have hin : ¬ 32 + n + i < 32 := by omega
    have hback : 32 + n + i - 32 = n + i := by omega
    have h16 : n + i < 16 := by omega
    simp only [SaPair.value, BitVec.getLsbD_extractLsb', BitVec.getLsbD_append,
      BitVec.getLsbD_setWidth, hin, hback, h16, hi, decide_true, Bool.true_and, if_false]
  funext k
  fin_cases k
  · exact hlow 0 (by decide)
  · exact hlow 8 (by decide)
  · exact hlow 16 (by decide)
  · exact hlow 24 (by decide)
  · exact hhigh 0 (by decide)
  · exact hhigh 8 (by decide)

/-- The bytes of a word that only has its low half. -/
theorem extract_low_half (x : BitVec 32) {n : ℕ} (hn : n + 8 ≤ 16) :
    (x &&& 0xffff#32).extractLsb' n 8 = x.extractLsb' n 8 := by
  apply BitVec.eq_of_getLsbD_eq
  intro i hi
  have hmask := getLsbD_low_mask 32 16 (n + i)
  change (0xffff#32).getLsbD (n + i) = _ at hmask
  have h16 : n + i < 16 := by omega
  have h32 : n + i < 32 := by omega
  simp only [BitVec.getLsbD_extractLsb', BitVec.getLsbD_and, hmask, h16, h32, hi, decide_true,
    Bool.true_and, Bool.and_true]

/-- A round of the search finds what the pair encodes. -/
theorem macOfPair_eq (p : SaPair) : macOfPair p = if p.Used then some p.mac else none := by
  have hwords : macOfWords p.sa1b (p.sa1t &&& 0xffff#32) = p.mac := by
    have hzero : ∀ x : BitVec 32, (x &&& 0xff#32).setWidth 8 = x.extractLsb' 0 8 :=
      fun x => byte_eq x 0
    rw [mac_eq, macOfWords, byte_eq, byte_eq, byte_eq, byte_eq, hzero, hzero,
      extract_low_half _ (by decide), extract_low_half _ (by decide)]
  have hused : (p.sa1b ≠ 0#32 ∨ p.sa1t &&& 0xffff#32 ≠ 0#32) ↔ p.Used := by
    rw [SaPair.Used, ne_eq, ne_eq, low_half_eq_zero]
  unfold macOfPair
  dsimp only
  rw [hwords]
  by_cases hu : p.Used
  · rw [if_pos hu, if_pos (hused.mpr hu)]
  · rw [if_neg hu, if_neg (mt hused.mp hu)]

/-- **The encoders undo the search**: the words of the address of a pair are
those of the pair, without the upper half. -/
theorem words_mac (p : SaPair) :
    (⟨lowWord p.mac, highWord p.mac⟩ : SaPair) = ⟨p.sa1b, p.sa1t &&& 0xffff#32⟩ := by
  rw [SaPair.mk.injEq, mac_eq]
  exact ⟨bytes_or p.sa1b, low_bytes_or p.sa1t⟩

theorem mac_low_half (p : SaPair) : (⟨p.sa1b, p.sa1t &&& 0xffff#32⟩ : SaPair).mac = p.mac := by
  rw [mac_eq, mac_eq p]
  dsimp only
  rw [extract_low_half _ (by decide), extract_low_half _ (by decide)]

theorem used_low_half (p : SaPair) :
    (⟨p.sa1b, p.sa1t &&& 0xffff#32⟩ : SaPair).Used ↔ p.Used := by
  unfold SaPair.Used
  dsimp only
  rw [low_half, BitVec.setWidth_setWidth_of_le _ (by decide), BitVec.setWidth_eq]

/-! ## `phytium_xmac_get_mac` -/

/-- The registers afterwards. -/
theorem getMac_regs (random : EtherAddr) (j : Fin 4) :
    (getMac random regs).2 j =
      if j = 0 then ⟨lowWord (getMac random regs).1, highWord (getMac random regs).1⟩
      else ⟨0#32, 0#32⟩ := by
  unfold getMac
  fin_cases j <;> rfl

/-- The address is that of the first pair that holds one. -/
theorem getMac_first (h : ∃ i, (regs i).Used) (random : EtherAddr) :
    ∃ i, (regs i).Used ∧ (∀ j < i, ¬ (regs j).Used) ∧
      (getMac random regs).1 = (regs i).mac := by
  obtain ⟨a, ha⟩ : ∃ a, ((List.finRange 4).findSome? fun i => macOfPair (regs i)) = some a := by
    obtain ⟨i, hi⟩ := h
    rw [← Option.isSome_iff_exists, List.findSome?_isSome_iff]
    exact ⟨i, List.mem_finRange i, by rw [macOfPair_eq, if_pos hi]; rfl⟩
  have hfirst : (getMac random regs).1 = a := by
    unfold getMac
    rw [ha]
    rfl
  obtain ⟨pre, i, post, hsplit, hi, hpre⟩ := List.findSome?_eq_some_iff.mp ha
  have hused : (regs i).Used := by
    by_contra hn
    rw [macOfPair_eq, if_neg hn] at hi
    cases hi
  rw [macOfPair_eq, if_pos hused] at hi
  refine ⟨i, hused, ?_, hfirst.trans (Option.some.inj hi).symm⟩
  intro j hj hjused
  -- the pairs in front of the one found are those with smaller indices
  have hsorted := List.pairwise_lt_finRange 4
  rw [hsplit, List.pairwise_append] at hsorted
  have hmem : j ∈ pre ++ i :: post := hsplit ▸ List.mem_finRange j
  rcases List.mem_append.mp hmem with hin | hin
  · have hnone := hpre j hin
    rw [macOfPair_eq, if_pos hjused] at hnone
    cases hnone
  · rcases List.mem_cons.mp hin with rfl | hin
    · exact absurd hj (lt_irrefl _)
    · exact absurd hj (lt_asymm ((List.pairwise_cons.mp hsorted.2.1).1 j hin))

/-- What `phytium_xmac_get_mac` returns, and leaves in the registers. -/
structure MacHandover (regs : SaRegs) (eaddr : EtherAddr) (regs' : SaRegs) : Prop where
  first : ∃ i, (regs i).Used ∧ (∀ j < i, ¬ (regs j).Used) ∧ eaddr = (regs i).mac
  moved : (regs' 0).mac = eaddr
  upper : (regs' 0).sa1t >>> 16 = 0#32
  rest : ∀ j, j ≠ 0 → regs' j = ⟨0#32, 0#32⟩
  again : ∀ random, getMac random regs' = (eaddr, regs')
  config : configAddress eaddr regs' = regs'

/-- **The hand-over of the address.** If some pair holds an address, the first
such pair is taken and moved to the first place; doing it again, or configuring
the address, changes nothing. -/
theorem get_mac_handover (h : ∃ i, (regs i).Used) (random : EtherAddr) :
    MacHandover regs (getMac random regs).1 (getMac random regs).2 := by
  obtain ⟨i, hi, hfirst, headdr⟩ := getMac_first h random
  have hregs := @getMac_regs regs random
  rw [headdr] at hregs
  -- the first pair afterwards
  have hzero : (getMac random regs).2 0 = ⟨(regs i).sa1b, (regs i).sa1t &&& 0xffff#32⟩ := by
    rw [hregs, if_pos rfl, words_mac]
  have hmac : ((getMac random regs).2 0).mac = (regs i).mac := by
    rw [hzero, mac_low_half]
  have hused : ((getMac random regs).2 0).Used := by
    rw [hzero]
    exact (used_low_half _).mpr hi
  have hagain : ∀ random', (getMac random' (getMac random regs).2).1 = (regs i).mac := by
    intro random'
    obtain ⟨j, -, hj, hmacj⟩ := getMac_first ⟨0, hused⟩ random'
    obtain rfl : j = 0 := by
      by_contra hne
      exact hj 0 (Fin.pos_of_ne_zero hne) hused
    rw [hmacj, hmac]
  rw [headdr]
  refine ⟨⟨i, hi, hfirst, rfl⟩, hmac, ?_, ?_, ?_, ?_⟩
  · rw [hzero, low_half]
    apply BitVec.eq_of_getLsbD_eq
    intro j hj
    have hge : ¬ 16 + j < 16 := by omega
    simp only [BitVec.getLsbD_ushiftRight, BitVec.getLsbD_setWidth, hge, decide_false,
      Bool.false_and, Bool.and_false, BitVec.getLsbD_zero]
  · intro j hj
    rw [hregs, if_neg hj]
  · intro random'
    rw [Prod.ext_iff]
    refine ⟨hagain random', ?_⟩
    funext j
    rw [getMac_regs, hagain, hregs]
  · funext j
    unfold configAddress
    by_cases hj : j = 0
    · rw [hj, Function.update_self, hregs, if_pos rfl]
    · rw [Function.update_of_ne hj]

/-- The boot loader has used the third pair. -/
def thirdPair : SaRegs := fun i => if i = 2 then ⟨0x44332211#32, 0xabcd6655#32⟩ else ⟨0#32, 0#32⟩

theorem get_mac_handover_third :
    (getMac (fun _ => 0#8) thirdPair).1 = ![0x11#8, 0x22#8, 0x33#8, 0x44#8, 0x55#8, 0x66#8] ∧
    MacHandover thirdPair (getMac (fun _ => 0#8) thirdPair).1
      (getMac (fun _ => 0#8) thirdPair).2 :=
  ⟨by decide, get_mac_handover ⟨2, by decide⟩ fun _ => 0#8⟩

end Phytium.Xmac
