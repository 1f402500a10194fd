import PhytiumSdk.Xmac.MsgFilter
import Mathlib.Algebra.Ring.Parity
import Mathlib.Data.Finset.Card
import Mathlib.Tactic.IntervalCases

/-!
# The multicast hash filter

`phytium_xmac_mac_hash` folds the 48 bits of an address into six, and
`phytium_xmac_hash_maddr` sets one bit of a table of 64 in two words, the upper
word first. Here the table is one number, and what it should hold is said
without loops: the bit of every group, and no other.
-/

namespace Phytium.Xmac

open Lib.Mask

/-! ## What the filter should be -/

/-- Bit `j` of an address, from the lowest bit of its first byte on. -/
def etherBit (a : EtherAddr) (j : ℕ) : Bool := (a ⟨j / 8 % 6, by omega⟩).getLsbD (j % 8)

/-- The bits of the address that enter bit `i` of its hash. -/
def hashedBits (a : EtherAddr) (i : ℕ) : Finset ℕ :=
  (Finset.range 48).filter fun j => j % 6 = i ∧ etherBit a j = true

/-- `h` is the hash of the address: every bit of it is a parity. -/
def IsHash (a : EtherAddr) (h : ℕ) : Prop :=
  h < 64 ∧ ∀ i < 6, h.testBit i = decide (Odd (hashedBits a i).card)

/-- `HASHH:HASHL`. -/
def hashTable (hashes : BitVec 32 × BitVec 32) : BitVec 64 := hashes.1 ++ hashes.2

/-- The filter accepts the address. -/
def Accepts (hashes : BitVec 32 × BitVec 32) (a : EtherAddr) : Prop :=
  ∃ h, IsHash a h ∧ (hashTable hashes).getLsbD h = true

/-- The callback, folded over the list of groups. -/
def listHashes (multi : List EtherAddr) : BitVec 32 × BitVec 32 :=
  multi.foldl hashMaddr (0#32, 0#32)

/-! ## `phytium_xmac_mac_hash` -/

section Fold

variable {ι : Type*} (b : ι → Bool)

/-- The inner loop flips bit `i` once for every bit it finds set. -/
theorem testBit_foldl_flip (i k : ℕ) (js : List ι) (hash : ℕ) :
    (js.foldl (fun hash j => if b j then hash ^^^ (1 <<< i) else hash) hash).testBit k =
      (hash.testBit k ^^ (decide (i = k) && decide (Odd (js.countP b)))) := by
  have hshift : (1 <<< i).testBit k = decide (i = k) := by
    rw [Nat.one_shiftLeft, Nat.testBit_two_pow]
  induction js generalizing hash with
  | nil => simp
  | cons j js ih =>
      rw [List.foldl_cons, ih]
      cases hb : b j with
      | true =>
          have hodd : decide (Odd (js.countP b + 1)) = !decide (Odd (js.countP b)) := by
            simp [Nat.odd_add_one, -Nat.not_odd_iff_even]
          rw [if_pos rfl, Nat.testBit_xor, hshift, List.countP_cons_of_pos hb, hodd]
          cases hash.testBit k <;> cases decide (i = k) <;>
            cases decide (Odd (js.countP b)) <;> rfl
      | false => rw [if_neg Bool.false_ne_true, List.countP_cons_of_neg (by simp [hb])]

/-- The outer loop, over different bits. -/
theorem testBit_foldl_flips (js : ℕ → List ι) (k : ℕ) {is : List ℕ} (his : is.Nodup) (hash : ℕ) :
    (is.foldl (fun hash i =>
        (js i).foldl (fun hash j => if b j then hash ^^^ (1 <<< i) else hash) hash) hash).testBit k =
      (hash.testBit k ^^ (decide (k ∈ is) && decide (Odd ((js k).countP b)))) := by
  induction is generalizing hash with
  | nil => simp
  | cons i is ih =>
      obtain ⟨hi, his⟩ := List.nodup_cons.mp his
      rw [List.foldl_cons, ih his, testBit_foldl_flip]
      by_cases hk : i = k
      · subst hk
        simp [hi]
      · simp [hk, Ne.symm hk]

end Fold

theorem addrBit_eq (a : EtherAddr) (j : ℕ) : addrBit a j = etherBit a j := by
  unfold addrBit etherBit
  rw [Nat.shiftRight_eq_div_pow, show 7 = 2 ^ 3 - 1 from rfl, Nat.and_two_pow_sub_one_eq_mod]
  rfl

/-- The bits the inner loop looks at. -/
theorem hashedBits_card (a : EtherAddr) {i : ℕ} (hi : i < 6) :
    (hashedBits a i).card = (List.range' i 8 6).countP (addrBit a) := by
  have hrange : List.range' i 8 6 = (List.range 48).filter fun j => j % 6 = i := by
    interval_cases i <;> decide
  have hcard : (hashedBits a i).card =
      ((List.range 48).filter fun j => j % 6 = i ∧ etherBit a j = true).length := rfl
  rw [hcard, hrange, List.countP_eq_length_filter, List.filter_filter]
  congr 1
  refine List.filter_congr fun j _ => ?_
  rw [addrBit_eq]
  by_cases hj : j % 6 = i <;> simp [hj]

/-- **The loops compute the hash.** -/
theorem isHash_macHash (a : EtherAddr) : IsHash a (macHash a) := by
  refine ⟨macHash_lt a, ?_⟩
  intro i hi
  unfold macHash
  rw [testBit_foldl_flips (addrBit a) (fun i => List.range' i 8 6) i List.nodup_range,
    hashedBits_card a hi]
  simp [hi]

theorem isHash_iff {a : EtherAddr} {h : ℕ} : IsHash a h ↔ h = macHash a := by
  constructor
  · rintro ⟨hlt, hbits⟩
    refine Nat.eq_of_testBit_eq fun i => ?_
    by_cases hi : i < 6
    · rw [hbits i hi, (isHash_macHash a).2 i hi]
    · have hpow : 2 ^ 6 ≤ 2 ^ i := Nat.pow_le_pow_right Nat.two_pos (Nat.not_lt.mp hi)
      rw [Nat.testBit_lt_two_pow (hlt.trans_le hpow),
        Nat.testBit_lt_two_pow ((macHash_lt a).trans_le hpow)]
  · rintro rfl
    exact isHash_macHash a

/-! ## The table -/

theorem getLsbD_one_shiftLeft (w k i : ℕ) :
    (1#w <<< k).getLsbD i = decide (i < w ∧ i = k) := by
  rw [← BitVec.twoPow_eq, BitVec.getLsbD_twoPow, ← Bool.decide_and, decide_eq_decide]
  omega

/-- The callback sets the bit of the hash in the table, whichever word it is in. -/
theorem hashTable_hashMaddr (hashes : BitVec 32 × BitVec 32) (a : EtherAddr) :
    hashTable (hashMaddr hashes a) = hashTable hashes ||| 1#64 <<< macHash a := by
  have hlt := macHash_lt a
  apply BitVec.eq_of_getLsbD_eq
  intro i hi
  unfold hashTable hashMaddr
  dsimp only
  rw [BitVec.getLsbD_or, getLsbD_one_shiftLeft]
  split
  · rename_i hhigh
    rw [BitVec.getLsbD_append, BitVec.getLsbD_append, BitVec.getLsbD_or, getLsbD_one_shiftLeft]
    split
    · have hne : i ≠ macHash a := by omega
      simp [hne]
    · have hiff : i - 32 < 32 ∧ i - 32 = macHash a - 32 ↔ i < 64 ∧ i = macHash a := by omega
      rw [decide_eq_decide.mpr hiff]
  · rename_i hlow
    rw [BitVec.getLsbD_append, BitVec.getLsbD_append, BitVec.getLsbD_or, getLsbD_one_shiftLeft]
    split
    · have hiff : i < 32 ∧ i = macHash a ↔ i < 64 ∧ i = macHash a := by omega
      rw [decide_eq_decide.mpr hiff]
    · have hne : i ≠ macHash a := by omega
      simp [hne]

/-- **The table holds the hashes of the groups**, and nothing else. -/
theorem getLsbD_listHashes (multi : List EtherAddr) {k : ℕ} (hk : k < 64) :
    (hashTable (listHashes multi)).getLsbD k = true ↔ ∃ a ∈ multi, IsHash a k := by
  unfold listHashes
  induction multi using List.reverseRecOn with
  | nil => simp [hashTable]
  | append_singleton multi a ih =>
      rw [List.foldl_append, List.foldl_cons, List.foldl_nil, hashTable_hashMaddr,
        BitVec.getLsbD_or, Bool.or_eq_true, ih, getLsbD_one_shiftLeft, decide_eq_true_iff]
      constructor
      · rintro (⟨b, hb, hh⟩ | ⟨-, hh⟩)
        · exact ⟨b, List.mem_append_left _ hb, hh⟩
        · exact ⟨a, by simp, isHash_iff.mpr hh⟩
      · rintro ⟨b, hb, hh⟩
        rcases List.mem_append.mp hb with hb | hb
        · exact Or.inl ⟨b, hb, hh⟩
        · obtain rfl := List.mem_singleton.mp hb
          exact Or.inr ⟨hk, isHash_iff.mp hh⟩

theorem accepts_iff {hashes : BitVec 32 × BitVec 32} {a : EtherAddr} :
    Accepts hashes a ↔ (hashTable hashes).getLsbD (macHash a) = true := by
  constructor
  · rintro ⟨h, hh, hbit⟩
    rwa [isHash_iff.mp hh] at hbit
  · exact fun hbit => ⟨macHash a, isHash_macHash a, hbit⟩

theorem accepts_listHashes {multi : List EtherAddr} {a : EtherAddr} :
    Accepts (listHashes multi) a ↔ ∃ b ∈ multi, IsHash b (macHash a) := by
  rw [accepts_iff, getLsbD_listHashes multi (macHash_lt a)]

theorem accepts_all (a : EtherAddr) : Accepts (0xffffffff#32, 0xffffffff#32) a := by
  rw [accepts_iff]
  have hall : hashTable (0xffffffff#32, 0xffffffff#32) = BitVec.allOnes 64 := by decide
  rw [hall, BitVec.getLsbD_allOnes]
  exact decide_eq_true (macHash_lt a)

/-- The two words are those of the table. -/
theorem hashTable_inj {hashes hashes' : BitVec 32 × BitVec 32}
    (h : hashTable hashes = hashTable hashes') : hashes = hashes' := by
  have hbit : ∀ i, (hashTable hashes).getLsbD i = (hashTable hashes').getLsbD i := by
    intro i
    rw [h]
  unfold hashTable at hbit
  refine Prod.ext ?_ ?_
  · apply BitVec.eq_of_getLsbD_eq
    intro i _
    have hi := hbit (32 + i)
    have hge : ¬ 32 + i < 32 := by omega
    rwa [BitVec.getLsbD_append, BitVec.getLsbD_append, if_neg hge, if_neg hge,
      Nat.add_sub_cancel_left] at hi
  · apply BitVec.eq_of_getLsbD_eq
    intro i hlt
    have hi := hbit i
    rwa [BitVec.getLsbD_append, BitVec.getLsbD_append, if_pos hlt, if_pos hlt] at hi

/-- The order of the list and repeated groups make no difference. -/
theorem listHashes_congr {multi multi' : List EtherAddr} (h : ∀ a, a ∈ multi' ↔ a ∈ multi) :
    listHashes multi' = listHashes multi := by
  apply hashTable_inj
  apply BitVec.eq_of_getLsbD_eq
  intro k hk
  rw [Bool.eq_iff_iff, getLsbD_listHashes _ hk, getLsbD_listHashes _ hk]
  simp only [h]

theorem listHashes_ne_zero_iff {multi : List EtherAddr} :
    listHashes multi ≠ (0#32, 0#32) ↔ multi ≠ [] := by
  constructor
  · rintro hne rfl
    exact hne rfl
  · intro hne
    rcases List.eq_nil_or_concat multi with hm | ⟨l, a, rfl⟩
    · exact absurd hm hne
    · rw [listHashes, List.concat_eq_append, List.foldl_append]
      exact hashMaddr_ne _ a

/-! ## What the drivers program -/

section Programmed

variable {P : XmacConfig} {s : CtlState}

/-- A bit that `rx_filter` decides is set as it decides. -/
theorem has_rxFilter {m : BitVec 32} (hm : m &&& P.nwcfg.filter = m) :
    has (rxFilter P s).nwcfg m = has (filterBits P s.flags s.multi) m := by
  refine has_congr ?_
  have hbits : (rxFilter P s).nwcfg &&& P.nwcfg.filter = filterBits P s.flags s.multi :=
    (rxFilter_coherent s).bits
  rw [← hbits, BitVec.and_assoc, BitVec.and_comm P.nwcfg.filter m, hm]

/-- Without `IFF_PROMISC` the table is used just when it is not empty. -/
theorem has_mcasthashen (hp : s.flags.promisc = false) :
    has (rxFilter P s).nwcfg P.nwcfg.mcasthashen = true ↔
      filterHashes s.flags s.multi ≠ (0#32, 0#32) := by
  have hpart : P.nwcfg.mcasthashen &&& P.nwcfg.filter = P.nwcfg.mcasthashen :=
    and_eq_of_part (and_or_absorb_left _ _)
  have hbcast : has (if s.flags.broadcast = true then 0#32 else P.nwcfg.bcastdi)
      P.nwcfg.mcasthashen = false := by
    split
    · exact has_of_disjoint BitVec.zero_and
    · exact has_of_disjoint ((BitVec.and_comm _ _).trans P.distinct.mcast_bcast)
  rw [has_rxFilter hpart, filterBits, if_neg (by rw [hp]; exact Bool.false_ne_true), has_or,
    hbcast, Bool.false_or]
  split
  · rename_i hne
    exact iff_of_true (has_self P.distinct.mcast_ne) hne
  · rename_i hne
    rw [has_of_disjoint BitVec.zero_and]
    exact iff_of_false Bool.false_ne_true hne

/-- With `IFF_PROMISC` everything is copied. -/
theorem has_copyallen (hp : s.flags.promisc = true) :
    has (rxFilter P s).nwcfg P.nwcfg.copyallen = true := by
  have hpart : P.nwcfg.copyallen &&& P.nwcfg.filter = P.nwcfg.copyallen :=
    and_or_absorb_right _ _
  rw [has_rxFilter hpart, filterBits, if_pos hp]
  exact has_self P.distinct.copy_ne

end Programmed

/-- The filter of a list of groups, and how the two drivers program it. -/
structure HashFilterExact (multi : List EtherAddr) : Prop where
  bits : ∀ k < 64, (hashTable (listHashes multi)).getLsbD k = true ↔ ∃ a ∈ multi, IsHash a k
  listed : ∀ a ∈ multi, Accepts (listHashes multi) a
  order : ∀ multi', (∀ a, a ∈ multi' ↔ a ∈ multi) → listHashes multi' = listHashes multi
  grows : ∀ multi' a, multi ⊆ multi' → Accepts (listHashes multi) a →
    Accepts (listHashes multi') a
  v1 : ∀ (P : XmacConfig) (s : CtlState), s.multi = multi → s.flags.promisc = false →
    s.flags.allmulti = false →
      ((rxFilter P s).hashh, (rxFilter P s).hashl) = listHashes multi ∧
      (has (rxFilter P s).nwcfg P.nwcfg.mcasthashen = true ↔ multi ≠ [])
  v2 : ∀ (h : MsgFilter) (c : FilterCall), c.multi = multi → c.flags.promisc = false →
    c.flags.allmulti = false → (msgRxFilter h c).mcHash = listHashes multi
  v1All : ∀ (P : XmacConfig) (s : CtlState), s.multi = multi → s.flags.allmulti = true →
    if s.flags.promisc then has (rxFilter P s).nwcfg P.nwcfg.copyallen = true
    else has (rxFilter P s).nwcfg P.nwcfg.mcasthashen = true ∧
      ∀ a, Accepts ((rxFilter P s).hashh, (rxFilter P s).hashl) a
  v2All : ∀ (h : MsgFilter) (c : FilterCall), c.multi = multi → c.flags.allmulti = true →
    if c.flags.promisc then (msgRxFilter h c).promisc = true
    else ∀ a, Accepts (msgRxFilter h c).mcHash a

/-- **The multicast hash filter**, for every list of groups. -/
theorem hash_filter_exact (multi : List EtherAddr) : HashFilterExact multi where
  bits := fun _ hk => getLsbD_listHashes multi hk
  listed := fun a ha => accepts_listHashes.mpr ⟨a, ha, isHash_macHash a⟩
  order := fun _ h => listHashes_congr h
  grows := by
    intro multi' a hsub ha
    obtain ⟨b, hb, hh⟩ := accepts_listHashes.mp ha
    exact accepts_listHashes.mpr ⟨b, hsub hb, hh⟩
  v1 := by
    rintro P s rfl hp hall
    have hhash : filterHashes s.flags s.multi = listHashes s.multi := by
      rw [filterHashes, hp, hall]
      rfl
    refine ⟨hhash, ?_⟩
    rw [has_mcasthashen hp, hhash, listHashes_ne_zero_iff]
  v2 := by
    rintro h c rfl hp hall
    rw [msgRxFilter_mcHash, filterHashes, hp, hall]
    rfl
  v1All := by
    rintro P s rfl hall
    split
    · rename_i hp
      exact has_copyallen hp
    · rename_i hp
      have hp' := Bool.eq_false_of_not_eq_true hp
      have hhash : filterHashes s.flags s.multi = (0xffffffff#32, 0xffffffff#32) := by
        rw [filterHashes, hp', hall]
        rfl
      refine ⟨?_, ?_⟩
      · rw [has_mcasthashen hp', hhash]
        decide
      · intro a
        change Accepts (filterHashes s.flags s.multi) a
        rw [hhash]
        exact accepts_all a
  v2All := by
    rintro h c rfl hall
    split
    · rename_i hp
      rw [msgRxFilter_promisc, hp, Bool.or_true]
    · rename_i hp
      intro a
      rw [msgRxFilter_mcHash, filterHashes, Bool.eq_false_of_not_eq_true hp, hall]
      exact accepts_all a

end Phytium.Xmac
