import PhytiumSdk.Lib.Record
import PhytiumSdk.Xmac.LinkCoherence

/-!
# The speed of a link

A media word decides the speed bits of `NWCFG`, the speed the reference clock
is set for, and in the second driver the arguments of `FXmacMsgInterfaceLinkup`.
`mediachange` is taken as a whole here, for any list of words and from any
state of the registers.

Which words there are, and how fast they are, is a matter of `if_media.h`.
-/

namespace Phytium.Xmac

open Lib Lib.Mask

/-- The speed of a media word, in Mb/s. -/
structure MediaSpeeds (M : MediaMasks) where
  speed : BitVec 32 → ℕ
  of1000T : ∀ w, w &&& M.tmask = M.m1000T → speed w = 1000
  of100Tx : ∀ w, w &&& M.tmask = M.m100Tx → speed w = 100

/-- The words of the sample configuration, and 10 Mb/s. -/
def sampleSpeeds : MediaSpeeds sampleConfig.media where
  speed := fun w =>
    match (w &&& 0x1F#32).toNat with
    | 16 => 1000
    | 6 => 100
    | 3 => 10
    | _ => 0
  of1000T := by
    intro w hw
    have hsub : w &&& 0x1F#32 = 16#32 := hw
    simp [hsub]
  of100Tx := by
    intro w hw
    have hsub : w &&& 0x1F#32 = 6#32 := hw
    simp [hsub]

/-- The three bits `mediachange` decides are different ones. -/
structure NwcfgMasks.SpeedBits (K : NwcfgMasks) : Prop where
  speed100_ne : K.speed100 ≠ 0#32
  speed1000_ne : K.speed1000 ≠ 0#32
  fden_ne : K.fden ≠ 0#32
  speed100_speed1000 : K.speed100 &&& K.speed1000 = 0#32
  speed100_fden : K.speed100 &&& K.fden = 0#32
  speed1000_fden : K.speed1000 &&& K.fden = 0#32

theorem sampleConfig_speedBits : sampleConfig.nwcfg.SpeedBits := by
  constructor <;> decide

/-- The speed a `NWCFG` selects. -/
def macSpeed (K : NwcfgMasks) (nwcfg : BitVec 32) : ℕ :=
  if has nwcfg K.speed1000 then 1000 else if has nwcfg K.speed100 then 100 else 10

/-! ## `phytium_xmac_mediachange` -/

/-- The control state, and the `interface_speed` the reference clock has been
set for. -/
structure ClockState where
  ctl : CtlState
  refSpeed : ℕ

/-- `phytium_xmac_mediachange`, when the MII layer has found the word. -/
def mediachange (P : XmacConfig) (media : BitVec 32) (s : ClockState) : ClockState :=
  let ctl := mediachangeProgram P { s.ctl with media := media }
  { ctl := mediachangeCache (setRefClk P (interfaceSpeed P media) ctl)
    refSpeed := interfaceSpeed P media }

/-- The link has one speed, that of the media, and the media's duplex. -/
structure SpeedsAgree (P : XmacConfig) (S : MediaSpeeds P.media) (media : BitVec 32)
    (s : ClockState) : Prop where
  clock : macSpeed P.nwcfg s.ctl.nwcfg = s.refSpeed
  speed : s.refSpeed = S.speed media
  duplex : has s.ctl.nwcfg P.nwcfg.fden = has media P.media.fdx

/-- The switch of `mediachange` has a case for the word. -/
def Listed (M : MediaMasks) (media : BitVec 32) : Prop :=
  media &&& M.tmask = M.m1000T ∨ media &&& M.tmask = M.m100Tx

variable {P : XmacConfig} {K : NwcfgMasks} {media : BitVec 32}

theorem mediachange_nwcfg (s : ClockState) :
    (mediachange P media s).ctl.nwcfg =
      (mediachangeProgram P { s.ctl with media := media }).nwcfg :=
  (setRefClk_same _ _).1

/-- A speed bit of the register is that of `mediaBits`. -/
theorem mediachange_has {m : BitVec 32} (hm : P.nwcfg.speed &&& m = m) (s : ClockState) :
    has (mediachange P media s).ctl.nwcfg m = has (mediaBits P media) m := by
  apply has_congr
  have hbits := mediachangeProgram_speed (P := P) { s.ctl with media := media }
  rw [mediachange_nwcfg, ← hm, ← BitVec.and_assoc, ← BitVec.and_assoc, hbits, mediaBits_speed]

theorem speed_and (K : NwcfgMasks) :
    K.speed &&& K.speed100 = K.speed100 ∧ K.speed &&& K.speed1000 = K.speed1000 ∧
      K.speed &&& K.fden = K.fden := by
  refine ⟨?_, ?_, ?_⟩
  · rw [BitVec.and_comm]
    exact and_eq_of_part (and_or_absorb_left _ _)
  · rw [BitVec.and_comm]
    exact and_eq_of_part (and_or_absorb_right _ _)
  · rw [BitVec.and_comm]
    exact and_or_absorb_right _ _

/-- The duplex bit follows the word, whatever the speed. -/
theorem mediaBits_fden (hK : P.nwcfg.SpeedBits) :
    has (mediaBits P media) P.nwcfg.fden = has media P.media.fdx := by
  have hduplex : has (if has media P.media.fdx then P.nwcfg.fden else 0#32) P.nwcfg.fden =
      has media P.media.fdx := by
    split
    · rename_i hfdx
      rw [has_self hK.fden_ne, hfdx]
    · rename_i hfdx
      rw [Bool.not_eq_true] at hfdx
      rw [hfdx]
      exact has_of_disjoint BitVec.zero_and
  have h100 : has P.nwcfg.speed100 P.nwcfg.fden = false := has_of_disjoint hK.speed100_fden
  have h1000 : has P.nwcfg.speed1000 P.nwcfg.fden = false := has_of_disjoint hK.speed1000_fden
  have hzero : has 0#32 P.nwcfg.fden = false := has_of_disjoint BitVec.zero_and
  rw [mediaBits, has_or, hduplex]
  split
  · rw [has_or, h100, h1000]
    rfl
  · split
    · rw [h100]
      rfl
    · rw [hzero]
      rfl

/-- The speed bits of a word the switch has a case for are those of its clock; any
other word leaves them clear, which is 10 Mb/s. -/
theorem macSpeed_mediaBits (hK : P.nwcfg.SpeedBits) :
    macSpeed P.nwcfg (mediaBits P media) =
      if media &&& P.media.tmask = P.media.m1000T then 1000
      else if media &&& P.media.tmask = P.media.m100Tx then 100 else 10 := by
  have hfden1000 : has (if has media P.media.fdx then P.nwcfg.fden else 0#32)
      P.nwcfg.speed1000 = false := by
    split
    · rw [has_eq_false_iff, BitVec.and_comm, hK.speed1000_fden]
    · exact has_of_disjoint BitVec.zero_and
  have hfden100 : has (if has media P.media.fdx then P.nwcfg.fden else 0#32)
      P.nwcfg.speed100 = false := by
    split
    · rw [has_eq_false_iff, BitVec.and_comm, hK.speed100_fden]
    · exact has_of_disjoint BitVec.zero_and
  have h1000 : has P.nwcfg.speed1000 P.nwcfg.speed1000 = true := has_self hK.speed1000_ne
  have h100 : has P.nwcfg.speed100 P.nwcfg.speed100 = true := has_self hK.speed100_ne
  have hcross : has P.nwcfg.speed100 P.nwcfg.speed1000 = false :=
    has_of_disjoint hK.speed100_speed1000
  have hzero : ∀ m : BitVec 32, has 0#32 m = false := fun m => has_of_disjoint BitVec.zero_and
  unfold macSpeed mediaBits
  rw [has_or, has_or, hfden1000, hfden100, Bool.or_false, Bool.or_false]
  split <;> rename_i hT
  · rw [has_or, h1000, Bool.or_true, if_pos rfl]
  · split
    · rw [hcross]
      rfl
    · rw [hzero, hzero]
      rfl

/-- **One call of `mediachange`** leaves one speed just when its switch has a case
for the word. -/
theorem speedsAgree_iff (hK : P.nwcfg.SpeedBits) (S : MediaSpeeds P.media) (s : ClockState) :
    SpeedsAgree P S media (mediachange P media s) ↔ Listed P.media media := by
  obtain ⟨h100, h1000, hfden⟩ := speed_and P.nwcfg
  have hmac : macSpeed P.nwcfg (mediachange P media s).ctl.nwcfg =
      macSpeed P.nwcfg (mediaBits P media) := by
    rw [macSpeed, mediachange_has h1000, mediachange_has h100, macSpeed]
  have hduplex : has (mediachange P media s).ctl.nwcfg P.nwcfg.fden = has media P.media.fdx := by
    rw [mediachange_has hfden, mediaBits_fden hK]
  rw [macSpeed_mediaBits hK] at hmac
  constructor
  · rintro ⟨hclock, -, -⟩
    by_contra hn
    obtain ⟨hT, hTx⟩ := not_or.mp hn
    rw [hmac, if_neg hT, if_neg hTx] at hclock
    -- the clock keeps the 1000 Mb/s it is initialized with
    have hdefault : (mediachange P media s).refSpeed = 1000 := by
      simp only [mediachange, interfaceSpeed, if_neg hT, if_neg hTx]
    rw [hdefault] at hclock
    exact absurd hclock (by decide)
  · intro hlisted
    have hspeed : interfaceSpeed P media = S.speed media ∧
        macSpeed P.nwcfg (mediachange P media s).ctl.nwcfg = interfaceSpeed P media := by
      rw [hmac, interfaceSpeed]
      split <;> rename_i hT
      · exact ⟨(S.of1000T media hT).symm, rfl⟩
      · rcases hlisted with h | hTx
        · exact absurd h hT
        · rw [if_pos hTx, if_pos hTx]
          exact ⟨(S.of100Tx media hTx).symm, rfl⟩
    exact ⟨hspeed.2, hspeed.1, hduplex⟩

/-- On a SGMII board both versions of the hardware are given the rate of the
clock's speed. -/
theorem mediachange_hsmac (hs : P.sgmii = true) (s : ClockState) :
    (mediachange P media s).ctl.hsmac = highSpeedConfig (mediachange P media s).refSpeed := by
  simp only [mediachange, mediachangeCache, setRefClk]
  split
  · simp only [setRefClk2p0, hs, interfaceSpeed]
    split
    · rfl
    · split <;> rfl
  · rfl

/-! ## `phytium_xmac_msg_mediachange` -/

/-- What the second driver has told the firmware about the link, and the media
word it has cached. -/
structure MsgLink where
  /-- the speed and the duplex of `FXmacMsgInterfaceLinkup` -/
  linkup : Option (ℕ × Bool)
  miiMediaActive : BitVec 32

/-- `phytium_xmac_msg_mediachange`. -/
def msgMediachange (media : BitVec 32) (_ : MsgLink) : MsgLink where
  linkup := some (1000, true)
  miiMediaActive := media

/-- The firmware has been given the media's speed and duplex. -/
def MsgSpeedsAgree {M : MediaMasks} (S : MediaSpeeds M) (media : BitVec 32) (s : MsgLink) : Prop :=
  s.linkup = some (S.speed media, has media M.fdx)

theorem msgSpeedsAgree_iff {M : MediaMasks} (S : MediaSpeeds M) (s : MsgLink) :
    MsgSpeedsAgree S media (msgMediachange media s) ↔
      S.speed media = 1000 ∧ has media M.fdx = true := by
  unfold MsgSpeedsAgree msgMediachange
  rw [Option.some.injEq, Prod.mk.injEq, eq_comm, and_congr_right_iff]
  exact fun _ => eq_comm

/-! ## Link changes, one after the other -/

/-- After each link change of the list, the state meets the condition. -/
def AfterEach {σ : Type*} (change : BitVec 32 → σ → σ) (agree : BitVec 32 → σ → Prop) (s : σ)
    (ws : List (BitVec 32)) : Prop :=
  Each (fun pre w => agree w ((pre ++ [w]).foldl (fun t v => change v t) s)) ws

/-- What a condition on the word decides, from any state, holds after every
change just when all words meet it. -/
theorem afterEach_iff {σ : Type*} {change : BitVec 32 → σ → σ} {agree : BitVec 32 → σ → Prop}
    {good : BitVec 32 → Prop} (h : ∀ s w, agree w (change w s) ↔ good w) (s : σ)
    (ws : List (BitVec 32)) : AfterEach change agree s ws ↔ ∀ w ∈ ws, good w := by
  apply each_iff_forall_mem
  intro pre w
  rw [List.foldl_concat]
  exact h _ w

/-- **One speed**, after every link change of any list and from any state: in the
first driver if and only if the switch of `mediachange` has a case for every
word, in the second if and only if every word is one of 1000 Mb/s and full
duplex. -/
theorem link_speeds_agree_iff (P : XmacConfig) (hK : P.nwcfg.SpeedBits) (S : MediaSpeeds P.media)
    (s : ClockState) (t : MsgLink) (ws : List (BitVec 32)) :
    (AfterEach (mediachange P) (SpeedsAgree P S) s ws ↔ ∀ w ∈ ws, Listed P.media w) ∧
      (AfterEach msgMediachange (MsgSpeedsAgree S) t ws ↔
        ∀ w ∈ ws, S.speed w = 1000 ∧ has w P.media.fdx = true) := by
  have hone : ∀ u w, SpeedsAgree P S w (mediachange P w u) ↔ Listed P.media w :=
    fun u _ => speedsAgree_iff hK S u
  have htwo : ∀ u w, MsgSpeedsAgree S w (msgMediachange w u) ↔
      S.speed w = 1000 ∧ has w P.media.fdx = true :=
    fun u _ => msgSpeedsAgree_iff S u
  exact ⟨afterEach_iff hone s ws, afterEach_iff htwo t ws⟩

/-- `IFM_10_T` with full duplex. -/
def media10T : BitVec 32 := 0x100003#32

/-- The link of the first driver falls back from 1000 to 100 Mb/s, that of the
second stays at 1000. -/
theorem link_speeds_agree_at_100 :
    AfterEach (mediachange sampleConfig) (SpeedsAgree sampleConfig sampleSpeeds)
        ⟨attachCtl sampleConfig, 0⟩ [0x100010#32, 0x100006#32] ∧
      AfterEach msgMediachange (MsgSpeedsAgree sampleSpeeds) ⟨none, 0#32⟩ [0x100010#32] := by
  have hboth := fun ws => link_speeds_agree_iff sampleConfig sampleConfig_speedBits sampleSpeeds
    ⟨attachCtl sampleConfig, 0⟩ ⟨none, 0#32⟩ ws
  constructor
  · refine (hboth _).1.mpr ?_
    intro w hw
    rcases List.mem_pair.mp hw with rfl | rfl
    · exact Or.inl rfl
    · exact Or.inr rfl
  · refine (hboth _).2.mpr ?_
    intro w hw
    rw [List.mem_singleton.mp hw]
    exact ⟨rfl, rfl⟩

/-- At 10 Mb/s the clock and the firmware are set for 1000. -/
theorem link_speeds_disagree_at_10 :
    (¬ ∀ s ws, AfterEach (mediachange sampleConfig) (SpeedsAgree sampleConfig sampleSpeeds) s ws) ∧
      ¬ ∀ t ws, AfterEach msgMediachange (MsgSpeedsAgree sampleSpeeds) t ws := by
  constructor
  · intro h
    have hagree := h ⟨attachCtl sampleConfig, 0⟩ [media10T] [] media10T List.prefix_rfl
    exact absurd hagree.speed (by decide)
  · intro h
    have hagree : some (1000, true) = some (10, true) :=
      h ⟨none, 0#32⟩ [media10T] [] media10T List.prefix_rfl
    exact absurd hagree (by decide)

end Phytium.Xmac
