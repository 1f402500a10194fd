import PhytiumSdk.Xmac.LinkCoherence

/-!
# Register shadows and checksum offload

`net_cfg_shadow` and `net_ctl_shadow` stand for what `NWCFG` and `NWCTRL` are
to hold. Every function that edits the first writes it out at once; a command
goes to `NWCTRL` next to the second and is never stored. The capabilities of
the interface decide one bit of `NWCFG` and one of `DMACR`: `config` writes
both bits anew, and `SIOCSIFCAP` follows every change, also while the interface
is down and `config` is yet to come.

The machine is that of the cached media word, with the commands of
`start_locked` and the interrupt handler, and `detach`, which resets the
hardware under an interface that stays marked as running.
-/

namespace Phytium.Xmac

open Lib Lib.Mask

/-- The bits of `NWCTRL` that give a command. -/
structure CommandMasks where
  starttx : BitVec 32
  statclr : BitVec 32
  flushDpram : BitVec 32

/-- The bits in which `NWCTRL` may differ from its shadow. -/
def CommandMasks.all (C : CommandMasks) : BitVec 32 :=
  C.starttx ||| C.statclr ||| C.flushDpram

/-- The checksum bits are no part of the other masks. That `rx_filter` and
`mediachange` have other bits of `NWCFG` is in `NwcfgMasks.Distinct`. -/
structure OffloadMasks (P : XmacConfig) : Prop where
  rx_ne : P.nwcfg.rxchksumen ≠ 0#32
  rx_keep : P.nwcfg.keep &&& P.nwcfg.rxchksumen = 0#32
  rx_fixed : P.nwcfg.fixed &&& P.nwcfg.rxchksumen = 0#32
  rx_sgmii : P.nwcfg.sgmiiModeEnable &&& P.nwcfg.rxchksumen = 0#32
  rx_pcssel : P.nwcfg.pcssel &&& P.nwcfg.rxchksumen = 0#32
  tx_ne : P.ctrl.tcpcksum ≠ 0#32
  tx_base : P.ctrl.dmacrBase &&& P.ctrl.tcpcksum = 0#32

/-- The control state with its lock, and whether `phytium_xmac_detach` has
stopped the hardware. -/
structure ShadowState where
  link : LinkState
  detached : Bool

inductive ShadowEvent where
  | link (e : LinkEvent)
  /-- `phytium_xmac_start_locked` has queued a packet: it tests `IFF_DRV_OACTIVE`
  and not whether the interface runs -/
  | start
  /-- `phytium_xmac_intr` finds that the receiver ran out of buffers; since it
  tested `IFF_DRV_RUNNING`, `recv` may have let go of the lock -/
  | rxUsed
  | detach
deriving DecidableEq

/-- A command goes out next to `net_ctl_shadow`. -/
def command (bit : BitVec 32) (s : CtlState) : CtlState :=
  { s with nwctrl := s.netCtlShadow ||| bit }

/-- The step of a function that has the lock, apart from those of `LinkEvent`. -/
def commandStep (P : XmacConfig) (C : CommandMasks) (s : ShadowState) :
    ShadowEvent → ShadowState
  | .start => { s with link := { s.link with ctl := command C.starttx s.link.ctl } }
  | .rxUsed => { s with link := { s.link with ctl := command C.flushDpram s.link.ctl } }
  | .detach => { link := { s.link with ctl := stopCtl P s.link.ctl }, detached := true }
  | .link _ => s

def shadowStep (P : XmacConfig) (C : CommandMasks) (s : ShadowState) (e : ShadowEvent) :
    Option ShadowState :=
  match e with
  | .link e => (linkStep P s.link e).map fun l => { s with link := l }
  | e => if s.link.held then some (commandStep P C s e) else none

/-- The driver from `phytium_xmac_attach` on. -/
def shadowSystem (P : XmacConfig) (C : CommandMasks) : System ShadowState ShadowEvent where
  init := fun s => s = ⟨⟨attachCtl P, false, [], none⟩, false⟩
  step := shadowStep P C

/-- The registers hold what their shadows say, a pending command apart. -/
structure Shadowed (C : CommandMasks) (t : CtlState) : Prop where
  nwcfg : t.nwcfg = t.netCfgShadow
  nwctrl : t.nwctrl &&& ~~~C.all = t.netCtlShadow &&& ~~~C.all

/-- The capabilities are consistent among themselves. -/
structure CapsSound (c : IfCaps) : Prop where
  hwassist : c.hwassist = c.txcsum
  vlan : c.vlanHwcsum = true → c.rxcsum = true ∧ c.txcsum = true

/-- The hardware computes the checksums the capabilities promise. -/
structure Offloaded (P : XmacConfig) (t : CtlState) : Prop where
  rxcsum : has t.nwcfg P.nwcfg.rxchksumen = t.caps.rxcsum
  txcsum : has t.dmacr P.ctrl.tcpcksum = t.caps.txcsum

variable {P : XmacConfig} {C : CommandMasks} {s s' : ShadowState} {t u : CtlState}

/-! ## The bits of a word -/

/-- `config` sets the receive checksum bit for `IFCAP_RXCSUM` and in no other
case: the bit is not among those it keeps. -/
theorem configCfg_rxchksumen (hP : OffloadMasks P) (t : CtlState) :
    has (configCfg P t) P.nwcfg.rxchksumen = t.caps.rxcsum := by
  obtain ⟨-, -, -, -, hspeed, -, -⟩ := rest_parts P.distinct.rest_speed
  rw [BitVec.and_comm] at hspeed
  have hkeep : has (t.netCfgShadow &&& P.nwcfg.keep) P.nwcfg.rxchksumen = false := by
    apply has_of_disjoint
    rw [BitVec.and_assoc, hP.rx_keep]
    exact BitVec.and_zero
  have hbase : has (t.netCfgShadow &&& P.nwcfg.keep ||| (P.nwcfg.fixed ||| P.nwcfg.speed))
      P.nwcfg.rxchksumen = false := by
    rw [has_or, has_or, hkeep, has_of_disjoint hP.rx_fixed, has_of_disjoint hspeed]
    rfl
  have hlink : has (t.netCfgShadow &&& P.nwcfg.keep ||| (P.nwcfg.fixed ||| P.nwcfg.speed) |||
      P.nwcfg.sgmiiModeEnable ||| P.nwcfg.pcssel) P.nwcfg.rxchksumen = false := by
    rw [has_or, has_or, hbase, has_of_disjoint hP.rx_sgmii, has_of_disjoint hP.rx_pcssel]
    rfl
  have hset (x : BitVec 32) : has (x ||| P.nwcfg.rxchksumen) P.nwcfg.rxchksumen = true := by
    rw [has_or, has_self hP.rx_ne, Bool.or_true]
  unfold configCfg
  dsimp only
  split
  · rename_i hrx
    rw [hset, hrx]
  · rename_i hrx
    rw [Bool.not_eq_true] at hrx
    rw [hrx]
    split
    · exact hlink
    · exact hbase

theorem config_offloaded (hP : OffloadMasks P) (t : CtlState) : Offloaded P (config P t) := by
  constructor
  · exact configCfg_rxchksumen hP t
  · show has (if t.caps.txcsum then _ else _) _ = t.caps.txcsum
    split
    · rename_i htx
      rw [has_or, has_self hP.tx_ne, Bool.or_true, htx]
    · rename_i htx
      rw [Bool.not_eq_true] at htx
      rw [has_of_disjoint hP.tx_base, htx]

/-- `SIOCSIFCAP` follows each change of a capability with its bit. -/
theorem setCap_offloaded (hP : OffloadMasks P) (reqTx reqRx : Bool) (hsh : t.nwcfg = t.netCfgShadow)
    (h : Offloaded P t) : Offloaded P (setCap P reqTx reqRx t) := by
  have hrx := h.rxcsum
  have htx := h.txcsum
  rw [hsh] at hrx
  unfold setCap
  dsimp only
  constructor <;> split_ifs <;>
    simp_all [has_self hP.rx_ne, has_self hP.tx_ne, has_clear]

theorem setCap_sound (reqTx reqRx : Bool) (h : CapsSound t.caps) :
    CapsSound (setCap P reqTx reqRx t).caps := by
  have hassist := h.hwassist
  unfold setCap
  dsimp only
  constructor <;> split_ifs <;> simp_all

/-! ## Every run -/

/-- Registers and capabilities in every state, and the checksum bits while the
interface is up. -/
structure ShadowInv (P : XmacConfig) (C : CommandMasks) (s : ShadowState) : Prop where
  shadowed : Shadowed C s.link.ctl
  sound : CapsSound s.link.ctl.caps
  offloaded : s.link.ctl.running = true → s.detached = false → Offloaded P s.link.ctl

/-- An edit of `NWCFG` alone that keeps the receive checksum bit. -/
theorem ShadowInv.frame {l : LinkState} (h : ShadowInv P C s)
    (hsh : l.ctl.nwcfg = l.ctl.netCfgShadow)
    (hbit : l.ctl.nwcfg &&& P.nwcfg.rxchksumen = s.link.ctl.nwcfg &&& P.nwcfg.rxchksumen)
    (hctl : l.ctl.nwctrl = s.link.ctl.nwctrl)
    (hctlsh : l.ctl.netCtlShadow = s.link.ctl.netCtlShadow)
    (hdma : l.ctl.dmacr = s.link.ctl.dmacr) (hcaps : l.ctl.caps = s.link.ctl.caps)
    (hrun : l.ctl.running = s.link.ctl.running) : ShadowInv P C { s with link := l } := by
  constructor
  · constructor
    · exact hsh
    · rw [hctl, hctlsh]
      exact h.shadowed.nwctrl
  · show CapsSound l.ctl.caps
    rw [hcaps]
    exact h.sound
  · intro hr hd
    obtain ⟨hrx, htx⟩ := h.offloaded (hrun ▸ hr) hd
    constructor
    · rw [has_congr hbit, hcaps]
      exact hrx
    · rw [hdma, hcaps]
      exact htx

theorem ShadowInv.same {l : LinkState} (h : ShadowInv P C s) (hctl : l.ctl = s.link.ctl) :
    ShadowInv P C { s with link := l } := by
  apply h.frame <;> rw [hctl]
  exact h.shadowed.nwcfg

/-- While the interface is down the registers may not follow the
capabilities. -/
theorem ShadowInv.down {l : LinkState} {d : Bool} (h : ShadowInv P C s) (hsh : Shadowed C l.ctl)
    (hcaps : l.ctl.caps = s.link.ctl.caps) (hdown : l.ctl.running = false ∨ d = true) :
    ShadowInv P C ⟨l, d⟩ := by
  refine ⟨hsh, ?_, ?_⟩
  · show CapsSound l.ctl.caps
    rw [hcaps]
    exact h.sound
  · intro hr hd
    rcases hdown with hdown | hdown
    · exact absurd (hdown.symm.trans hr) Bool.false_ne_true
    · exact absurd (hd.symm.trans hdown) Bool.false_ne_true

theorem setCap_control (reqTx reqRx : Bool) (t : CtlState) :
    (setCap P reqTx reqRx t).nwctrl = t.nwctrl ∧
    (setCap P reqTx reqRx t).netCtlShadow = t.netCtlShadow := by
  unfold setCap
  dsimp only
  split_ifs <;> exact ⟨rfl, rfl⟩

theorem setRefClk_control (speed : ℕ) (t : CtlState) :
    (setRefClk P speed t).nwctrl = t.nwctrl ∧
    (setRefClk P speed t).netCtlShadow = t.netCtlShadow ∧
    (setRefClk P speed t).dmacr = t.dmacr ∧ (setRefClk P speed t).caps = t.caps := by
  unfold setRefClk
  split <;> exact ⟨rfl, rfl, rfl, rfl⟩

theorem ShadowInv.setCap (hP : OffloadMasks P) (h : ShadowInv P C s) (reqTx reqRx : Bool) :
    ShadowInv P C { s with link := lockedStep P s.link (.setCap reqTx reqRx) } := by
  have hsh := (setCap_and P.distinct.rest_speed reqTx reqRx h.shadowed.nwcfg).1
  obtain ⟨hctl, hctlsh⟩ := setCap_control (P := P) reqTx reqRx s.link.ctl
  have hrun := (setCap_same (P := P) reqTx reqRx s.link.ctl).running
  refine ⟨⟨hsh, ?_⟩, setCap_sound reqTx reqRx h.sound, ?_⟩
  · show (Xmac.setCap P reqTx reqRx s.link.ctl).nwctrl &&& _ = _
    rw [hctl, h.shadowed.nwctrl, ← hctlsh]
    rfl
  · intro hr hd
    apply setCap_offloaded hP reqTx reqRx h.shadowed.nwcfg
    exact h.offloaded (hrun.symm.trans hr) hd

theorem ShadowInv.locked (hP : OffloadMasks P) (h : ShadowInv P C s) (e : LinkEvent) :
    ShadowInv P C { s with link := lockedStep P s.link e } := by
  obtain ⟨-, -, -, -, hspeed, -, -⟩ := rest_parts P.distinct.rest_speed
  obtain ⟨-, -, -, -, hfilter, -, -⟩ := rest_parts P.distinct.rest_filter
  rw [BitVec.and_comm] at hspeed hfilter
  cases e with
  | lock => exact h
  | resume i => exact h
  | unlock => exact h.same rfl
  | media media linkValid => exact h.frame h.shadowed.nwcfg rfl rfl rfl rfl rfl rfl
  | statchg =>
      unfold lockedStep
      dsimp only
      split
      · refine h.frame rfl ?_ rfl rfl rfl rfl rfl
        rw [mediachangeProgram_and hspeed, h.shadowed.nwcfg]
      · exact h
  | init =>
      unfold lockedStep initCtl
      dsimp only
      split
      · exact h.same rfl
      · exact ⟨⟨rfl, rfl⟩, h.sound, fun _ _ =>
          ⟨(config_offloaded hP s.link.ctl).rxcsum, (config_offloaded hP s.link.ctl).txcsum⟩⟩
  | down =>
      unfold lockedStep
      dsimp only
      split
      · exact h.down ⟨rfl, rfl⟩ rfl (Or.inl rfl)
      · exact h
  | rxFilter flags multi =>
      refine h.frame rfl ?_ rfl rfl rfl rfl rfl
      exact (rxFilter_and hfilter _).trans (congrArg (· &&& _) h.shadowed.nwcfg.symm)
  | setCap reqTx reqRx => exact h.setCap hP reqTx reqRx

theorem linkStep_shadow (hP : OffloadMasks P) (h : ShadowInv P C s) {e : LinkEvent} {l : LinkState}
    (hs : linkStep P s.link e = some l) : ShadowInv P C { s with link := l } := by
  unfold linkStep at hs
  split at hs
  · split at hs
    · cases hs
    · cases hs
      exact h.same rfl
  · split at hs
    · cases hs
    · rename_i speed _
      split at hs
      · cases hs
      · cases hs
        obtain ⟨hcfg, hsh, -, hrun⟩ := setRefClk_same (P := P) speed s.link.ctl
        obtain ⟨hctl, hctlsh, hdma, hcaps⟩ := setRefClk_control (P := P) speed s.link.ctl
        apply h.frame
        · exact hcfg.trans (h.shadowed.nwcfg.trans hsh.symm)
        · exact congrArg (· &&& _) hcfg
        · exact hctl
        · exact hctlsh
        · exact hdma
        · exact hcaps
        · exact hrun
  · obtain ⟨-, ht⟩ := Option.ite_none_right_eq_some.mp hs
    cases ht
    exact h.locked hP _

/-- The shadow with a command next to it differs from the shadow in that
command only. -/
theorem ShadowInv.command {bit : BitVec 32} (h : ShadowInv P C s) (hbit : bit &&& ~~~C.all = 0#32) :
    ShadowInv P C { s with link := { s.link with ctl := command bit s.link.ctl } } :=
  ⟨⟨h.shadowed.nwcfg, or_and_of_disjoint hbit⟩, h.sound, fun hr hd =>
    ⟨(h.offloaded hr hd).rxcsum, (h.offloaded hr hd).txcsum⟩⟩

theorem starttx_command : C.starttx &&& ~~~C.all = 0#32 :=
  and_not_of_part (and_eq_of_part (and_or_absorb_left _ _))

theorem flushDpram_command : C.flushDpram &&& ~~~C.all = 0#32 :=
  and_not_of_part (and_or_absorb_right _ _)

theorem shadowStep_inv (hP : OffloadMasks P) {e : ShadowEvent} (h : ShadowInv P C s)
    (hs : shadowStep P C s e = some s') : ShadowInv P C s' := by
  cases e with
  | link e =>
      obtain ⟨l, hl, rfl⟩ := Option.map_eq_some_iff.mp hs
      exact linkStep_shadow hP h hl
  | start =>
      obtain ⟨-, ht⟩ := Option.ite_none_right_eq_some.mp hs
      cases ht
      exact h.command starttx_command
  | rxUsed =>
      obtain ⟨-, ht⟩ := Option.ite_none_right_eq_some.mp hs
      cases ht
      exact h.command flushDpram_command
  | detach =>
      obtain ⟨-, ht⟩ := Option.ite_none_right_eq_some.mp hs
      cases ht
      exact h.down ⟨rfl, rfl⟩ rfl (Or.inr rfl)

/-- **Shadow coherence.** Whenever no function is in the middle of its work, so
whenever the lock is free, both registers hold what their shadows say, and in a
running interface that has not been detached the checksum bits are those of the
capabilities. -/
theorem shadow_coherent (hP : OffloadMasks P) (h : (shadowSystem P C).Reachable s) :
    Shadowed C s.link.ctl ∧
    (s.link.ctl.running = true → s.detached = false →
      Offloaded P s.link.ctl ∧ CapsSound s.link.ctl.caps) := by
  have hinv : ShadowInv P C s := by
    apply h.invariant
    · rintro s rfl
      exact ⟨⟨rfl, rfl⟩, ⟨rfl, fun hv => Bool.noConfusion hv⟩, fun hr => Bool.noConfusion hr⟩
    · intro s e s' hi (hs : shadowStep P C s e = some s')
      exact shadowStep_inv hP hi hs
  exact ⟨hinv.shadowed, fun hr hd => ⟨hinv.offloaded hr hd, hinv.sound⟩⟩

/-- Both checksums are asked for while the interface is down; then it comes up
and sends a packet. -/
def offloadRun : List ShadowEvent :=
  [.link .lock, .link (.setCap true true), .link .unlock, .link .lock, .link .init, .start,
    .link .unlock]

theorem shadow_coherent_offload :
    ∃ s, (shadowSystem sampleConfig ⟨0x200#32, 0x20#32, 0x40000#32⟩).run
        ⟨⟨attachCtl sampleConfig, false, [], none⟩, false⟩ offloadRun = some s ∧
      s.link.ctl.running = true ∧ s.link.ctl.caps.vlanHwcsum = true ∧
      s.link.ctl.nwctrl ≠ s.link.ctl.netCtlShadow ∧
      Shadowed ⟨0x200#32, 0x20#32, 0x40000#32⟩ s.link.ctl ∧ Offloaded sampleConfig s.link.ctl := by
  have hrun : ((shadowSystem sampleConfig ⟨0x200#32, 0x20#32, 0x40000#32⟩).run
      ⟨⟨attachCtl sampleConfig, false, [], none⟩, false⟩ offloadRun).map
        (fun s => (s.detached, s.link.ctl.running, s.link.ctl.caps.vlanHwcsum,
          decide (s.link.ctl.nwctrl ≠ s.link.ctl.netCtlShadow))) =
        some (false, true, true, true) := by
    decide
  obtain ⟨s, hs, hq⟩ := Option.map_eq_some_iff.mp hrun
  simp only [Prod.mk.injEq, decide_eq_true_eq] at hq
  obtain ⟨hdet, hup, hvlan, hne⟩ := hq
  obtain ⟨hsh, hoff⟩ := shadow_coherent ⟨by decide, by decide, by decide, by decide, by decide,
    by decide, by decide⟩ (System.reachable_of_run _ rfl hs)
  exact ⟨s, hs, hup, hvlan, hne, hsh, (hoff hup hdet).1⟩

end Phytium.Xmac
