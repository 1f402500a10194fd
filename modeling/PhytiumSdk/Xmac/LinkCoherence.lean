import PhytiumSdk.Lib.System
import PhytiumSdk.Xmac.Control

/-!
# The cached media word

`mii_media_active` of the softc lets a status callback skip `mediachange` when
the media is the one last programmed. `mediachange` drops the lock between
programming and caching, so the machine here runs at the granularity of the
lock: `held` says whether some function has it, `windows` lists the
`mediachange` calls that have dropped it.

The cache and the register part ways in two manners. `config` rewrites the
speed bits under a word that is already cached, and what is cached at the end
of a window need not be what was programmed at its start. In runs without
either they stay in step. `written` is the history that tells: the media word
the speed bits were last written for.
-/

namespace Phytium.Xmac

open Lib Lib.Mask

variable {P : XmacConfig}

/-- The control state, the lock, and the speeds with which the `mediachange`
calls that have dropped it set the reference clock. -/
structure LinkState where
  ctl : CtlState
  held : Bool
  windows : List ℕ
  /-- What the speed bits were last written for: the media word of a
  `mediachange`, or `none` for the fixed choice of `config`. -/
  written : Option (BitVec 32)

/-- The speed and duplex bits that go with `written`. -/
def writtenBits (P : XmacConfig) : Option (BitVec 32) → BitVec 32
  | none => P.nwcfg.speed
  | some media => mediaBits P media

inductive LinkEvent where
  /-- a function of the driver takes the lock -/
  | lock
  | unlock
  /-- the MII layer finds a media word and a status -/
  | media (media : BitVec 32) (linkValid : Bool)
  /-- the MII layer calls `statchg` or `linkchg` -/
  | statchg
  /-- the `i`-th open `mediachange` goes on, and takes the lock again -/
  | resume (i : ℕ)
  /-- `phytium_xmac_init_locked` up to `mii_mediachg` -/
  | init
  /-- `SIOCSIFFLAGS` takes the interface down -/
  | down
  /-- `SIOCSIFFLAGS`, `SIOCADDMULTI` or `SIOCDELMULTI` program the filter -/
  | rxFilter (flags : IfFlags) (multi : List EtherAddr)
  | setCap (reqTx reqRx : Bool)
deriving DecidableEq

/-- The step of a function that has the lock. -/
def lockedStep (P : XmacConfig) (s : LinkState) : LinkEvent → LinkState
  | .unlock => { s with held := false }
  | .media media linkValid =>
      { s with ctl := { s.ctl with media := media, linkValid := linkValid } }
  | .statchg =>
      if mediaChanged s.ctl then
        { ctl := mediachangeProgram P s.ctl
          held := false
          windows := s.windows ++ [interfaceSpeed P s.ctl.media]
          written := some s.ctl.media }
      else s
  | .init =>
      { s with
        ctl := initCtl P s.ctl
        written := if s.ctl.running then s.written else none }
  | .down =>
      if s.ctl.running then { s with ctl := stopCtl P { s.ctl with running := false } } else s
  | .rxFilter flags multi =>
      { s with ctl := rxFilter P { s.ctl with flags := flags, multi := multi } }
  | .setCap reqTx reqRx => { s with ctl := setCap P reqTx reqRx s.ctl }
  | _ => s

def linkStep (P : XmacConfig) (s : LinkState) (e : LinkEvent) : Option LinkState :=
  match e with
  | .lock => if s.held then none else some { s with held := true }
  | .resume i =>
      match s.windows[i]? with
      | none => none
      | some speed =>
          if s.held then none
          else
            some
              { ctl := mediachangeCache (setRefClk P speed s.ctl)
                held := true
                windows := s.windows.eraseIdx i
                written := s.written }
  | e => if s.held then some (lockedStep P s e) else none

/-- The driver and the MII layer from `phytium_xmac_attach` on. -/
def linkSystem (P : XmacConfig) : System LinkState LinkEvent where
  init := fun s => s = ⟨attachCtl P, false, [], none⟩
  step := linkStep P

/-- In a running interface with the lock free and no `mediachange` open, the
register has the speed and duplex of the cached word. -/
def LinkCoherent (P : XmacConfig) (s : LinkState) : Prop :=
  s.held = false → s.windows = [] → s.ctl.running = true → s.ctl.miiMediaActive ≠ 0#32 →
    s.ctl.nwcfg &&& P.nwcfg.speed = mediaBits P s.ctl.miiMediaActive

instance (s : LinkState) : Decidable (LinkCoherent P s) := by
  unfold LinkCoherent
  infer_instance

/-- The interface is only brought up while no word is cached that `config`
contradicts, and the word that `mediachange` is about to cache, taking the lock
back in a running interface, has the speed and duplex of the one the register
was last written for. -/
def linkOk (P : XmacConfig) (s : LinkState) : LinkEvent → Prop
  | .init =>
      s.ctl.running = true ∨ s.windows ≠ [] ∨ s.ctl.miiMediaActive = 0#32 ∨
        mediaBits P s.ctl.miiMediaActive = P.nwcfg.speed
  | .resume _ =>
      1 < s.windows.length ∨ s.ctl.running = false ∨ s.ctl.media = 0#32 ∨
        writtenBits P s.written = mediaBits P s.ctl.media
  | _ => True

instance (s : LinkState) (e : LinkEvent) : Decidable (linkOk P s e) := by
  unfold linkOk
  split <;> infer_instance

/-! ## The speed bits -/

/-- All of `mediaBits` lies within the speed bits. -/
theorem mediaBits_speed (media : BitVec 32) :
    mediaBits P media &&& P.nwcfg.speed = mediaBits P media := by
  have h100 : P.nwcfg.speed100 &&& P.nwcfg.speed = P.nwcfg.speed100 :=
    and_eq_of_part (and_or_absorb_left _ _)
  have h1000 : P.nwcfg.speed1000 &&& P.nwcfg.speed = P.nwcfg.speed1000 :=
    and_eq_of_part (and_or_absorb_right _ _)
  have hfd : P.nwcfg.fden &&& P.nwcfg.speed = P.nwcfg.fden := and_or_absorb_right _ _
  rw [mediaBits, BitVec.and_or_distrib_right]
  congr 1
  · split
    · rw [BitVec.and_or_distrib_right, h100, h1000]
    · split
      · exact h100
      · exact BitVec.zero_and
  · split
    · exact hfd
    · exact BitVec.zero_and

theorem mediachangeProgram_speed (s : CtlState) :
    (mediachangeProgram P s).nwcfg &&& P.nwcfg.speed = mediaBits P s.media := by
  show ((s.netCfgShadow &&& ~~~P.nwcfg.speed) ||| mediaBits P s.media) &&& P.nwcfg.speed = _
  rw [BitVec.and_or_distrib_right, clear_and_self, mediaBits_speed, BitVec.zero_or]

theorem configCfg_speed (s : CtlState) : configCfg P s &&& P.nwcfg.speed = P.nwcfg.speed := by
  rw [configCfg_and P.distinct.rest_speed, BitVec.and_self]

theorem setRefClk_same (speed : ℕ) (s : CtlState) :
    (setRefClk P speed s).nwcfg = s.nwcfg ∧
    (setRefClk P speed s).netCfgShadow = s.netCfgShadow ∧
    (setRefClk P speed s).media = s.media ∧ (setRefClk P speed s).running = s.running := by
  unfold setRefClk
  split <;> exact ⟨rfl, rfl, rfl, rfl⟩

/-! ## Every run -/

/-- The register has the speed it was last written for, and without an open
`mediachange` it agrees with the cached word. -/
structure LinkInv (P : XmacConfig) (s : LinkState) : Prop where
  shadow : s.ctl.nwcfg = s.ctl.netCfgShadow
  written : s.ctl.running = true → s.ctl.nwcfg &&& P.nwcfg.speed = writtenBits P s.written
  settled : s.windows = [] → s.ctl.running = true → s.ctl.miiMediaActive ≠ 0#32 →
    s.ctl.nwcfg &&& P.nwcfg.speed = mediaBits P s.ctl.miiMediaActive

variable {s s' : LinkState}

/-- While a `mediachange` is open nothing is asked of the register. -/
theorem LinkInv.statchg (h : LinkInv P s) : LinkInv P (lockedStep P s .statchg) := by
  unfold lockedStep
  dsimp only
  split
  · refine ⟨rfl, fun _ => mediachangeProgram_speed s.ctl, ?_⟩
    intro hw
    exact absurd hw (List.append_ne_nil_of_right_ne_nil _ (List.cons_ne_nil _ _))
  · exact h

theorem LinkInv.init (h : LinkInv P s) (hok : linkOk P s .init) :
    LinkInv P (lockedStep P s .init) := by
  unfold lockedStep initCtl
  dsimp only
  split
  · exact h
  · rename_i hr
    refine ⟨rfl, fun _ => configCfg_speed s.ctl, ?_⟩
    intro hw _ hne
    rcases hok with hok | hok | hok | hok
    · exact absurd hok hr
    · exact absurd hw hok
    · exact absurd hok hne
    · exact (configCfg_speed s.ctl).trans hok.symm

/-- An edit that keeps the speed bits, the cached word and the flag. -/
theorem LinkInv.frame {t : CtlState} (h : LinkInv P s) (hsh : t.nwcfg = t.netCfgShadow)
    (hbits : t.nwcfg &&& P.nwcfg.speed = s.ctl.nwcfg &&& P.nwcfg.speed)
    (hrun : t.running = s.ctl.running) (hactive : t.miiMediaActive = s.ctl.miiMediaActive) :
    LinkInv P { s with ctl := t } := by
  refine ⟨hsh, fun hr => hbits.trans (h.written (hrun ▸ hr)), ?_⟩
  intro hw hr hne
  rw [hactive] at hne ⊢
  rw [hbits]
  exact h.settled hw (hrun ▸ hr) hne

theorem LinkInv.locked {e : LinkEvent} (h : LinkInv P s) (hok : linkOk P s e) :
    LinkInv P (lockedStep P s e) := by
  cases e with
  | lock => exact h
  | unlock => exact ⟨h.shadow, h.written, h.settled⟩
  | media media linkValid => exact ⟨h.shadow, h.written, h.settled⟩
  | statchg => exact h.statchg
  | resume i => exact h
  | init => exact h.init hok
  | down =>
      unfold lockedStep
      dsimp only
      split
      · exact ⟨rfl, fun hr => Bool.noConfusion hr, fun _ hr => Bool.noConfusion hr⟩
      · exact h
  | rxFilter flags multi =>
      refine h.frame rfl ?_ rfl rfl
      rw [rxFilter_and P.distinct.filter_speed, h.shadow]
  | setCap reqTx reqRx =>
      obtain ⟨hsh, hbits⟩ := setCap_and P.distinct.rest_speed reqTx reqRx h.shadow
      have hsame := setCap_same (P := P) reqTx reqRx s.ctl
      exact h.frame hsh hbits hsame.running hsame.active

/-- **The end of a window**: what is cached is what the register has. -/
theorem LinkInv.resume {i speed : ℕ} (h : LinkInv P s) (hok : linkOk P s (.resume i))
    (hi : s.windows[i]? = some speed) :
    LinkInv P
      { ctl := mediachangeCache (setRefClk P speed s.ctl)
        held := true
        windows := s.windows.eraseIdx i
        written := s.written } := by
  obtain ⟨hcfg, hsh, hmedia, hrun⟩ := setRefClk_same (P := P) speed s.ctl
  have hwritten (hr : s.ctl.running = true) :
      (setRefClk P speed s.ctl).nwcfg &&& P.nwcfg.speed = writtenBits P s.written := by
    rw [hcfg]
    exact h.written hr
  refine ⟨hcfg.trans (h.shadow.trans hsh.symm), fun hr => hwritten (hrun.symm.trans hr),
    ?_⟩
  intro hw hr hne
  show (setRefClk P speed s.ctl).nwcfg &&& P.nwcfg.speed =
    mediaBits P (setRefClk P speed s.ctl).media
  rw [hwritten (hrun.symm.trans hr), hmedia]
  rcases hok with hok | hok | hok | hok
  · -- another `mediachange` is still open
    obtain ⟨hlt, -⟩ := List.getElem?_eq_some_iff.mp hi
    have hlen := congrArg List.length hw
    rw [List.length_eraseIdx_of_lt hlt, List.length_nil] at hlen
    omega
  · exact absurd ((hrun.symm.trans hr).symm.trans hok) (by decide)
  · exact absurd (hmedia.trans hok) hne
  · exact hok

theorem linkStep_inv {e : LinkEvent} (h : LinkInv P s) (hok : linkOk P s e)
    (hs : linkStep P s e = some s') : LinkInv P s' := by
  unfold linkStep at hs
  split at hs
  · split at hs
    · cases hs
    · cases hs
      exact ⟨h.shadow, h.written, h.settled⟩
  · split at hs
    · cases hs
    · rename_i speed hi
      split at hs
      · cases hs
      · cases hs
        exact h.resume hok hi
  · obtain ⟨-, ht⟩ := Option.ite_none_right_eq_some.mp hs
    cases ht
    exact h.locked hok

/-- The interface comes up at 1000 Mb/s and the PHY is then found at 100. -/
def upThenPollRun : List LinkEvent :=
  [.lock, .init, .unlock, .lock, .media 0x100006#32 true, .statchg, .resume 0, .unlock]

end Phytium.Xmac
