import PhytiumSdk.Xmac.MsgControl

/-!
# XMAC v2: the controller and the interface

What the controller has been told against what the stack has been told, over
every run of `ioctl`, `init`, status changes and register writes. The checksums
the interface offers are computed whenever it is up. The other direction rests
on the reset: `config` turns the receive checksum on and never off, where the
first driver writes the bit both ways.

The receive filter has two ways out of step. `init_locked` does not program it,
as in the first driver, and `rx_filter` does not leave promiscuous mode, which
the reset of a `stop` does.
-/

namespace Phytium.Xmac

open Lib

variable {κ : Type*} {N : MsgPort} {K : Controller κ} {s t : MsgState κ} {e : MsgEvent}

theorem reachable_oldKept (h : (msgSystem N K).Reachable s) : OldKept s := by
  apply h.invariant
  · rintro s ⟨k, rfl⟩
    exact ⟨rfl, rfl⟩
  · intro s e s' hi hs
    cases hs
    exact msgStep_oldKept hi e

/-! ## Checksum offload -/

/-- The controller computes the checksums the interface offers, and leaves
those of outgoing frames to the stack when it does not offer them. -/
structure MsgOffloaded (K : Controller κ) (s : MsgState κ) : Prop where
  txcsum : (K.view s.hw).txcsum = s.caps.txcsum
  rxcsum : s.caps.rxcsum = true → (K.view s.hw).rxcsum = true

/-- The capabilities in every state, and the controller while the interface is
up. -/
structure OffloadInv (K : Controller κ) (s : MsgState κ) : Prop where
  sound : s.caps.Sound
  offloaded : s.running = true → s.detached = false → MsgOffloaded K s

/-- A move that leaves the checksums alone. -/
theorem OffloadInv.of_same (h : OffloadInv K s) (hs : MsgSame s t)
    (hrx : (K.view t.hw).rxcsum = (K.view s.hw).rxcsum)
    (htx : (K.view t.hw).txcsum = (K.view s.hw).txcsum) : OffloadInv K t := by
  refine ⟨hs.caps ▸ h.sound, ?_⟩
  intro hr hd
  obtain ⟨h1, h2⟩ := h.offloaded (hs.running ▸ hr) (hs.detached ▸ hd)
  constructor
  · rw [htx, hs.caps, h1]
  · intro hc
    rw [hrx, h2 (hs.caps ▸ hc)]

/-- `SIOCSIFCAP` follows each change of a capability with its message. -/
theorem OffloadInv.setCap (hK : K.Heeds) (h : OffloadInv K s) (reqTx reqRx : Bool) :
    OffloadInv K (msgIoctlCap K reqTx reqRx s) := by
  have hcaps := msgIoctlCap_sound (K := K) h.sound reqTx reqRx
  obtain ⟨hrun, hdet, -, -⟩ := msgIoctlCap_rest (K := K) reqTx reqRx s
  constructor
  · rw [hcaps]
    exact ⟨rfl, rfl, rfl, rfl⟩
  · intro hr hd
    obtain ⟨htx, hrx⟩ := h.offloaded (hrun ▸ hr) (hdet ▸ hd)
    constructor
    · rw [view_msgIoctlCap hK, hcaps]
      show (if s.caps.txcsum = reqTx then (K.view s.hw).txcsum else reqTx) = reqTx
      split
      · rename_i heq
        rw [htx, heq]
      · rfl
    · rw [view_msgIoctlCap hK, hcaps]
      intro hreq
      show (if s.caps.rxcsum = reqRx then (K.view s.hw).rxcsum else reqRx) = true
      split
      · rename_i heq
        exact hrx (heq.trans hreq)
      · exact hreq

theorem OffloadInv.move (hK : K.Heeds) (h : OffloadInv K s) (hm : MsgMove N K s e t) :
    OffloadInv K t := by
  rcases hm with ⟨-, hup⟩ | ⟨-, ht, -, hcaps, -⟩ | ⟨-, hdet, hcaps⟩ | ⟨-, -, hview, hs⟩ |
    ⟨reqTx, reqRx, -, rfl⟩ | ⟨-, hview, hs, -⟩
  · refine ⟨hup.caps ▸ h.sound, fun _ _ => ?_⟩
    constructor
    · rw [hup.view, hup.caps]
    · intro hc
      rw [hup.view]
      show (_ || s.caps.rxcsum) = true
      rw [← hup.caps, hc, Bool.or_true]
  · exact ⟨hcaps ▸ h.sound, fun hr => absurd (ht.symm.trans hr) Bool.false_ne_true⟩
  · exact ⟨hcaps ▸ h.sound, fun _ hd => absurd (hd.symm.trans hdet) Bool.false_ne_true⟩
  · apply h.of_same hs
    · rw [hview]
    · rw [hview]
  · exact h.setCap hK reqTx reqRx
  · apply h.of_same hs
    · rw [hview]
    · rw [hview]

theorem reachable_offloaded (hK : K.Heeds) (h : (msgSystem N K).Reachable s) : OffloadInv K s := by
  have hboth : OldKept s ∧ OffloadInv K s := by
    apply h.invariant
    · rintro s ⟨k, rfl⟩
      exact ⟨⟨rfl, rfl⟩, ⟨rfl, rfl, rfl, rfl⟩, fun hr => nomatch hr⟩
    · rintro s e s' ⟨hold, hi⟩ hs
      cases hs
      exact ⟨msgStep_oldKept hold e, hi.move hK (msgStep_move hK hold e)⟩
  exact hboth.2

/-- The controller computes the checksum of incoming frames just when the
interface says so. -/
def RxcsumExact (K : Controller κ) (s : MsgState κ) : Prop :=
  s.running = true → s.detached = false → (K.view s.hw).rxcsum = s.caps.rxcsum

/-- The interface comes up with the receive checksum offered, or with a
controller that does not compute it. -/
def upWithRxcsum (N : MsgPort) (K : Controller κ) (s : MsgState κ) (e : MsgEvent) : Prop :=
  bringsUp s e = true → s.detached = false →
    s.caps.rxcsum = true ∨ (K.view (K.sends s.hw (msgConfigLink N))).rxcsum = false

instance (s : MsgState κ) (e : MsgEvent) : Decidable (upWithRxcsum N K s e) := by
  unfold upWithRxcsum
  infer_instance

theorem RxcsumExact.move (hK : K.Heeds) (h : RxcsumExact K s) (hinv : OffloadInv K s)
    (hok : upWithRxcsum N K s e) (hm : MsgMove N K s e t) : RxcsumExact K t := by
  intro hr hd
  rcases hm with ⟨hbring, hup⟩ | ⟨-, ht, -, -, -⟩ | ⟨-, hdet, -⟩ | ⟨-, -, hview, hs⟩ |
    ⟨reqTx, reqRx, -, rfl⟩ | ⟨-, hview, hs, -⟩
  · rw [hup.view, hup.caps]
    show ((K.view (K.sends s.hw (msgConfigLink N))).rxcsum || s.caps.rxcsum) = s.caps.rxcsum
    rcases hok hbring (hup.detached ▸ hd) with hc | hv
    · rw [hc, Bool.or_true]
    · rw [hv, Bool.false_or]
  · exact absurd (ht.symm.trans hr) Bool.false_ne_true
  · exact absurd (hd.symm.trans hdet) Bool.false_ne_true
  · rw [hview, hs.caps]
    exact h (hs.running ▸ hr) (hs.detached ▸ hd)
  · obtain ⟨hrun, hdet, -, -⟩ := msgIoctlCap_rest (K := K) reqTx reqRx s
    rw [view_msgIoctlCap hK, msgIoctlCap_sound hinv.sound]
    show (if s.caps.rxcsum = reqRx then (K.view s.hw).rxcsum else reqRx) = reqRx
    split
    · rename_i heq
      rw [h (hrun ▸ hr) (hdet ▸ hd), heq]
    · rfl
  · rw [hview, hs.caps]
    exact h (hs.running ▸ hr) (hs.detached ▸ hd)

/-- Brought up without the receive checksum, the interface keeps what the reset
has left. -/
theorem not_rxcsumExact (hbad : ¬ upWithRxcsum N K s e) (hm : MsgMove N K s e t) :
    ¬ RxcsumExact K t := by
  simp only [upWithRxcsum, Classical.not_imp, not_or, Bool.not_eq_true, Bool.not_eq_false] at hbad
  obtain ⟨hbring, hd, hc, hv⟩ := hbad
  intro h
  rcases hm with ⟨-, hup⟩ | ⟨hdown, -, -, -, -⟩ | ⟨rfl, -, -⟩ | ⟨hrun, -, -, -⟩ |
    ⟨reqTx, reqRx, rfl, -⟩ | ⟨hstay, -, -, -⟩
  · have hx := h hup.running (hup.detached.trans hd)
    rw [hup.view, hup.caps, hc] at hx
    exact absurd (hv.symm.trans ((Bool.or_false _).symm.trans hx)) (by decide)
  · exact absurd ((bringsUp_up hbring _).symm.trans hdown) (by decide)
  · exact absurd hbring Bool.false_ne_true
  · exact absurd (hrun.symm.trans (bringsUp_running hbring)) (by decide)
  · exact absurd hbring Bool.false_ne_true
  · exact absurd (hstay.symm.trans hbring) Bool.false_ne_true

/-- **Checksum offload.** Along every run the capabilities agree with each other,
and while the interface is up the controller computes the checksums they
promise, and those of outgoing frames in no other case. With those of incoming
frames it is the same if and only if the interface only ever comes up with the
receive checksum offered or from a reset that has turned it off. -/
theorem msg_offload_iff (hK : K.Heeds) (k : κ) (es : List MsgEvent) :
    (msgSystem N K).Always (msgAttach N K k) es (fun s =>
      s.caps.Sound ∧ (s.running = true → s.detached = false → MsgOffloaded K s)) ∧
    ((msgSystem N K).Always (msgAttach N K k) es (RxcsumExact K) ↔
      (msgSystem N K).Meets (upWithRxcsum N K) (msgAttach N K k) es) := by
  have hinit : (msgSystem N K).init (msgAttach N K k) := ⟨k, rfl⟩
  constructor
  · intro fs t _ hrun
    have hinv := reachable_offloaded hK (System.reachable_of_run _ hinit hrun)
    exact ⟨hinv.sound, hinv.offloaded⟩
  · refine System.always_iff_meets hinit ?_ ?_ es
    · intro t h
      apply h.restrict_invariant
      · rintro s ⟨k, rfl⟩ hr
        exact nomatch hr
      · intro s e s' hreach hx hok hs
        cases hs
        exact hx.move hK (reachable_offloaded hK hreach) hok
          (msgStep_move hK (reachable_oldKept hreach) e)
    · intro t e t' h hbad hs
      cases hs
      exact not_rxcsumExact hbad (msgStep_move hK (reachable_oldKept h.of_restrict) e)

/-- A controller that a reset clears. -/
def sampleController : Controller MsgSettings where
  recv := fun h m =>
    match m with
    | .resetHw => ⟨false, false, emptyFilter⟩
    | .setInitAll => h
    | m => heed h m
  view := id

theorem sampleController_heeds : sampleController.Heeds := by
  intro k m hm
  cases m <;> first | rfl | exact Bool.noConfusion hm

/-- A board as the device tree could describe it. -/
def samplePort : MsgPort where
  dmaBurstLength := 16
  dmaAddrWidth := true
  dmaDataWidth := .dbw128
  txChksumOption := false
  queuesNum := 1
  rxBufferLen := 2048
  sgmii := true
  rxringPhysaddr := 0x80000000#64
  txringPhysaddr := 0x80002000#64
  eaddr := fun _ => 0#8
  intMask := 0x1f#32

/-- The transmit checksum is asked for while the interface is down, the receive
checksum once it is up. -/
def msgOffloadRun : List MsgEvent :=
  [.setCap true false, .ifflags true false false 0#32 false, .setCap true true]

theorem msg_offload_sample :
    ∃ s, (msgSystem samplePort sampleController).run
        (msgAttach samplePort sampleController ⟨true, true, emptyFilter⟩) msgOffloadRun = some s ∧
      s.caps.Sound ∧ s.caps.vlanHwcsum = true ∧ MsgOffloaded sampleController s ∧
      RxcsumExact sampleController s := by
  obtain ⟨hall, hiff⟩ := msg_offload_iff (N := samplePort) sampleController_heeds
    ⟨true, true, emptyFilter⟩ msgOffloadRun
  have hmeets : (msgSystem samplePort sampleController).Meets
      (upWithRxcsum samplePort sampleController)
      (msgAttach samplePort sampleController ⟨true, true, emptyFilter⟩) msgOffloadRun := by
    decide
  refine ⟨_, rfl, ?_, rfl, ?_, ?_⟩
  · exact (hall msgOffloadRun _ (List.prefix_refl _) rfl).1
  · exact (hall msgOffloadRun _ (List.prefix_refl _) rfl).2 rfl rfl
  · exact hiff.mpr hmeets msgOffloadRun _ (List.prefix_refl _) rfl

/-! ### With a reset that clears -/

/-- While the receive checksum is not offered, the controller does not compute
it. -/
def RxcsumQuiet (K : Controller κ) (s : MsgState κ) : Prop :=
  s.detached = false → s.caps.rxcsum = false → (K.view s.hw).rxcsum = false

theorem RxcsumQuiet.move (hK : K.Heeds) (hC : K.ClearsRxcsum) (h : RxcsumQuiet K s)
    (hinv : OffloadInv K s) (hm : MsgMove N K s e t) : RxcsumQuiet K t := by
  intro hd hc
  have hq := h (hm.attached hd)
  rcases hm with ⟨-, hup⟩ | ⟨-, -, hview, -, -⟩ | ⟨-, hdet', -⟩ | ⟨-, -, hview, hs⟩ |
    ⟨reqTx, reqRx, -, rfl⟩ | ⟨-, hview, hs, -⟩
  · rw [hup.caps] at hc
    rw [hup.view]
    show ((K.view (K.sends s.hw (msgConfigLink N))).rxcsum || s.caps.rxcsum) = false
    rw [hc, Bool.or_false]
    exact msgConfigLink_keeps (Q := fun v => v.rxcsum = false) hK hC.setInitAll (hq hc)
  · rw [hview, view_msgReset hK]
    exact hC.resetHw _
  · exact absurd (hd.symm.trans hdet') Bool.false_ne_true
  · rw [hview]
    exact hq (hs.caps ▸ hc)
  · rw [msgIoctlCap_sound hinv.sound] at hc
    have hreq : reqRx = false := hc
    rw [view_msgIoctlCap hK]
    show (if s.caps.rxcsum = reqRx then (K.view s.hw).rxcsum else reqRx) = false
    split
    · rename_i heq
      exact hq (heq.trans hreq)
    · exact hreq
  · rw [hview]
    exact hq (hs.caps ▸ hc)

/-- **With a reset that clears it** the receive checksum is computed just when
it is offered, in every state of a running interface. -/
theorem rxcsum_exact_of_clears (hK : K.Heeds) (hC : K.ClearsRxcsum)
    (h : (msgSystem N K).Reachable s) : RxcsumExact K s := by
  have hinv : OldKept s ∧ OffloadInv K s ∧ RxcsumQuiet K s := by
    apply h.invariant
    · rintro s ⟨k, rfl⟩
      refine ⟨⟨rfl, rfl⟩, ⟨⟨rfl, rfl, rfl, rfl⟩, fun hr => nomatch hr⟩, fun _ _ => ?_⟩
      show (K.view (K.sends k (msgReset N ++ _))).rxcsum = false
      rw [sends_append, view_sends hK rfl, view_msgReset hK]
      exact hC.resetHw _
    · rintro s e s' ⟨hold, hi, hq⟩ hs
      cases hs
      have hm := msgStep_move (N := N) hK hold e
      exact ⟨msgStep_oldKept hold e, hi.move hK hm, hq.move hK hC hi hm⟩
  intro hr hd
  cases hc : s.caps.rxcsum with
  | true => exact (hinv.2.1.offloaded hr hd).rxcsum hc
  | false => exact hinv.2.2 hd hc

/-! ## The receive filter -/

/-- The controller has the filter the flags and the groups ask for. -/
def FilterFollows (K : Controller κ) (s : MsgState κ) : Prop :=
  (K.view s.hw).filter = FilterCall.wanted ⟨s.flags, s.multi⟩

/-- While the interface is down there is no filter. -/
structure MsgFilterInv (K : Controller κ) (s : MsgState κ) : Prop where
  follows : s.running = true → s.detached = false → FilterFollows K s
  clear : s.running = false → s.detached = false → (K.view s.hw).filter = emptyFilter

/-- The interface is only brought up while nothing is asked of the filter, and
it does not leave promiscuous mode while it is up. -/
def filterKept (s : MsgState κ) (e : MsgEvent) : Prop :=
  s.detached = false →
    (bringsUp s e = true → FilterEmpty (e.flags s.flags) s.multi) ∧
    (s.running = true → (e.flags s.flags).up = true → s.flags.promisc = true →
      (e.flags s.flags).promisc = true)

instance (s : MsgState κ) (e : MsgEvent) : Decidable (filterKept s e) := by
  unfold filterKept
  infer_instance

theorem wanted_eq_empty_iff {flags : IfFlags} {multi : List EtherAddr} :
    FilterCall.wanted ⟨flags, multi⟩ = emptyFilter ↔ FilterEmpty flags multi := by
  constructor
  · intro h
    by_contra hne
    have hp : flags.promisc = false := congrArg MsgFilter.promisc h
    have hh : filterHashes flags multi = (0#32, 0#32) := congrArg MsgFilter.mcHash h
    unfold filterHashes at hh
    rw [hp, if_neg Bool.false_ne_true] at hh
    split at hh
    · exact absurd hh (by decide)
    · rename_i ha
      rw [Bool.not_eq_true] at ha
      rcases List.eq_nil_or_concat multi with hm | ⟨l, a, rfl⟩
      · exact hne ⟨hp, ha, hm⟩
      · rw [List.concat_eq_append, List.foldl_append] at hh
        exact hashMaddr_ne _ a hh
  · rintro ⟨hp, ha, rfl⟩
    unfold FilterCall.wanted filterHashes
    dsimp only
    rw [hp, ha]
    rfl

/-- A call of `rx_filter` behind a filter that was right. -/
theorem filterFollows_iff {c : FilterCall} (h : FilterFollows K s) :
    msgRxFilter (K.view s.hw).filter c = c.wanted ↔
      (s.flags.promisc = true → c.flags.promisc = true) := by
  have hp : (K.view s.hw).filter.promisc = s.flags.promisc := congrArg MsgFilter.promisc h
  rw [msgRxFilter_eq_iff _ c rfl, hp]
  show (s.flags.promisc || c.flags.promisc) = c.flags.promisc ↔ _
  cases s.flags.promisc <;> cases c.flags.promisc <;> decide

theorem MsgFilterInv.move (hK : K.Heeds) (hC : K.ClearsFilter) (h : MsgFilterInv K s)
    (hok : filterKept s e) (hflags : t.flags = e.flags s.flags) (hm : MsgMove N K s e t) :
    MsgFilterInv K t := by
  have hs : t.detached = false → s.detached = false := hm.attached
  rcases hm with ⟨hbring, hup⟩ | ⟨-, ht, hview, -, -⟩ | ⟨-, hdet, -⟩ | ⟨hrun, hup, hview, hsame⟩ |
    ⟨reqTx, reqRx, -, rfl⟩ | ⟨-, hview, hsame, hwanted⟩
  · refine ⟨fun _ hd => ?_, fun hr => absurd (hr.symm.trans hup.running) Bool.false_ne_true⟩
    have hlink := msgConfigLink_keeps (N := N) (Q := fun v => v.filter = emptyFilter) hK
      hC.setInitAll (h.clear (bringsUp_running hbring) (hs hd))
    show (K.view t.hw).filter = _
    rw [hup.view, hflags, hup.multi, wanted_eq_empty_iff.mpr ((hok (hs hd)).1 hbring)]
    exact hlink
  · refine ⟨fun hr => absurd (ht.symm.trans hr) Bool.false_ne_true, fun _ _ => ?_⟩
    rw [hview, view_msgReset hK]
    exact hC.resetHw _
  · exact ⟨fun _ hd => absurd (hd.symm.trans hdet) Bool.false_ne_true,
      fun _ hd => absurd (hd.symm.trans hdet) Bool.false_ne_true⟩
  · refine ⟨fun _ hd => ?_, fun hr => ?_⟩
    · have hfollows := h.follows hrun (hs hd)
      show (K.view t.hw).filter = _
      rw [hview]
      apply (filterFollows_iff hfollows).mpr
      intro hp
      rcases hup with hup | hup
      · show t.flags.promisc = true
        rw [hflags]
        exact (hok (hs hd)).2 hrun hup hp
      · show t.flags.promisc = true
        rw [hup]
        exact hp
    · exact absurd (hrun.symm.trans (hsame.running.symm.trans hr)) (by decide)
  · obtain ⟨hrun, hdet, hf, hmulti⟩ := msgIoctlCap_rest (K := K) reqTx reqRx s
    have hfilter : (K.view (msgIoctlCap K reqTx reqRx s).hw).filter = (K.view s.hw).filter := by
      rw [view_msgIoctlCap hK]
    constructor
    · intro hr hd
      show (K.view (msgIoctlCap K reqTx reqRx s).hw).filter = _
      rw [hfilter, hf, hmulti]
      exact h.follows (hrun ▸ hr) (hdet ▸ hd)
    · intro hr hd
      rw [hfilter]
      exact h.clear (hrun ▸ hr) (hdet ▸ hd)
  · constructor
    · intro hr hd
      have hr' : s.running = true := hsame.running ▸ hr
      show (K.view t.hw).filter = _
      rw [hview, hwanted hr']
      exact h.follows hr' (hs hd)
    · intro hr hd
      rw [hview]
      exact h.clear (hsame.running ▸ hr) (hs hd)

/-- Brought up with something asked of the filter, the interface is without it. -/
theorem not_follows_of_up (hK : K.Heeds) (hC : K.ClearsFilter) (h : MsgFilterInv K s)
    (hd : s.detached = false) (hbring : bringsUp s e = true)
    (hne : ¬ FilterEmpty (e.flags s.flags) s.multi) (hflags : t.flags = e.flags s.flags)
    (hup : MsgUp N K s t) : ¬ FilterFollows K t := by
  have hlink := msgConfigLink_keeps (N := N) (Q := fun v => v.filter = emptyFilter) hK
    hC.setInitAll (h.clear (bringsUp_running hbring) hd)
  intro hf
  have hf' : (K.view t.hw).filter = FilterCall.wanted ⟨t.flags, t.multi⟩ := hf
  rw [hup.view, hflags, hup.multi] at hf'
  exact hne (wanted_eq_empty_iff.mp (hf'.symm.trans hlink))

/-- **The first event that is not `filterKept`** leaves a running interface with
another filter than it is asked for. -/
theorem not_filterFollows (hK : K.Heeds) (hC : K.ClearsFilter) (h : MsgFilterInv K s)
    (hbad : ¬ filterKept s e) (hflags : t.flags = e.flags s.flags) (hm : MsgMove N K s e t) :
    t.running = true ∧ t.detached = false ∧ ¬ FilterFollows K t := by
  simp only [filterKept, Classical.not_imp, not_and_or, Bool.not_eq_true] at hbad
  obtain ⟨hd, ⟨hbring, hne⟩ | ⟨hr, hu, hp, hp'⟩⟩ := hbad
  · rcases hm with ⟨-, hup⟩ | ⟨hdown, -, -, -, -⟩ | ⟨rfl, -, -⟩ | ⟨hrun, -, -, -⟩ |
      ⟨reqTx, reqRx, rfl, -⟩ | ⟨hstay, -, -, -⟩
    · exact ⟨hup.running, hup.detached.trans hd,
        not_follows_of_up hK hC h hd hbring hne hflags hup⟩
    · exact absurd ((bringsUp_up hbring _).symm.trans hdown) (by decide)
    · exact absurd hbring Bool.false_ne_true
    · exact absurd (hrun.symm.trans (bringsUp_running hbring)) (by decide)
    · exact absurd hbring Bool.false_ne_true
    · exact absurd (hstay.symm.trans hbring) Bool.false_ne_true
  · -- promiscuous mode ends in a running interface
    have hfollows := h.follows hr hd
    rcases hm with ⟨hbring, -⟩ | ⟨hdown, -, -, -, -⟩ | ⟨rfl, -, -⟩ | ⟨-, -, hview, hsame⟩ |
      ⟨reqTx, reqRx, rfl, -⟩ | ⟨-, -, -, hwanted⟩
    · exact absurd (hr.symm.trans (bringsUp_running hbring)) (by decide)
    · exact absurd (hu.symm.trans hdown) (by decide)
    · exact absurd hu Bool.false_ne_true
    · refine ⟨hsame.running.trans hr, hsame.detached.trans hd, fun hf => ?_⟩
      have hf' : (K.view t.hw).filter = FilterCall.wanted ⟨t.flags, t.multi⟩ := hf
      rw [hview] at hf'
      have hstill : t.flags.promisc = true := (filterFollows_iff hfollows).mp hf' hp
      rw [hflags, hp'] at hstill
      exact Bool.false_ne_true hstill
    · exact absurd (hp.symm.trans hp') (by decide)
    · have hsame : t.flags.promisc = s.flags.promisc := congrArg MsgFilter.promisc (hwanted hr)
      rw [hflags, hp', hp] at hsame
      exact absurd hsame (by decide)

/-- **The receive filter**, with a reset that clears it. Along a run the filter of
a running interface is the one its flags and groups ask for if and only if the
interface is only brought up while nothing is asked, and leaves promiscuous mode
only by going down. -/
theorem msg_filter_iff (hK : K.Heeds) (hC : K.ClearsFilter) (k : κ) (es : List MsgEvent) :
    (msgSystem N K).Always (msgAttach N K k) es
        (fun s => s.running = true → s.detached = false → FilterFollows K s) ↔
      (msgSystem N K).Meets filterKept (msgAttach N K k) es := by
  have hinit : (msgSystem N K).init (msgAttach N K k) := ⟨k, rfl⟩
  have hinv : ∀ t, ((msgSystem N K).restrict filterKept).Reachable t → MsgFilterInv K t := by
    intro t h
    apply h.restrict_invariant
    · rintro s ⟨k, rfl⟩
      refine ⟨fun hr => absurd hr Bool.false_ne_true, fun _ _ => ?_⟩
      show (K.view (K.sends k (msgReset N ++ _))).filter = emptyFilter
      rw [sends_append, view_sends hK rfl, view_msgReset hK]
      exact hC.resetHw _
    · intro s e s' hreach hi hok hs
      cases hs
      exact hi.move hK hC hok (msgStep_flags s e) (msgStep_move hK (reachable_oldKept hreach) e)
  refine System.always_iff_meets hinit ?_ ?_ es
  · intro t h
    exact (hinv t h).follows
  · intro t e t' h hbad hs hf
    cases hs
    obtain ⟨hr, hd, hn⟩ := not_filterFollows hK hC (hinv t h) hbad (msgStep_flags t e)
      (msgStep_move hK (reachable_oldKept h.of_restrict) e)
    exact hn (hf hr hd)

/-- A group is joined and left, and promiscuous mode ends with the interface. -/
def msgFilterRun : List MsgEvent :=
  [.ifflags true false false 0#32 false, .addMulti fun _ => 1#8,
    .ifflags true true false 0#32 false, .delMulti fun _ => 1#8,
    .ifflags false false false 0#32 false, .ifflags true false false 0#32 false]

theorem msg_filter_sample :
    ∃ s, (msgSystem samplePort sampleController).run
        (msgAttach samplePort sampleController ⟨true, true, ⟨true, (1#32, 1#32)⟩⟩) msgFilterRun =
          some s ∧
      s.running = true ∧ FilterFollows sampleController s := by
  have hC : sampleController.ClearsFilter := ⟨fun _ => rfl, fun _ h => h⟩
  have hmeets : (msgSystem samplePort sampleController).Meets filterKept
      (msgAttach samplePort sampleController ⟨true, true, ⟨true, (1#32, 1#32)⟩⟩) msgFilterRun := by
    decide
  have hfollows := (msg_filter_iff (N := samplePort) sampleController_heeds hC
    ⟨true, true, ⟨true, (1#32, 1#32)⟩⟩ msgFilterRun).mpr hmeets
  exact ⟨_, rfl, rfl, hfollows msgFilterRun _ (List.prefix_refl _) rfl rfl rfl⟩

end Phytium.Xmac
