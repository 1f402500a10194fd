import PhytiumSdk.Lib.System
import PhytiumSdk.Xmac.Control

/-!
# The receive filter

`phytium_xmac_ioctl` as the stack calls it: the flags or the list of groups
change, then the handler runs. `phytium_xmac_init_locked` clears the filter and
does not program it again, although a comment on `rx_filter` asks for that
after any change. So the hardware's filter is the one the flags and groups call
for in every run in which the interface is only brought up with the filter
that `config` leaves, and in no other.
-/

namespace Phytium.Xmac

open Lib Lib.Mask

variable {P : XmacConfig} {s s' : CtlState}

/-! ## The handlers -/

/-- The MII layer polls the PHY and calls `statchg`. -/
def pollMedia (P : XmacConfig) (media : BitVec 32) (linkValid : Bool) (s : CtlState) : CtlState :=
  let s := { s with media := media, linkValid := linkValid }
  if mediaChanged s then
    mediachangeCache (setRefClk P (interfaceSpeed P media) (mediachangeProgram P s))
  else s

/-- One of `IFF_PROMISC` and `IFF_ALLMULTI` is not what it was. -/
def filterFlagsChanged (s : CtlState) : Bool :=
  s.flags.promisc != s.ifOldFlags.promisc || s.flags.allmulti != s.ifOldFlags.allmulti

/-- The `SIOCSIFFLAGS` branch of `phytium_xmac_ioctl`. `media` and `linkValid`
are what the MII layer finds, should `init_locked` call it. -/
def ioctlFlags (P : XmacConfig) (media : BitVec 32) (linkValid : Bool) (s : CtlState) : CtlState :=
  let s :=
    if s.flags.up then
      if s.running then
        if filterFlagsChanged s then rxFilter P s else s
      else pollMedia P media linkValid (initCtl P s)
    else if s.running then stopCtl P { s with running := false }
    else s
  { s with ifOldFlags := s.flags }

/-- The `SIOCADDMULTI` and `SIOCDELMULTI` branch. -/
def ioctlMulti (P : XmacConfig) (s : CtlState) : CtlState :=
  if s.running then rxFilter P s else s

inductive FilterEvent where
  | ifflags (up promisc allmulti : Bool) (media : BitVec 32) (linkValid : Bool)
  | addMulti (a : EtherAddr)
  | delMulti (a : EtherAddr)
  | setCap (reqTx reqRx : Bool)
  /-- a status change between two calls of `ioctl` -/
  | poll (media : BitVec 32) (linkValid : Bool)
deriving DecidableEq

def filterStep (P : XmacConfig) (s : CtlState) : FilterEvent → Option CtlState
  | .ifflags up promisc allmulti media linkValid =>
      let flags := { s.flags with up := up, promisc := promisc, allmulti := allmulti }
      some (ioctlFlags P media linkValid { s with flags := flags })
  | .addMulti a => some (ioctlMulti P { s with multi := a :: s.multi })
  | .delMulti a => some (ioctlMulti P { s with multi := s.multi.erase a })
  | .setCap reqTx reqRx => some (setCap P reqTx reqRx s)
  | .poll media linkValid => some (pollMedia P media linkValid s)

/-- The interface under `ioctl`, from `phytium_xmac_attach` on. -/
def filterSystem (P : XmacConfig) : System CtlState FilterEvent where
  init := fun s => s = attachCtl P
  step := filterStep P

/-! ## The filter the hardware has -/

/-- The hardware's filter is the one `rx_filter` would program. -/
structure FilterCoherent (P : XmacConfig) (s : CtlState) : Prop where
  hashh : s.hashh = (filterHashes s.flags s.multi).1
  hashl : s.hashl = (filterHashes s.flags s.multi).2
  bits : s.nwcfg &&& P.nwcfg.filter = filterBits P s.flags s.multi

instance : Decidable (FilterCoherent P s) :=
  decidable_of_iff
    (s.hashh = (filterHashes s.flags s.multi).1 ∧ s.hashl = (filterHashes s.flags s.multi).2 ∧
      s.nwcfg &&& P.nwcfg.filter = filterBits P s.flags s.multi)
    ⟨fun h => ⟨h.1, h.2.1, h.2.2⟩, fun h => ⟨h.hashh, h.hashl, h.bits⟩⟩

/-- Nothing is asked of the filter. -/
def FilterEmpty (flags : IfFlags) (multi : List EtherAddr) : Prop :=
  flags.promisc = false ∧ flags.allmulti = false ∧ multi = []

instance (flags : IfFlags) (multi : List EtherAddr) : Decidable (FilterEmpty flags multi) := by
  unfold FilterEmpty
  infer_instance

/-- The interface is brought up only while nothing is asked of the filter. -/
def upWithEmptyFilter (s : CtlState) : FilterEvent → Prop
  | .ifflags up promisc allmulti _ _ =>
      up = true → s.running = false →
        FilterEmpty { s.flags with promisc := promisc, allmulti := allmulti } s.multi
  | _ => True

instance (s : CtlState) (e : FilterEvent) : Decidable (upWithEmptyFilter s e) := by
  unfold upWithEmptyFilter
  split <;> infer_instance

/-! ## What leaves the filter alone -/

/-- `s'` has the filter of `s`, and the same is asked of it. -/
structure FilterFrame (P : XmacConfig) (s s' : CtlState) : Prop where
  hashh : s'.hashh = s.hashh
  hashl : s'.hashl = s.hashl
  bits : s'.nwcfg &&& P.nwcfg.filter = s.nwcfg &&& P.nwcfg.filter
  shadow : s'.nwcfg = s'.netCfgShadow
  flags : s'.flags = s.flags
  old : s'.ifOldFlags = s.ifOldFlags
  multi : s'.multi = s.multi
  running : s'.running = s.running

theorem FilterFrame.coherent (h : FilterFrame P s s') (hc : FilterCoherent P s) :
    FilterCoherent P s' := by
  refine ⟨?_, ?_, ?_⟩
  · rw [h.hashh, h.flags, h.multi, hc.hashh]
  · rw [h.hashl, h.flags, h.multi, hc.hashl]
  · rw [h.bits, h.flags, h.multi, hc.bits]

theorem setCap_frame (reqTx reqRx : Bool) (h : s.nwcfg = s.netCfgShadow) :
    FilterFrame P s (setCap P reqTx reqRx s) := by
  obtain ⟨hsh, hbits⟩ := setCap_and P.distinct.rest_filter reqTx reqRx h
  have hsame := setCap_same (P := P) reqTx reqRx s
  exact ⟨hsame.hashh, hsame.hashl, hbits, hsh, hsame.flags, hsame.old, hsame.multi,
    hsame.running⟩

theorem setRefClk_frame (speed : ℕ) (h : s.nwcfg = s.netCfgShadow) :
    FilterFrame P s (setRefClk P speed s) := by
  unfold setRefClk
  split <;> exact ⟨rfl, rfl, rfl, h, rfl, rfl, rfl, rfl⟩

theorem pollMedia_frame (media : BitVec 32) (linkValid : Bool) (h : s.nwcfg = s.netCfgShadow) :
    FilterFrame P s (pollMedia P media linkValid s) := by
  unfold pollMedia
  dsimp only
  split
  · have hclk := setRefClk_frame (P := P) (interfaceSpeed P media)
      (s := mediachangeProgram P { s with media := media, linkValid := linkValid }) rfl
    refine ⟨hclk.hashh, hclk.hashl, ?_, hclk.shadow, hclk.flags, hclk.old, hclk.multi,
      hclk.running⟩
    exact hclk.bits.trans ((mediachangeProgram_and P.distinct.speed_filter _).trans (by rw [h]))
  · exact ⟨rfl, rfl, rfl, h, rfl, rfl, rfl, rfl⟩

/-! ## `rx_filter` programs what it computes -/

theorem rxFilter_coherent (s : CtlState) : FilterCoherent P (rxFilter P s) := by
  refine ⟨rfl, rfl, ?_⟩
  show ((s.netCfgShadow &&& ~~~P.nwcfg.filter) ||| filterBits P s.flags s.multi) &&&
    P.nwcfg.filter = filterBits P s.flags s.multi
  rw [BitVec.and_or_distrib_right, clear_and_self, filterBits_and, BitVec.zero_or]

/-- What `rx_filter` computes depends on two flags only, as long as
`IFF_BROADCAST` is set. -/
theorem filter_congr {flags flags' : IfFlags} (multi : List EtherAddr)
    (hp : flags'.promisc = flags.promisc) (ha : flags'.allmulti = flags.allmulti)
    (hb : flags'.broadcast = flags.broadcast) :
    filterHashes flags' multi = filterHashes flags multi ∧
    filterBits P flags' multi = filterBits P flags multi := by
  have hh : filterHashes flags' multi = filterHashes flags multi := by
    rw [filterHashes, filterHashes, hp, ha]
  refine ⟨hh, ?_⟩
  rw [filterBits, filterBits, hp, hb, hh]

/-! ## Bringing the interface up -/

/-- The filter `config` leaves asks for nothing. -/
theorem coherent_of_empty {flags : IfFlags} {multi : List EtherAddr}
    (hb : flags.broadcast = true) (he : FilterEmpty flags multi) :
    filterHashes flags multi = (0#32, 0#32) ∧ filterBits P flags multi = 0#32 := by
  obtain ⟨hp, ha, hm⟩ := he
  have hh : filterHashes flags multi = (0#32, 0#32) := by
    rw [filterHashes, hp, ha, hm]
    rfl
  refine ⟨hh, ?_⟩
  rw [filterBits, hp, hb, hh]
  exact BitVec.or_zero

theorem macHash_lt (a : EtherAddr) : macHash a < 64 := by
  have hfold : ∀ (i : ℕ), i < 6 → ∀ (js : List ℕ) (hash : ℕ), hash < 2 ^ 6 →
      js.foldl (fun hash j => if addrBit a j then hash ^^^ (1 <<< i) else hash) hash < 2 ^ 6 := by
    intro i hi js
    induction js with
    | nil => exact fun hash h => h
    | cons j js ih =>
        intro hash h
        rw [List.foldl_cons]
        refine ih _ ?_
        split
        · refine Nat.xor_lt_two_pow h ?_
          rw [Nat.one_shiftLeft]
          exact Nat.pow_lt_pow_right (by decide) hi
        · exact h
  have houter : ∀ (is : List ℕ), (∀ i ∈ is, i < 6) → ∀ hash < 2 ^ 6,
      is.foldl (fun hash i => (List.range' i 8 6).foldl
        (fun hash j => if addrBit a j then hash ^^^ (1 <<< i) else hash) hash) hash < 2 ^ 6 := by
    intro is
    induction is with
    | nil => exact fun _ hash h => h
    | cons i is ih =>
        intro his hash h
        rw [List.foldl_cons]
        exact ih (fun k hk => his k (List.mem_cons_of_mem _ hk)) _
          (hfold i (his i List.mem_cons_self) _ _ h)
  exact houter (List.range 6) (fun i hi => List.mem_range.mp hi) 0 (by decide)

theorem one_shiftLeft_ne {k : ℕ} (hk : k < 32) : 1#32 <<< k ≠ 0#32 := by
  intro h
  have hbit := congrArg (fun x => x.getLsbD k) h
  simp [hk] at hbit

/-- A group sets a bit of the hash. -/
theorem hashMaddr_ne (hashes : BitVec 32 × BitVec 32) (a : EtherAddr) :
    hashMaddr hashes a ≠ (0#32, 0#32) := by
  have hlt := macHash_lt a
  unfold hashMaddr
  dsimp only
  intro h
  split at h
  · rw [Prod.mk.injEq, BitVec.or_eq_zero_iff] at h
    exact one_shiftLeft_ne (by omega) h.1.2
  · rw [Prod.mk.injEq, BitVec.or_eq_zero_iff] at h
    exact one_shiftLeft_ne (by omega) h.2.2

/-- A filter that asks for something is not the one `config` leaves. -/
theorem filter_ne_of_not_empty {flags : IfFlags} {multi : List EtherAddr}
    (he : ¬ FilterEmpty flags multi) :
    filterHashes flags multi ≠ (0#32, 0#32) ∨ filterBits P flags multi ≠ 0#32 := by
  by_cases hp : flags.promisc = true
  · right
    rw [filterBits, if_pos hp]
    exact P.distinct.copy_ne
  · left
    rw [filterHashes, if_neg hp]
    by_cases ha : flags.allmulti = true
    · rw [if_pos ha]
      decide
    · rw [if_neg ha]
      rcases List.eq_nil_or_concat multi with hm | ⟨l, a, rfl⟩
      · exact absurd ⟨Bool.eq_false_of_not_eq_true hp, Bool.eq_false_of_not_eq_true ha, hm⟩ he
      · rw [List.concat_eq_append, List.foldl_append]
        exact hashMaddr_ne _ a

/-! ## Every run -/

/-- Between two calls. While the interface is down the hash registers are
clear. -/
structure FilterInv (P : XmacConfig) (s : CtlState) : Prop where
  shadow : s.nwcfg = s.netCfgShadow
  old : s.ifOldFlags = s.flags
  broadcast : s.flags.broadcast = true
  coherent : s.running = true → FilterCoherent P s
  clear : s.running = false → s.hashh = 0#32 ∧ s.hashl = 0#32

theorem FilterInv.frame (h : FilterInv P s) (hf : FilterFrame P s s') : FilterInv P s' where
  shadow := hf.shadow
  old := by rw [hf.old, hf.flags, h.old]
  broadcast := by rw [hf.flags, h.broadcast]
  coherent := fun hr => hf.coherent (h.coherent (hf.running ▸ hr))
  clear := fun hr => by
    rw [hf.hashh, hf.hashl]
    exact h.clear (hf.running ▸ hr)

theorem attachCtl_inv : FilterInv P (attachCtl P) where
  shadow := rfl
  old := rfl
  broadcast := rfl
  coherent := fun h => nomatch h
  clear := fun _ => ⟨rfl, rfl⟩

theorem ioctlMulti_inv {multi : List EtherAddr} (h : FilterInv P s) :
    FilterInv P (ioctlMulti P { s with multi := multi }) := by
  unfold ioctlMulti
  split
  · rename_i hr
    exact ⟨rfl, h.old, h.broadcast, fun _ => rxFilter_coherent _,
      fun hn => absurd (hr.symm.trans hn) (by decide)⟩
  · rename_i hr
    exact ⟨h.shadow, h.old, h.broadcast, fun hn => absurd hn hr, h.clear⟩

/-- What the state is like once the interface has been brought up. -/
structure BroughtUp (P : XmacConfig) (s : CtlState) (flags : IfFlags) (t : CtlState) : Prop where
  hashh : t.hashh = 0#32
  hashl : t.hashl = 0#32
  bits : t.nwcfg &&& P.nwcfg.filter = 0#32
  shadow : t.nwcfg = t.netCfgShadow
  old : t.ifOldFlags = t.flags
  flags : t.flags = flags
  multi : t.multi = s.multi
  running : t.running = true

theorem ioctlFlags_up {flags : IfFlags} (media : BitVec 32) (linkValid : Bool)
    (hup : flags.up = true) (hr : s.running = false)
    (hc : s.hashh = 0#32 ∧ s.hashl = 0#32) :
    BroughtUp P s flags (ioctlFlags P media linkValid { s with flags := flags }) := by
  have hinit : initCtl P { s with flags := flags } =
      { config P { s with flags := flags } with running := true } := by
    rw [initCtl, hr]
    rfl
  have hsh : (initCtl P { s with flags := flags }).nwcfg =
      (initCtl P { s with flags := flags }).netCfgShadow := by rw [hinit]; rfl
  have hf := pollMedia_frame (P := P) media linkValid hsh
  unfold ioctlFlags
  dsimp only
  rw [if_pos hup, if_neg (by rw [hr]; decide)]
  rw [hinit] at hf ⊢
  have hcfg : configCfg P { s with flags := flags } &&& P.nwcfg.filter = 0#32 := by
    rw [configCfg_and P.distinct.rest_filter, P.distinct.speed_filter]
  exact ⟨hf.hashh.trans hc.1, hf.hashl.trans hc.2, hf.bits.trans hcfg, hf.shadow, rfl, hf.flags,
    hf.multi, hf.running⟩

/-- **`SIOCSIFFLAGS`** keeps the invariant, if it does not bring the interface
up with something asked of the filter. -/
theorem ioctlFlags_inv {flags : IfFlags} {media : BitVec 32} {linkValid : Bool}
    (h : FilterInv P s) (hb : flags.broadcast = true)
    (hok : flags.up = true → s.running = false → FilterEmpty flags s.multi) :
    FilterInv P (ioctlFlags P media linkValid { s with flags := flags }) := by
  by_cases hbring : flags.up = true ∧ s.running = false
  · obtain ⟨hup, hr⟩ := hbring
    have ht := ioctlFlags_up (P := P) media linkValid hup hr (h.clear hr)
    obtain ⟨hwant, hwantBits⟩ := coherent_of_empty (P := P) hb (hok hup hr)
    refine ⟨ht.shadow, ht.old, by rw [ht.flags, hb], fun _ => ⟨?_, ?_, ?_⟩, ?_⟩
    · rw [ht.hashh, ht.flags, ht.multi, hwant]
    · rw [ht.hashl, ht.flags, ht.multi, hwant]
    · rw [ht.bits, ht.flags, ht.multi, hwantBits]
    · intro hn
      exact absurd (ht.running.symm.trans hn) (by decide)
  unfold ioctlFlags
  dsimp only
  by_cases hup : flags.up = true
  · have hr : s.running = true := by
      by_contra hn
      exact hbring ⟨hup, Bool.eq_false_of_not_eq_true hn⟩
    rw [if_pos hup, if_pos hr]
    split
    · have hrx := rxFilter_coherent (P := P) { s with flags := flags }
      exact ⟨rfl, rfl, hb, fun _ => ⟨hrx.hashh, hrx.hashl, hrx.bits⟩,
        fun hn => absurd (hr.symm.trans hn) (by decide)⟩
    · rename_i hch
      -- neither flag changed, so the same filter is asked for
      have hch' : flags.promisc = s.flags.promisc ∧ flags.allmulti = s.flags.allmulti := by
        simpa [filterFlagsChanged, h.old] using hch
      obtain ⟨hh, hbits⟩ := filter_congr (P := P) s.multi hch'.1 hch'.2
        (hb.trans h.broadcast.symm)
      have hc := h.coherent hr
      refine ⟨h.shadow, rfl, hb, fun _ => ⟨?_, ?_, ?_⟩, ?_⟩
      · exact hc.hashh.trans (by rw [hh])
      · exact hc.hashl.trans (by rw [hh])
      · exact hc.bits.trans hbits.symm
      · intro hn
        exact absurd (hr.symm.trans hn) (by decide)
  · rw [if_neg hup]
    by_cases hr : s.running = true
    · rw [if_pos hr]
      exact ⟨rfl, rfl, hb, fun hn => Bool.noConfusion hn, fun _ => ⟨rfl, rfl⟩⟩
    · rw [if_neg hr]
      exact ⟨h.shadow, rfl, hb, fun hn => absurd hn hr, h.clear⟩

theorem filterStep_inv {e : FilterEvent} (h : FilterInv P s) (hok : upWithEmptyFilter s e)
    (hs : filterStep P s e = some s') : FilterInv P s' := by
  cases e with
  | ifflags up promisc allmulti media linkValid =>
      cases hs
      exact ioctlFlags_inv h h.broadcast hok
  | addMulti a =>
      cases hs
      exact ioctlMulti_inv h
  | delMulti a =>
      cases hs
      exact ioctlMulti_inv h
  | setCap reqTx reqRx =>
      cases hs
      exact h.frame (setCap_frame reqTx reqRx h.shadow)
  | poll media linkValid =>
      cases hs
      exact h.frame (pollMedia_frame media linkValid h.shadow)

theorem filter_reachable_inv
    (h : ((filterSystem P).restrict upWithEmptyFilter).Reachable s) : FilterInv P s := by
  apply h.restrict_invariant
  · rintro s rfl
    exact attachCtl_inv
  · intro s e s' _ hi hok (hs : filterStep P s e = some s')
    exact filterStep_inv hi hok hs

/-- **Bringing the interface up** with something asked of the filter leaves it
without. -/
theorem incoherent_of_up {e : FilterEvent} (h : FilterInv P s) (hbad : ¬ upWithEmptyFilter s e)
    (hs : filterStep P s e = some s') : s'.running = true ∧ ¬ FilterCoherent P s' := by
  cases e with
  | ifflags up promisc allmulti media linkValid =>
      cases hs
      simp only [upWithEmptyFilter, Classical.not_imp] at hbad
      obtain ⟨hup, hr, hne⟩ := hbad
      generalize hfl : ({ s.flags with promisc := promisc, allmulti := allmulti } : IfFlags) = fl
        at hne
      have hflags : ({ s.flags with up := up, promisc := promisc, allmulti := allmulti } :
          IfFlags) = { fl with up := up } := by rw [← hfl]
      rw [hflags]
      have hup' : ({ fl with up := up } : IfFlags).up = true := hup
      have ht := ioctlFlags_up (P := P) media linkValid hup' hr (h.clear hr)
      refine ⟨ht.running, ?_⟩
      intro hc
      have h1 := hc.hashh
      have h2 := hc.hashl
      have h3 := hc.bits
      rw [ht.hashh, ht.flags, ht.multi] at h1
      rw [ht.hashl, ht.flags, ht.multi] at h2
      rw [ht.bits, ht.flags, ht.multi] at h3
      have hne' : ¬ FilterEmpty { fl with up := up } s.multi := hne
      rcases filter_ne_of_not_empty (P := P) hne' with hw | hw
      · exact hw (Prod.ext h1.symm h2.symm)
      · exact hw h3.symm
  | addMulti a => exact absurd trivial hbad
  | delMulti a => exact absurd trivial hbad
  | setCap reqTx reqRx => exact absurd trivial hbad
  | poll media linkValid => exact absurd trivial hbad

/-- **Filter coherence, exactly.** Along a run the hardware's filter is the one
the flags and groups call for, whenever the interface is running, if and only
if the interface is only ever brought up while nothing is asked of the
filter. -/
theorem filter_coherent_iff (es : List FilterEvent) :
    (filterSystem P).Always (attachCtl P) es (fun s => s.running = true → FilterCoherent P s) ↔
      (filterSystem P).Meets upWithEmptyFilter (attachCtl P) es := by
  refine System.always_iff_meets rfl ?_ ?_ es
  · intro t h
    exact (filter_reachable_inv h).coherent
  · intro t e t' h hbad hs hc
    obtain ⟨hrun, hn⟩ := incoherent_of_up (filter_reachable_inv h) hbad hs
    exact hn (hc hrun)

/-- A group joined while the interface is down is lost when it comes up. -/
theorem filter_incoherent_after_join_while_down :
    ¬ ∀ es, (filterSystem sampleConfig).Always (attachCtl sampleConfig) es
      (fun s => s.running = true → FilterCoherent sampleConfig s) := by
  intro h
  have hrun : ((filterSystem sampleConfig).run (attachCtl sampleConfig)
      [.addMulti fun _ => 1#8, .ifflags true false false 0#32 false]).map
        (fun s => (s.running, decide (FilterCoherent sampleConfig s))) = some (true, false) := by
    decide
  obtain ⟨s, hs, hq⟩ := Option.map_eq_some_iff.mp hrun
  rw [Prod.mk.injEq, decide_eq_false_iff_not] at hq
  exact hq.2 (h _ _ s (List.prefix_refl _) hs hq.1)

end Phytium.Xmac
