import PhytiumSdk.Sdif.BounceSteps

/-!
# SDIF: the bounce buffer

The RTEMS build puts the aligned buffer in the place of a client's buffer that
the DMA cannot use: `sdif_dma_prepare` copies the data there,
`sdif_finish_command` copies it back. The device transfers exactly the data of
the request between the start and `DATA_DONE`; what it delivers is `dev`.
-/

namespace Phytium.Sdif

open Lib

variable {cfg : SdifConfig} {k : ℕ} {d : MmcData} {dev : List (BitVec 8)} {m₀ : Mem}
variable {v : Version} {p : CallPc} {s s' t : SdifState} {ok : Bool}

/-! ## The reports of the controller -/

/-- A report that does not concern the request. -/
theorem Preparing.keep (h : Preparing cfg k d m₀ v p s) (hpc : t.pc = s.pc)
    (hcmds : t.cmds k = s.cmds k) (howed : t.hc.dataOwed = true → s.hc.dataOwed = true)
    (hlog : ∀ c ∈ t.doneLog, c.req = k → c ∈ s.doneLog)
    (hfacts : ∀ f ∈ p.facts v, f.Holds cfg k d m₀ s → f.Holds cfg k d m₀ t) :
    Preparing cfg k d m₀ v p t := by
  refine ⟨?_, h.place, ?_, ?_, ?_, fun f hf => hfacts f hf (h.facts f hf)⟩
  · rw [hpc]
    exact h.pc
  · rw [hcmds]
    exact h.data
  · by_contra hn
    have := howed ((Bool.not_eq_false _).mp hn)
    rw [h.dataOwed] at this
    cases this
  · intro hmem
    obtain ⟨c, hc, hk⟩ := List.mem_map.mp hmem
    exact h.undone (List.mem_map.mpr ⟨c, hlog c hc hk, hk⟩)

theorem Ended.keep (h : Ended cfg k d dev m₀ s) (hpc : t.pc = s.pc)
    (howed : t.hc.dataOwed = true → s.hc.dataOwed = true) (hcmd : t.hc.cmdOwed = false)
    (hmem : t.mem = s.mem)
    (hlog : ∀ c ∈ t.doneLog, c.req = k → c ∈ s.doneLog ∨ c.error ≠ .none) :
    Ended cfg k d dev m₀ t := by
  refine ⟨?_, ?_, ?_, ?_, ?_⟩
  · rw [hpc]
    exact h.place
  · by_contra hn
    have := howed ((Bool.not_eq_false _).mp hn)
    rw [h.dataOwed] at this
    cases this
  · intro howed
    rw [hcmd] at howed
    cases howed
  · rw [hmem]
    exact h.mem
  · intro hr hw hp c hc hk he
    rw [hpc] at hp
    rcases hlog c hc hk with hold | herr
    · exact h.read hr hw hp c hold hk he
    · exact absurd he herr

/-- `sdif_finish_command` for another request, or for none. -/
theorem finishCommand_apart (cfg : SdifConfig) (hexp : s.expectData = false)
    (hreq : s.req ≠ some k) :
    (finishCommand cfg s).pc = s.pc ∧ (finishCommand cfg s).cmds k = s.cmds k ∧
    (finishCommand cfg s).hc = s.hc ∧ (finishCommand cfg s).mem = s.mem ∧
    (finishCommand cfg s).expectData = false ∧
    ∀ c ∈ (finishCommand cfg s).doneLog, c.req = k → c ∈ s.doneLog := by
  unfold finishCommand
  split
  · exact ⟨rfl, rfl, rfl, rfl, hexp, fun _ hc _ => hc⟩
  · rename_i r hr
    have hrk : k ≠ r := by
      rintro rfl
      exact hreq hr
    split
    · split
      · rename_i response mem _ hcopy
        have hmem : mem = s.mem := by
          simpa [copyBack, hexp] using hcopy.symm
        refine ⟨rfl, Function.update_of_ne hrk .., rfl, hmem, hexp, ?_⟩
        intro c hc hk
        rcases List.mem_append.mp hc with hc | hc
        · exact hc
        · rw [List.mem_singleton.mp hc] at hk
          exact absurd hk hrk.symm
      · exact ⟨rfl, rfl, rfl, rfl, hexp, fun _ hc _ => hc⟩
    · exact ⟨rfl, rfl, rfl, rfl, hexp, fun _ hc _ => hc⟩

/-- `CMD_DONE` comes before the start for the internal CMD23 only. -/
theorem CallPc.facts_of_owed (hp : p.preparing d = true) (h : .unowed ∉ p.facts v) :
    .dataless ∈ p.facts v ∧ p.fresh = true ∧
      ∀ f ∈ p.facts v, f = .untouched ∨ f = .polled ∨ f = .dataless := by
  cases p with
  | blockCount b =>
      cases b with
      | poll => simp [facts, BlockCountPc.facts, fresh]
      | exit err => cases err <;> simp_all [facts, BlockCountPc.facts, fresh]
      | _ => simp [facts, BlockCountPc.facts] at h
  | filter err => cases err <;> simp_all [facts, fresh]
  | issue b => simp [facts, IssuePc.facts] at h
  | _ => simp [facts] at h

theorem commandDone_dataless (resp : Resp) (hexp : s.expectData = false) :
    commandDone cfg resp s = finishCommand cfg (noteCommandDone cfg resp s) := by
  unfold commandDone
  rw [hexp]
  rfl

theorem Preparing.commandDone (h : Preparing cfg k d m₀ cfg.version p s) (hc : CallInv cfg s)
    (howed : s.hc.cmdOwed = true) (resp : Resp) :
    Preparing cfg k d m₀ cfg.version p (commandDone cfg resp s) := by
  have hun : .unowed ∉ p.facts cfg.version := by
    intro hf
    have hno : s.hc.cmdOwed = false := h.facts .unowed hf
    rw [howed] at hno
    cases hno
  obtain ⟨hdata, hfresh, hfew⟩ := CallPc.facts_of_owed h.place hun
  obtain ⟨hexp, hreq⟩ := h.stale hc (Or.inr ⟨hdata, hfresh⟩) howed
  rw [commandDone_dataless resp hexp]
  have hnote : (noteCommandDone cfg resp s).expectData = false := hexp
  obtain ⟨hpc, hcmds, hhc, hmem, hexp', hlog⟩ := finishCommand_apart cfg hnote hreq
  refine h.keep hpc hcmds ?_ hlog ?_
  · rw [hhc]
    exact id
  · intro f hf hold
    rcases hfew f hf with rfl | rfl | rfl
    · exact hmem.trans hold
    · intro hcmd
      rw [hhc] at hcmd
      cases hcmd
    · exact hexp'

theorem Ended.commandDone (h : Ended cfg k d dev m₀ s) (howed : s.hc.cmdOwed = true)
    (resp : Resp) : Ended cfg k d dev m₀ (commandDone cfg resp s) := by
  obtain ⟨hexp, hreq⟩ := h.stale howed
  rw [commandDone_dataless resp hexp]
  have hnote : (noteCommandDone cfg resp s).expectData = false := hexp
  obtain ⟨hpc, -, hhc, hmem, -, hlog⟩ := finishCommand_apart cfg hnote hreq
  refine h.keep hpc ?_ ?_ hmem fun c hc hk => Or.inl (hlog c hc hk)
  · rw [hhc]
    exact id
  · rw [hhc]
    rfl

/-- The memory on the way. -/
theorem Flying.elsewhere (hlen : d.len ≤ cfg.alignedDmaBufLen) (hdev : dev.length = d.len)
    (h : Flying cfg k d dev m₀ s) : SameElsewhere cfg d m₀ s.mem := by
  rw [h.mem]
  split
  · exact bounceMem_elsewhere hlen
  · exact deliveredMem_elsewhere hlen hdev

/-- `sdif_finish_command` copies the data back. -/
theorem Flying.finish (hr : cfg.rtems = true) (hlen : d.len ≤ cfg.alignedDmaBufLen)
    (hdev : dev.length = d.len) (h : Flying cfg k d dev m₀ s) (hcmd : s.hc.cmdOwed = false)
    (hdata : s.hc.dataOwed = false) : Phase cfg k d dev m₀ (finishCommand cfg s) := by
  have hcopy : copyBack cfg s (s.cmds k).data = some (copyMem d s.datPkg.buf s.mem) := by
    rw [copyBack, h.expect, hr, h.data]
    rfl
  have hmem : s.mem = deliveredMem cfg d dev m₀ := by
    have hold := h.mem
    rwa [hdata, if_neg Bool.false_ne_true] at hold
  unfold finishCommand
  rw [h.req]
  dsimp only
  split
  · split
    · rename_i response mem _ hsome
      rw [hcopy, Option.some.injEq] at hsome
      subst hsome
      refine .ended ⟨CallPc.flying_settled h.place, hdata, ?_, ?_, ?_⟩
      · intro howed
        exact absurd (hcmd.symm.trans howed) Bool.false_ne_true
      · exact (h.elsewhere hlen hdev).trans copyMem_elsewhere
      · intro hread hwrite _ c hc hk _
        rcases List.mem_append.mp hc with hc | hc
        · exact absurd (List.mem_map.mpr ⟨c, hc, hk⟩) h.undone
        · rw [List.mem_singleton.mp hc]
          have hsame : ((retire cfg k response (copyMem d s.datPkg.buf s.mem) s).cmds k).data =
              some d := by
            simp [retire, h.data]
          change readBuffer ((retire cfg k response _ s).cmds k).data _ = dev
          rw [hsame, h.buf, hmem]
          exact copyMem_read hread hwrite hdev
    · exact .flying (h.frame (.panic s) h.place)
  · exact .flying (h.frame (.panic s) h.place)

theorem Flying.commandDone (hr : cfg.rtems = true) (hlen : d.len ≤ cfg.alignedDmaBufLen)
    (hdev : dev.length = d.len) (h : Flying cfg k d dev m₀ s) (resp : Resp) :
    Phase cfg k d dev m₀ (commandDone cfg resp s) := by
  have hnote : Flying cfg k d dev m₀ (noteCommandDone cfg resp s) :=
    ⟨h.place, h.data, h.req, h.expect, rfl, h.dtoRcvd, h.buf, h.ring, h.sink, h.mem, h.undone⟩
  unfold Sdif.commandDone
  rw [h.expect, h.dtoRcvd]
  split
  · rename_i hdto
    have hdata : s.hc.dataOwed = false := by simpa using hdto
    exact hnote.finish hr hlen hdev rfl hdata
  · exact .flying hnote

/-- What the controller has stored. -/
theorem Flying.storeData (hdev : dev.length = d.len) (h : Flying cfg k d dev m₀ s)
    (howed : s.hc.dataOwed = true) : storeData dev s = deliveredMem cfg d dev m₀ := by
  have hmem := h.mem
  rw [howed, if_pos rfl] at hmem
  unfold Sdif.storeData deliveredMem
  rw [h.sink, hmem]
  cases d.write with
  | true => rfl
  | false =>
      change writeMem _ _ (dev.take d.len) = writeMem _ _ dev
      rw [List.take_of_length_le (Nat.le_of_eq hdev)]

theorem Flying.dataDone (hr : cfg.rtems = true) (hlen : d.len ≤ cfg.alignedDmaBufLen)
    (hdev : dev.length = d.len) (h : Flying cfg k d dev m₀ s) (howed : s.hc.dataOwed = true) :
    Phase cfg k d dev m₀ (dataDone cfg dev s) := by
  have hnote : Flying cfg k d dev m₀ (noteDataDone dev s) :=
    ⟨h.place, h.data, h.req, h.expect, h.cmdDone, rfl, h.buf, h.ring, h.sink,
      h.storeData hdev howed, h.undone⟩
  have hdma : dmaDoneOk cfg s s.curcmd = true := by
    rw [dmaDoneOk, hr]
    rfl
  unfold Sdif.dataDone
  rw [hdma, Bool.not_true, Bool.and_false, if_neg Bool.false_ne_true, h.cmdDone]
  split
  · rename_i hdone
    have hcmd : s.hc.cmdOwed = false := by simpa using hdone
    exact hnote.finish hr hlen hdev hcmd rfl
  · exact .flying hnote

/-! ## The timeout handler -/

theorem timeout_cases (cfg : SdifConfig) (s : SdifState) :
    (∃ b, timeout cfg s = { s with callout := .idle, panicked := b }) ∨
    ∃ r cmds c, s.req = some r ∧ c.req = r ∧ c.error = .timeout ∧
      (∀ j, j ≠ r → cmds j = s.cmds j) ∧
      timeout cfg s = { s with
        callout := .idle
        hc := s.hc.restart
        cmds := cmds
        doneLog := s.doneLog ++ [c] } := by
  unfold timeout
  split
  · exact Or.inl ⟨_, rfl⟩
  · exact Or.inl ⟨_, rfl⟩
  · rename_i r _ hreq
    split
    · exact Or.inl ⟨_, rfl⟩
    · refine Or.inr ⟨r, _, _, hreq, rfl, ?_, fun j hj => Function.update_of_ne hj .., rfl⟩
      simp [SdifState.setErr]

theorem Phase.timeout (hlen : d.len ≤ cfg.alignedDmaBufLen) (hdev : dev.length = d.len)
    (hc : CallInv cfg s) (h : Phase cfg k d dev m₀ s) (hlock : s.lock = none) :
    Phase cfg k d dev m₀ (timeout cfg s) := by
  rcases timeout_cases cfg s with ⟨b, ht⟩ | ⟨r, cmds, c, hreq, hcr, herr, hcmds, ht⟩
  · rw [ht]
    exact h.frame ⟨_, _, _, _, _, _, _, rfl⟩ rfl
  rw [ht]
  have hlog : ∀ c' ∈ s.doneLog ++ [c], c'.req = k → c' ∈ s.doneLog ∨ c'.error ≠ .none := by
    intro c' hc' _
    rcases List.mem_append.mp hc' with hc' | hc'
    · exact Or.inl hc'
    · right
      rw [List.mem_singleton.mp hc', herr]
      exact MmcErr.noConfusion
  rcases h with h | h | h
  · rename_i p
    -- a call behind `sc->req` holds the lock
    have hkr : k ≠ r := by
      rintro rfl
      have hfresh := hc.current k hreq
      have hheld : (s.pc k).locked cfg.version = true := by
        have hplace := h.place
        rw [h.pc] at hfresh ⊢
        cases p with
        | issue b => rfl
        | unlock err => rfl
        | returned err => cases hplace
        | new => cases hplace
        | _ => cases hfresh
      rw [hc.locked k hheld] at hlock
      cases hlock
    refine .preparing (h.keep rfl (hcmds k hkr) (fun hn => Bool.noConfusion hn) ?_ ?_)
    · intro c' hc' hk
      rcases List.mem_append.mp hc' with hc' | hc'
      · exact hc'
      · rw [List.mem_singleton.mp hc', hcr] at hk
        exact absurd hk.symm hkr
    · intro f _ hf
      cases f <;> first | exact hf | rfl | exact fun hn => Bool.noConfusion hn
  · have hmem := h.elsewhere hlen hdev
    refine .ended ⟨CallPc.flying_settled h.place, rfl, fun hn => Bool.noConfusion hn, hmem, ?_⟩
    intro _ _ _ c' hc' hk he
    rcases hlog c' hc' hk with hold | hne
    · exact absurd (List.mem_map.mpr ⟨c', hold, hk⟩) h.undone
    · exact absurd he hne
  · exact .ended (h.keep rfl (fun hn => Bool.noConfusion hn) rfl rfl hlog)

/-! ## The invariant -/

theorem errorOccurred_transfer (hr : cfg.rtems = true) (s : SdifState) :
    SameTransfer s (errorOccurred cfg s) ∧ (errorOccurred cfg s).pc = s.pc := by
  have hdma : dmaDoneOk cfg s s.curcmd = true := by
    rw [dmaDoneOk, hr]
    rfl
  unfold errorOccurred
  rw [hdma, Bool.not_true, Bool.and_false, if_neg Bool.false_ne_true]
  unfold noteError
  split <;> exact ⟨⟨_, _, _, _, _, _, _, rfl⟩, rfl⟩

/-- A step keeps the request at its stage, or moves it on. -/
theorem Phase.step {e : SdifEvent} (hr : cfg.rtems = true) (hd : cfg.usesDma = true)
    (hlen : d.len ≤ cfg.alignedDmaBufLen) (hdev : dev.length = d.len)
    (h : BounceInv cfg k d dev m₀ s) (he : soleRequest dev s e)
    (hs : eventStep cfg s e = some s') : Phase cfg k d dev m₀ s' := by
  cases e with
  | submit cmd bytes => cases he
  | call j ok => exact h.phase.callStep hr hd hlen h.calls h.others hs
  | cmdDone resp =>
      cases hs
      have howed : s.hc.cmdOwed = true := he
      rcases h.phase with hp | hp | hp
      · exact .preparing (hp.commandDone h.calls howed resp)
      · exact hp.commandDone hr hlen hdev resp
      · exact .ended (hp.commandDone howed resp)
  | dataDone bytes =>
      cases hs
      obtain ⟨howed, rfl⟩ := he
      rcases h.phase with hp | hp | hp
      · rw [hp.dataOwed] at howed
        cases howed
      · exact hp.dataDone hr hlen hdev howed
      · rw [hp.dataOwed] at howed
        cases howed
  | errOccure =>
      cases hs
      obtain ⟨ht, hpc⟩ := errorOccurred_transfer hr s
      exact h.phase.frame ht (congrFun hpc k)
  | expire =>
      obtain ⟨-, ht⟩ := Option.ite_none_right_eq_some.mp hs
      cases ht
      exact h.phase.frame ⟨_, _, _, _, _, _, _, rfl⟩ rfl
  | timeout =>
      obtain ⟨⟨-, hlock⟩, ht⟩ := Option.ite_none_right_eq_some.mp hs
      cases ht
      exact h.phase.timeout hlen hdev h.calls hlock
  | updateIos powerUp useHold =>
      obtain ⟨-, ht⟩ := Option.ite_none_right_eq_some.mp hs
      cases ht
      exact h.phase.frame ⟨_, _, _, _, _, _, _, rfl⟩ rfl

/-- The other calls stay settled. -/
theorem others_step {e : SdifEvent} (h : ∀ j, j ≠ k → (s.pc j).settled = true)
    (he : soleRequest dev s e) (hs : eventStep cfg s e = some s') :
    ∀ j, j ≠ k → (s'.pc j).settled = true := by
  intro j hj
  cases e with
  | submit cmd bytes => cases he
  | call i ok =>
      by_cases hi : j = i
      · subst hi
        exact (settled_step (h j hj) hs).2.1
      · rw [(callStep_spec hs).others j hi]
        exact h j hj
  | cmdDone resp =>
      cases hs
      rw [(commandDone_spec resp s).pc]
      exact h j hj
  | dataDone bytes =>
      cases hs
      rw [(dataDone_spec bytes s).pc]
      exact h j hj
  | errOccure =>
      cases hs
      rw [(errorOccurred_spec cfg s).1]
      exact h j hj
  | expire =>
      obtain ⟨-, ht⟩ := Option.ite_none_right_eq_some.mp hs
      cases ht
      exact h j hj
  | timeout =>
      obtain ⟨-, ht⟩ := Option.ite_none_right_eq_some.mp hs
      cases ht
      rw [(timeout_spec cfg s).1]
      exact h j hj
  | updateIos powerUp useHold =>
      obtain ⟨-, ht⟩ := Option.ite_none_right_eq_some.mp hs
      cases ht
      exact h j hj

theorem Ready.inv (h : Ready cfg k d s) : BounceInv cfg k d dev s.mem s := by
  refine ⟨h.calls, h.others, .preparing ⟨h.pc, ?_, h.data, h.dataOwed, h.undone, ?_⟩⟩
  · unfold entry
    split <;> rfl
  · intro f hf
    have hfew : f ∈ [Fact.unowed, .untouched] := by
      unfold entry at hf
      split at hf <;> exact hf
    rcases List.mem_pair.mp hfew with rfl | rfl
    · exact h.cmdOwed
    · rfl

theorem bounce_reachable_inv {s₀ : SdifState} (hr : cfg.rtems = true) (hd : cfg.usesDma = true)
    (hlen : d.len ≤ cfg.alignedDmaBufLen) (hdev : dev.length = d.len) (h₀ : Ready cfg k d s₀)
    (h : (bounceSystem cfg dev s₀).Reachable s) : BounceInv cfg k d dev s₀.mem s := by
  apply h.invariant
  · rintro s rfl
    exact h₀.inv
  · intro s e s' hi hs
    obtain ⟨he, hs⟩ := System.restrict_step.mp hs
    have hevent := (sdifStep_iff.mp hs).2
    exact ⟨eventStep_callInv hi.calls hevent, others_step hi.others he hevent,
      Phase.step hr hd hlen hdev hi he hevent⟩

/-! ## Transparency -/

theorem Preparing.elsewhere (hlen : d.len ≤ cfg.alignedDmaBufLen)
    (h : Preparing cfg k d m₀ v p s) : SameElsewhere cfg d m₀ s.mem := by
  have hmem : .untouched ∈ p.facts v ∨ .prepared ∈ p.facts v := by
    cases p with
    | blockCount b =>
        cases b with
        | exit err => cases err <;> simp [CallPc.facts, BlockCountPc.facts]
        | _ => simp [CallPc.facts, BlockCountPc.facts]
    | filter err => cases err <;> simp [CallPc.facts]
    | issue b => cases hp : b.prepared v <;> simp [CallPc.facts, IssuePc.facts, hp]
    | _ => simp [CallPc.facts]
  rcases hmem with hf | hf
  · have hold : s.mem = m₀ := h.facts _ hf
    intro x _
    rw [hold]
  · obtain ⟨hold, -⟩ : Fact.prepared.Holds cfg k d m₀ s := h.facts _ hf
    rw [hold]
    exact bounceMem_elsewhere hlen

/-- There is room for the data. -/
theorem dmaPrepareStep_noPanic (hr : cfg.rtems = true) (hlen : d.len ≤ cfg.alignedDmaBufLen)
    (hs : s.panicked = false) : (dmaPrepareStep cfg k ok d s).panicked = false := by
  unfold dmaPrepareStep
  rw [if_pos hr, if_neg (fun hbig => absurd hbig.2 (Nat.not_lt.mpr hlen))]
  cases ok with
  | false => exact hs
  | true => exact hs

theorem BounceInv.transparent (hr : cfg.rtems = true) (hlen : d.len ≤ cfg.alignedDmaBufLen)
    (hdev : dev.length = d.len) (h : BounceInv cfg k d dev m₀ s) :
    Transparent cfg k d dev m₀ s := by
  rcases h.phase with hp | hp | hp
  · have hno : s.hc.dataOwed ≠ true := Bool.eq_false_iff.mp hp.dataOwed
    refine ⟨fun ho => absurd ho hno, fun ho => absurd ho hno, ?_, hp.elsewhere hlen, ?_⟩
    · intro _ _ _ c hc hk _
      exact absurd (List.mem_map.mpr ⟨c, hc, hk⟩) hp.undone
    · intro d' ok hrun hpc
      have hplace := hp.place
      rw [← hp.pc, hpc] at hplace
      have hd : d' = d := by simpa [CallPc.preparing] using hplace
      rw [hd]
      exact dmaPrepareStep_noPanic hr hlen hrun
  · refine ⟨fun _ => hp.ring.trans hp.buf.symm, ?_, ?_, hp.elsewhere hlen hdev, ?_⟩
    · intro howed hw
      have hmem := hp.mem
      rw [howed, if_pos rfl] at hmem
      rw [hp.buf, hmem]
      exact bounceMem_write hw
    · intro _ _ _ c hc hk _
      exact absurd (List.mem_map.mpr ⟨c, hc, hk⟩) hp.undone
    · intro d' ok _ hpc
      have hplace := hp.place
      rw [hpc] at hplace
      cases hplace
  · have hno : s.hc.dataOwed ≠ true := Bool.eq_false_iff.mp hp.dataOwed
    refine ⟨fun ho => absurd ho hno, fun ho => absurd ho hno, hp.read, hp.mem, ?_⟩
    intro d' ok _ hpc
    have hplace := hp.place
    rw [hpc] at hplace
    cases hplace

/-- A callback is one of a request that was submitted. -/
theorem sdif_reachable_done (h : (sdifSystem cfg).Reachable s) :
    ∀ r ∈ s.doneReqs, r < s.submitted := by
  induction h with
  | init hi =>
      obtain ⟨mem, need, rfl⟩ := hi
      simp [SdifState.doneReqs, attached]
  | @step s s' e hreach hs ih =>
      have hcalls := sdif_reachable_callInv hreach
      have hcur : ∀ r, s.req = some r → r < s.submitted := by
        intro r hreq
        refine hcalls.born fun hnew => ?_
        have hfresh := hcalls.current r hreq
        rw [hnew] at hfresh
        cases hfresh
      -- a step adds one callback at most, of a call or of the current request
      have hadd : ∀ {c : DoneCall}, s'.doneLog = s.doneLog ++ [c] → c.req < s.submitted →
          s'.subs = s.subs → ∀ r ∈ s'.doneReqs, r < s'.submitted := by
        intro c hlog hc hsubs r hmem
        have hsub : s'.submitted = s.submitted := congrArg List.length hsubs
        rw [SdifState.doneReqs, hlog, List.map_append] at hmem
        rw [hsub]
        rcases List.mem_append.mp hmem with hold | hnew
        · exact ih r hold
        · rwa [List.mem_singleton.mp hnew]
      have hkeep : s'.doneLog = s.doneLog → s.submitted ≤ s'.submitted →
          ∀ r ∈ s'.doneReqs, r < s'.submitted := by
        intro hlog hle r hmem
        rw [SdifState.doneReqs, hlog] at hmem
        exact (ih r hmem).trans_le hle
      have hdone : ∀ {c : Option ℕ}, DoneEvent s s' c →
          ∀ r ∈ s'.doneReqs, r < s'.submitted := by
        intro c hd
        cases c with
        | none => exact hkeep (hd.quiet rfl).2.1 (Nat.le_of_eq (congrArg List.length hd.subs.symm))
        | some r =>
            obtain ⟨hreq, -, resp, buffer, hlog⟩ := hd.done r rfl
            exact hadd hlog (hcur r hreq) hd.subs
      have hevent := (sdifStep_iff.mp hs).2
      cases e with
      | submit cmd bytes =>
          cases hevent
          exact hkeep rfl (by simp [submit, SdifState.submitted])
      | call k ok =>
          have hstep := callStep_spec hevent
          rcases hstep.doneLog with hlog | ⟨-, -, -, error, resp, buffer, hlog⟩
          · exact hkeep hlog (Nat.le_of_eq (congrArg List.length hstep.subs.symm))
          · exact hadd hlog (hcalls.born hstep.entered) hstep.subs
      | cmdDone resp =>
          cases hevent
          exact hdone (commandDone_spec resp s)
      | dataDone bytes =>
          cases hevent
          exact hdone (dataDone_spec bytes s)
      | errOccure =>
          cases hevent
          obtain ⟨-, -, hsub, -, -, hlog, -⟩ := errorOccurred_spec cfg s
          exact hkeep hlog (Nat.le_of_eq (congrArg List.length hsub.symm))
      | expire =>
          obtain ⟨-, ht⟩ := Option.ite_none_right_eq_some.mp hevent
          cases ht
          exact hkeep rfl le_rfl
      | timeout =>
          obtain ⟨-, ht⟩ := Option.ite_none_right_eq_some.mp hevent
          cases ht
          obtain ⟨-, -, hsub, -, -, -, ⟨hlog, -⟩ | ⟨r, resp, buffer, hreq, -, hlog⟩⟩ :=
            timeout_spec cfg s
          · exact hkeep hlog (Nat.le_of_eq (congrArg List.length hsub.symm))
          · exact hadd hlog (hcur r hreq) hsub
      | updateIos powerUp useHold =>
          obtain ⟨-, ht⟩ := Option.ite_none_right_eq_some.mp hevent
          cases ht
          exact hkeep rfl le_rfl

/-- No call is under way, and the controller owes nothing. -/
def Clear (s : SdifState) : Prop :=
  (∀ j, (s.pc j).settled = true) ∧ s.hc.cmdOwed = false ∧ s.hc.dataOwed = false

/-- A request that is submitted then. -/
theorem ready_of_submit {cmd : MmcCommand} {bytes : List (BitVec 8)}
    (h : (sdifSystem cfg).Reachable s) (hclear : Clear s) (hdata : cmd.data = some d) :
    Ready cfg s.submitted d (submit cfg cmd bytes s) := by
  obtain ⟨hcalls, hcmd, howed⟩ := hclear
  refine ⟨(sdif_reachable_callInv h).submit, ?_, ?_, ?_, hcmd, howed, ?_⟩
  · rw [submit_pc, if_pos rfl]
  · simp [submit, hdata]
  · intro j hj
    rw [submit_pc, if_neg hj]
    exact hcalls j
  · intro hmem
    exact absurd (sdif_reachable_done h _ hmem) (Nat.lt_irrefl _)

/-- **The bounce buffer is transparent** to every data request that fits it,
aligned or not, if all requests before it have come to an end, the `CMD23` of each
included, and no other is submitted in the meantime. -/
theorem bounce_transparent {s₁ s : SdifState} {cmd : MmcCommand} {bytes dev : List (BitVec 8)}
    {d : MmcData} (hr : cfg.rtems = true) (hd : cfg.usesDma = true)
    (hbuf : cfg.alignedDmaBufLen = sdifMaxData cfg.version * mmcSectorSize)
    (hreach : (sdifSystem cfg).Reachable s₁) (hclear : Clear s₁) (hdata : cmd.data = some d)
    (hlen : d.len ≤ sdifMaxData cfg.version * mmcSectorSize) (hdev : dev.length = d.len)
    (h : (bounceSystem cfg dev (submit cfg cmd bytes s₁)).Reachable s) :
    Transparent cfg s₁.submitted d dev (submit cfg cmd bytes s₁).mem s := by
  rw [← hbuf] at hlen
  have hready : Ready cfg s₁.submitted d (submit cfg cmd bytes s₁) :=
    ready_of_submit hreach hclear hdata
  exact (bounce_reachable_inv hr hd hlen hdev hready h).transparent hr hlen hdev

/-- The sample driver with an aligned buffer of the size `sdif_dma_setup`
allocates. -/
def bounceSdif : SdifConfig :=
  { sampleSdif .v1 with alignedDmaBufLen := sdifMaxData .v1 * mmcSectorSize }

/-- `READ_SINGLE_BLOCK` of four bytes to an address the DMA cannot use. -/
def readUnaligned : MmcCommand :=
  ⟨17#32, 0#32, true, false, true, some ⟨0x2003, 4, false, true⟩,
    ⟨0#32, 0#32, 0#32, 0#32⟩, .none⟩

/-- The call up to its end, the data, and the end of the command. -/
def readEvents (bytes : List (BitVec 8)) : List SdifEvent :=
  calls 0 16 ++ [.dataDone bytes, .cmdDone ⟨0#32, 0#32, 0#32, 0#32⟩]

/-- The client of an unaligned read finds what the device has sent. -/
theorem bounce_transparent_unaligned :
    let s₀ := submit bounceSdif readUnaligned [] (attached (fun _ => 0#8) false)
    ∃ s, (bounceSystem bounceSdif [1#8, 2#8, 3#8, 4#8] s₀).run s₀
        (readEvents [1#8, 2#8, 3#8, 4#8]) = some s ∧
      ∃ c ∈ s.doneLog, c.error = .none ∧ c.buffer = [1#8, 2#8, 3#8, 4#8] := by
  intro s₀
  have hreach : (sdifSystem bounceSdif).Reachable (attached (fun _ => 0#8) false) :=
    .init ⟨_, _, rfl⟩
  have hclear : Clear (attached (fun _ => 0#8) false) := ⟨fun _ => rfl, rfl, rfl⟩
  have hdata : readUnaligned.data = some ⟨0x2003, 4, false, true⟩ := rfl
  have hrun : (bounceSystem bounceSdif [1#8, 2#8, 3#8, 4#8] s₀).run s₀
      (readEvents [1#8, 2#8, 3#8, 4#8]) = some _ := rfl
  have hread := (bounce_transparent rfl rfl rfl hreach hclear hdata (by decide) rfl
    (System.reachable_of_run _ rfl hrun)).read
  exact ⟨_, hrun, _, List.mem_cons_self, rfl, hread rfl rfl rfl _ List.mem_cons_self rfl rfl⟩

/-- `phytium_sdif_v2.c` with an aligned buffer of its size. -/
def bounceSdifV2 : SdifConfig :=
  { sampleSdif .v2 with alignedDmaBufLen := sdifMaxData .v2 * mmcSectorSize }

/-- `WRITE_BLOCK` of four bytes from an address the DMA cannot use. -/
def writeUnaligned : MmcCommand :=
  ⟨24#32, 0#32, true, false, true, some ⟨0x2003, 4, true, false⟩,
    ⟨0#32, 0#32, 0#32, 0#32⟩, .none⟩

/-- A first request is given up behind its `CMD23`. A read is submitted when that
call has returned; before its transfer is started the end of the `CMD23` is
reported, the client is told of success, and does not have the device's bytes. -/
def ReadOvertaken (cfg : SdifConfig) (rest steps : ℕ) : Prop :=
  ∃ s₁ s, (sdifSystem cfg).run (attached (fun _ => 0#8) false)
      (.submit readTwoBlocks [] :: calls 0 9 ++ .call 0 false :: calls 0 rest) = some s₁ ∧
    (bounceSystem cfg [1#8, 2#8, 3#8, 4#8] (submit cfg readUnaligned [] s₁)).run
      (submit cfg readUnaligned [] s₁)
      (calls 1 steps ++ [.cmdDone ⟨0x900#32, 0#32, 0#32, 0#32⟩]) = some s ∧
    (∀ j, (s₁.pc j).settled = true) ∧
    ¬ Transparent cfg s₁.submitted ⟨0x2003, 4, false, true⟩ [1#8, 2#8, 3#8, 4#8]
      (submit cfg readUnaligned [] s₁).mem s

theorem readOvertaken_of_run {rest steps : ℕ}
    (h : (((sdifSystem cfg).run (attached (fun _ => 0#8) false)
        (.submit readTwoBlocks [] :: calls 0 9 ++ .call 0 false :: calls 0 rest)).bind fun s₁ =>
      ((bounceSystem cfg [1#8, 2#8, 3#8, 4#8] (submit cfg readUnaligned [] s₁)).run
        (submit cfg readUnaligned [] s₁)
        (calls 1 steps ++ [.cmdDone ⟨0x900#32, 0#32, 0#32, 0#32⟩])).map fun s =>
          decide (s₁.submitted = 1 ∧ (s₁.pc 0).settled = true ∧ (s.pc 1).turnedAway = false ∧
            ∃ c ∈ s.doneLog, c.req = 1 ∧ c.error = .none ∧ c.buffer ≠ [1#8, 2#8, 3#8, 4#8])) =
      some true) :
    ReadOvertaken cfg rest steps := by
  obtain ⟨s₁, h₁, h⟩ := Option.bind_eq_some_iff.mp h
  obtain ⟨s, hs, hbad⟩ := Option.map_eq_some_iff.mp h
  obtain ⟨hone, hback, hpc, c, hc, hk, he, hbuf⟩ := of_decide_eq_true hbad
  refine ⟨s₁, s, h₁, hs, ?_, ?_⟩
  · intro j
    by_cases hj : j = 0
    · rw [hj]
      exact hback
    · have hcalls := sdif_reachable_callInv (System.reachable_of_run _ ⟨_, _, rfl⟩ h₁)
      rw [hcalls.unborn j (by omega)]
      rfl
  · rw [hone]
    exact fun ht => hbuf (ht.read rfl rfl hpc c hc hk he)

/-- A write is started, and before its data are through another request is
submitted, whose preparation clears the aligned buffer. -/
def WriteOvertaken (cfg : SdifConfig) (steps others : ℕ) : Prop :=
  ∃ s, (sdifSystem cfg).run
      (submit cfg writeUnaligned [1#8, 2#8, 3#8, 4#8] (attached (fun _ => 0#8) false))
      (calls 0 steps ++ .submit readUnaligned [] :: calls 1 others) = some s ∧
    ¬ Transparent cfg 0 ⟨0x2003, 4, true, false⟩ []
      (submit cfg writeUnaligned [1#8, 2#8, 3#8, 4#8] (attached (fun _ => 0#8) false)).mem s

theorem writeOvertaken_of_run {steps others : ℕ}
    (h : ((sdifSystem cfg).run
        (submit cfg writeUnaligned [1#8, 2#8, 3#8, 4#8] (attached (fun _ => 0#8) false))
        (calls 0 steps ++ .submit readUnaligned [] :: calls 1 others)).map (fun s =>
          (s.hc.dataOwed, readMem s.mem s.datPkg.buf 4)) = some (true, [0#8, 0#8, 0#8, 0#8])) :
    WriteOvertaken cfg steps others := by
  obtain ⟨s, hs, hbad⟩ := Option.map_eq_some_iff.mp h
  obtain ⟨howed, hmem⟩ := Prod.mk.inj hbad
  refine ⟨s, hs, fun ht => ?_⟩
  have hsame : [1#8, 2#8, 3#8, 4#8] = [0#8, 0#8, 0#8, 0#8] :=
    (ht.write howed rfl).symm.trans hmem
  exact absurd hsame (by decide)

/-- Each of the two conditions can be the only one that is not met, in both
drivers. -/
theorem bounce_overtaken :
    ReadOvertaken bounceSdif 3 11 ∧ ReadOvertaken bounceSdifV2 2 13 ∧
    WriteOvertaken bounceSdif 16 13 ∧ WriteOvertaken bounceSdifV2 17 9 :=
  ⟨readOvertaken_of_run (by decide), readOvertaken_of_run (by decide),
    writeOvertaken_of_run (by decide), writeOvertaken_of_run (by decide)⟩

end Phytium.Sdif
