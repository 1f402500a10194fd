import PhytiumSdk.Xmac.FilterCoherence
import Mathlib.Data.List.Induction

/-!
# The receive filter of XMAC v2

`phytium_xmac_msg_rx_filter` sends its two settings to the controller:
`FXmacMsgSetMcHash` in every call, `FXmacMsgEnablePromise` only when
`IFF_PROMISC` is set. So the hash is that of the last call, and the promiscuous
mode stays on behind the first call that asked for it.
`phytium_xmac_rx_filter` of the other driver clears its three bits before it
sets them, and has no such memory.
-/

namespace Phytium.Xmac

open Lib.Mask

/-- The receive filter of the controller of XMAC v2. -/
structure MsgFilter where
  promisc : Bool
  /-- the two words of the hash, the upper half first -/
  mcHash : BitVec 32 × BitVec 32
deriving DecidableEq

/-- What `phytium_xmac_msg_rx_filter` finds when it is called. -/
structure FilterCall where
  flags : IfFlags
  multi : List EtherAddr
deriving DecidableEq

/-- `FXmacMsgEnablePromise`. -/
def enablePromise (on : Bool) (h : MsgFilter) : MsgFilter := { h with promisc := on }

/-- `FXmacMsgSetMcHash`. -/
def setMcHash (hashes : BitVec 32 × BitVec 32) (h : MsgFilter) : MsgFilter :=
  { h with mcHash := hashes }

/-- `phytium_xmac_msg_rx_filter`. Its hashes are computed as in
`phytium_xmac_rx_filter`. -/
def msgRxFilter (h : MsgFilter) (c : FilterCall) : MsgFilter :=
  let h := if c.flags.promisc then enablePromise true h else h
  setMcHash (filterHashes c.flags c.multi) h

/-- The controller behind some calls. -/
def msgRxFilters (h : MsgFilter) (calls : List FilterCall) : MsgFilter :=
  calls.foldl msgRxFilter h

/-- The filter a call asks for. -/
def FilterCall.wanted (c : FilterCall) : MsgFilter :=
  ⟨c.flags.promisc, filterHashes c.flags c.multi⟩

variable (h h' : MsgFilter) (c : FilterCall)

@[simp] theorem msgRxFilter_mcHash :
    (msgRxFilter h c).mcHash = filterHashes c.flags c.multi := rfl

@[simp] theorem msgRxFilter_promisc :
    (msgRxFilter h c).promisc = (h.promisc || c.flags.promisc) := by
  unfold msgRxFilter
  cases hp : c.flags.promisc with
  | true =>
      rw [if_pos rfl, Bool.or_true]
      rfl
  | false =>
      rw [if_neg Bool.false_ne_true, Bool.or_false]
      rfl

theorem msgRxFilters_snoc (calls : List FilterCall) :
    msgRxFilters h (calls ++ [c]) = msgRxFilter (msgRxFilters h calls) c := by
  rw [msgRxFilters, List.foldl_append]
  rfl

/-- Promiscuous mode records whether any call has asked for it. -/
theorem msgRxFilters_promisc (calls : List FilterCall) :
    (msgRxFilters h calls).promisc = (h.promisc || calls.any fun c => c.flags.promisc) := by
  induction calls using List.reverseRecOn with
  | nil => exact (Bool.or_false _).symm
  | append_singleton calls c ih =>
      rw [msgRxFilters_snoc, msgRxFilter_promisc, ih, List.any_append, Bool.or_assoc]
      simp

/-- Two filters a call can leave differ in their mode at most. -/
theorem msgRxFilter_eq_iff {m : MsgFilter} (hm : m.mcHash = filterHashes c.flags c.multi) :
    msgRxFilter h c = m ↔ (h.promisc || c.flags.promisc) = m.promisc := by
  rw [← msgRxFilter_promisc]
  constructor
  · intro he
    rw [he]
  · intro hp
    show MsgFilter.mk _ _ = MsgFilter.mk _ _
    rw [MsgFilter.mk.injEq]
    exact ⟨hp, hm.symm⟩

/-- **The filter is that of the last call** just when the last call asks for
promiscuous mode or no call before has. Two histories before one last call end
in the same filter just when that call asks for promiscuous mode, or both
histories have asked for it or neither has. -/
theorem rx_filter_history_iff (h0 : h.promisc = false) (h0' : h'.promisc = false)
    (calls calls' : List FilterCall) :
    (msgRxFilters h (calls ++ [c]) = c.wanted ↔
      c.flags.promisc = true ∨ ∀ b ∈ calls, b.flags.promisc = false) ∧
    (msgRxFilters h (calls ++ [c]) = msgRxFilters h' (calls' ++ [c]) ↔
      c.flags.promisc = true ∨
        ((∃ b ∈ calls, b.flags.promisc = true) ↔ ∃ b ∈ calls', b.flags.promisc = true)) := by
  constructor
  · rw [msgRxFilters_snoc, msgRxFilter_eq_iff (msgRxFilters h calls) c rfl, msgRxFilters_promisc,
      h0, Bool.false_or]
    show _ = c.flags.promisc ↔ _
    cases hp : c.flags.promisc with
    | true => simp
    | false => simp
  · have hany : ∀ l : List FilterCall, (∃ b ∈ l, b.flags.promisc = true) ↔
        (l.any fun b => b.flags.promisc) = true := by
      intro l
      rw [List.any_eq_true]
    rw [msgRxFilters_snoc, msgRxFilters_snoc, msgRxFilter_eq_iff (msgRxFilters h calls) c rfl,
      msgRxFilter_promisc, msgRxFilters_promisc, msgRxFilters_promisc, h0, h0', Bool.false_or,
      Bool.false_or, hany, hany, ← Bool.eq_iff_iff]
    cases c.flags.promisc with
    | true => simp
    | false => simp

/-- An interface that is up, with the promiscuous flag as given. -/
def promiscCall (promisc : Bool) : FilterCall :=
  ⟨⟨true, promisc, false, true⟩, []⟩

/-- The filter of two calls, with and then without `IFF_PROMISC`. -/
theorem rx_filter_history_quiet :
    msgRxFilters ⟨false, (0#32, 0#32)⟩ [promiscCall false, promiscCall true] =
      (promiscCall true).wanted :=
  ((rx_filter_history_iff ⟨false, (0#32, 0#32)⟩ ⟨false, (0#32, 0#32)⟩ (promiscCall true) rfl rfl
    [promiscCall false] []).1).mpr (Or.inl rfl)

/-- `IFF_PROMISC` is set for one call and clear for the next. -/
theorem promiscuous_for_ever :
    ¬ ∀ (h : MsgFilter) (calls : List FilterCall) (c : FilterCall), h.promisc = false →
      msgRxFilters h (calls ++ [c]) = c.wanted := by
  intro hall
  have hlast := hall ⟨false, (0#32, 0#32)⟩ [promiscCall true] (promiscCall false) rfl
  exact absurd (congrArg MsgFilter.promisc hlast) (by decide)

/-- The other driver has no such memory: behind `phytium_xmac_rx_filter` the
filter depends on the flags and the list only. -/
theorem rxFilter_forgets {P : XmacConfig} {s s' : CtlState} (hf : s'.flags = s.flags)
    (hm : s'.multi = s.multi) :
    (rxFilter P s').hashh = (rxFilter P s).hashh ∧ (rxFilter P s').hashl = (rxFilter P s).hashl ∧
    (rxFilter P s').nwcfg &&& P.nwcfg.filter = (rxFilter P s).nwcfg &&& P.nwcfg.filter := by
  obtain ⟨h1, h2, h3⟩ := rxFilter_coherent (P := P) s
  obtain ⟨h1', h2', h3'⟩ := rxFilter_coherent (P := P) s'
  have hflags : (rxFilter P s').flags = (rxFilter P s).flags := hf
  have hmulti : (rxFilter P s').multi = (rxFilter P s).multi := hm
  refine ⟨?_, ?_, ?_⟩
  · rw [h1', h1, hflags, hmulti]
  · rw [h2', h2, hflags, hmulti]
  · rw [h3', h3, hflags, hmulti]

end Phytium.Xmac
