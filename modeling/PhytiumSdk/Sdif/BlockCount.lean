import PhytiumSdk.Sdif.CommandTrace
import PhytiumSdk.Sdif.CommandWords
import Mathlib.Logic.Basic

/-!
# SDIF block counts

The number of blocks of a transfer is computed for the argument of `CMD23` and
again for the data package of each driver. The commands a run hands over are held
against each other here. Both drivers divide by 512 for `CMD23`, but only the
first one makes one block of a shorter transfer.
-/

namespace Phytium.Sdif

open Lib Lib.Mask

variable {cfg : SdifConfig} {s : TraceState} {k : ℕ} {cmd : MmcCommand}

/-! ## Counts -/

/-- The argument of `CMD23` keeps 16 bits of the count. -/
theorem blockCountArg_toNat (d : MmcData) :
    (blockCountArg d).toNat = d.len / mmcSectorSize % 2 ^ 16 := by
  have hmask : (0xFFFF#32).toNat = 2 ^ 16 - 1 := rfl
  rw [blockCountArg, BitVec.toNat_and, hmask, Nat.and_two_pow_sub_one_eq_mod,
    BitVec.toNat_ofNat, Nat.mod_mod_of_dvd _ (Nat.pow_dvd_pow 2 (by decide))]

/-- The number of blocks each driver programs. -/
def programmedBlocks (v : Version) (len : ℕ) : ℕ :=
  match v with
  | .v1 => if len / fsdifBlockSize < 1 then 1 else len / fsdifBlockSize
  | .v2 => len / mmcSectorSize

/-- The size of a block each driver programs. -/
def programmedSize (v : Version) (len : ℕ) : ℕ :=
  match v with
  | .v1 => if len < fsdifBlockSize then len else fsdifBlockSize
  | .v2 => mmcSectorSize

theorem dataPackage_geometry {d : MmcData} {p : DatPkg} (h : dataPackage cfg cmd d = some p) :
    p.blksz = programmedSize cfg.version d.len ∧
      p.blkcnt = programmedBlocks cfg.version d.len := by
  unfold dataPackage at h
  split at h <;> rename_i hv <;> rw [hv]
  · cases h
    exact ⟨rfl, rfl⟩
  · obtain ⟨raw, -, rfl⟩ := Option.map_eq_some_iff.mp h
    exact ⟨rfl, rfl⟩

/-- What is handed over with a command that has data. -/
theorem TraceInv.handed_geometry (h : TraceInv cfg s) (hpc : s.sdif.pc k = .issue .start)
    {d : MmcData} (hd : (s.sdif.cmds k).data = some d) :
    ∃ p, s.sdif.handedData = some p ∧ p.blksz = programmedSize cfg.version d.len ∧
      p.blkcnt = programmedBlocks cfg.version d.len := by
  obtain ⟨built, buf, hbuilt, hdat⟩ := h.handed_data hpc hd
  obtain ⟨hsize, hcount⟩ := dataPackage_geometry hbuilt
  exact ⟨_, hdat, hsize, hcount⟩

/-- The `CMD23` of a request carries the number of its sectors, cut to 16
bits. -/
theorem TraceInv.count_told (h : TraceInv cfg s) {q : CmdPkg}
    (hq : .blockCount k q ∈ s.trace) {d : MmcData} (hd : (s.sdif.cmds k).data = some d) :
    needsBlockCount cfg (s.sdif.cmds k) = true ∧
      (q.cmdarg &&& 0xFFFF#32).toNat = d.len / mmcSectorSize % 2 ^ 16 := by
  obtain ⟨-, hneeds, d', hd', hcarry⟩ := h.counts k q hq
  obtain rfl : d = d' := Option.some.inj (hd.symm.trans hd')
  rw [hcarry, blockCountArg_toNat]
  exact ⟨hneeds, rfl⟩

/-! ## One length everywhere -/

/-- The lengths a client may ask for: less than a sector or whole sectors, up to
the advertised maximum. -/
def LegalLength (v : Version) (len : ℕ) : Prop :=
  0 < len ∧ (len < mmcSectorSize ∨ mmcSectorSize ∣ len) ∧ len ≤ sdifMaxData v * mmcSectorSize

/-- The block size and the block count make up the length, and every `CMD23` of
the request has that count. -/
def LengthKept (v : Version) (pre : List TraceItem) (k : ℕ) (cmd : MmcCommand) (_pkg : CmdPkg)
    (dat : Option DatPkg) : Prop :=
  ∀ d, cmd.data = some d → LegalLength v d.len → ∃ p, dat = some p ∧
    p.blksz * p.blkcnt = d.len ∧
    ∀ q, .blockCount k q ∈ pre → (q.cmdarg &&& 0xFFFF#32).toNat = p.blkcnt

/-- The data is a sector or more; the first driver also manages less, unless it
has to tell the card a count. -/
def CountsRight (cfg : SdifConfig) (s : TraceState) (k : ℕ) : Prop :=
  ∀ d, (s.sdif.cmds k).data = some d → LegalLength cfg.version d.len →
    mmcSectorSize ≤ d.len ∨
      cfg.version = .v1 ∧ needsBlockCount cfg (s.sdif.cmds k) = false

theorem sdifMaxData_lt (v : Version) : sdifMaxData v < 2 ^ 16 := by
  cases v <;> decide

/-- A legal length of a sector or more is programmed as it is, in both
drivers. -/
theorem LegalLength.whole {v : Version} {len : ℕ} (h : LegalLength v len)
    (hlen : mmcSectorSize ≤ len) :
    programmedSize v len * programmedBlocks v len = len ∧
      len / mmcSectorSize % 2 ^ 16 = programmedBlocks v len := by
  obtain ⟨-, hdvd, hmax⟩ := h
  have hwhole : mmcSectorSize * (len / mmcSectorSize) = len :=
    Nat.mul_div_cancel' (hdvd.resolve_left (Nat.not_lt.mpr hlen))
  have hone : 1 ≤ len / mmcSectorSize := (Nat.one_le_div_iff (by decide)).mpr hlen
  have hsmall : len / mmcSectorSize < 2 ^ 16 :=
    Nat.lt_of_le_of_lt (Nat.div_le_of_le_mul (by rwa [Nat.mul_comm])) (sdifMaxData_lt v)
  have hcount : programmedBlocks v len = len / mmcSectorSize := by
    cases v with
    | v1 => exact if_neg (Nat.not_lt.mpr hone)
    | v2 => rfl
  have hsize : programmedSize v len = mmcSectorSize := by
    cases v with
    | v1 => exact if_neg (Nat.not_lt.mpr hlen)
    | v2 => rfl
  rw [hcount, hsize]
  exact ⟨hwhole, Nat.mod_eq_of_lt hsmall⟩

theorem lengthKept_iff (h : TraceInv cfg s) (hpc : s.sdif.pc k = .issue .start) :
    s.Hands (LengthKept cfg.version) k ↔ CountsRight cfg s k := by
  constructor
  · intro hp d hd hlegal
    by_contra hn
    rw [not_or, Nat.not_le] at hn
    obtain ⟨hshort, hneeds⟩ := hn
    have hzero : d.len / mmcSectorSize = 0 := Nat.div_eq_of_lt hshort
    obtain ⟨p, hdat, hmul, htold⟩ := hp d hd hlegal
    obtain ⟨p', hdat', hsize, hcount⟩ := h.handed_geometry hpc hd
    obtain rfl : p = p' := Option.some.inj (hdat.symm.trans hdat')
    cases hv : cfg.version with
    | v2 =>
        -- no block at all
        rw [hcount, hv, programmedBlocks, hzero, Nat.mul_zero] at hmul
        exact absurd hmul (Nat.ne_of_lt hlegal.1)
    | v1 =>
        -- one block, and a count of zero in front of it
        have hneeds' : needsBlockCount cfg (s.sdif.cmds k) = true := by
          by_contra hf
          exact hneeds ⟨hv, (Bool.not_eq_true _).mp hf⟩
        obtain ⟨b, q, hbus⟩ := h.counted (h.handed_counted hpc hv hneeds')
        have hmem : .blockCount k q ∈ s.trace := by
          refine (mem_bus_iff.mp ?_).1
          rw [hbus]
          simp
        have hcard := (h.count_told hmem hd).2
        rw [htold q hmem, hcount, hv, hzero] at hcard
        simp [programmedBlocks, hzero] at hcard
  · intro hok d hd hlegal
    obtain ⟨p, hdat, hsize, hcount⟩ := h.handed_geometry hpc hd
    refine ⟨p, hdat, ?_⟩
    rw [hsize, hcount]
    rcases hok d hd hlegal with hlen | ⟨hv, hneeds⟩
    · obtain ⟨hmul, htold⟩ := hlegal.whole hlen
      refine ⟨hmul, ?_⟩
      intro q hq
      rw [(h.count_told hq hd).2, htold]
    · rcases Nat.lt_or_ge d.len mmcSectorSize with hshort | hlen
      · have hzero : d.len / mmcSectorSize = 0 := Nat.div_eq_of_lt hshort
        refine ⟨?_, ?_⟩
        · rw [hv]
          simp [programmedSize, programmedBlocks, hshort, hzero]
        · intro q hq
          rw [(h.count_told hq hd).1] at hneeds
          cases hneeds
      · refine ⟨(hlegal.whole hlen).1, ?_⟩
        intro q hq
        rw [(h.count_told hq hd).1] at hneeds
        cases hneeds

/-- **One length everywhere.** From the moment the driver is attached, the
commands of a run keep their lengths if and only if each is handed over with a
sector or more of data, or, by the first driver, with less and no `CMD23`. -/
theorem lengths_kept_iff (cfg : SdifConfig) (mem : Mem) (need : Bool) (es : List SdifEvent) :
    (traceSystem cfg).Always ⟨attached mem need, []⟩ es
        (fun t => EachCommand (LengthKept cfg.version) t.trace) ↔
      (traceSystem cfg).Meets (HandsOnly (CountsRight cfg)) ⟨attached mem need, []⟩ es := by
  refine always_eachCommand_iff ?_ ⟨⟨mem, need, rfl⟩, rfl⟩ es
  intro s k hs hrun hpc
  exact lengthKept_iff (trace_reachable_inv hs hrun) hpc

/-- `ACMD51`: the eight bytes of the `SCR`. -/
def readScr : MmcCommand :=
  ⟨51#32, 0#32, true, false, true, some ⟨0x4000, 8, false, true⟩, ⟨0#32, 0#32, 0#32, 0#32⟩, .none⟩

/-- `WRITE_MULTIPLE_BLOCK` of 64 bytes. -/
def writeShort : MmcCommand :=
  ⟨mmcWriteMultipleBlock, 0#32, true, false, true, some ⟨0x4000, 64, true, false⟩,
    ⟨0#32, 0#32, 0#32, 0#32⟩, .none⟩

/-- The second driver asks the controller for no block of the `SCR`; the first
one tells the card zero blocks and the controller one. -/
theorem short_transfers_miscounted :
    (¬ ∀ t, (traceSystem (sampleSdif .v2)).Reachable t → EachCommand (LengthKept .v2) t.trace) ∧
    (¬ ∀ t, (traceSystem (sampleSdif .v1)).Reachable t →
      EachCommand (LengthKept .v1) t.trace) := by
  have hscr : LegalLength .v2 8 := by
    unfold LegalLength
    decide
  have hshort : LegalLength .v1 64 := by
    unfold LegalLength
    decide
  have hreach : ∀ v es t,
      (traceSystem (sampleSdif v)).run ⟨attached (fun _ => 0#8) false, []⟩ es = some t →
      (traceSystem (sampleSdif v)).Reachable t :=
    fun _ _ _ ht => System.reachable_of_run _ ⟨⟨_, _, rfl⟩, rfl⟩ ht
  constructor
  · intro h
    obtain ⟨p, hdat, hmul, -⟩ := h _ (hreach .v2 (.submit readScr [] :: calls 0 15) _ rfl)
      [] _ List.prefix_rfl 0 readScr _ _ rfl _ rfl hscr
    cases hdat
    cases hmul
  · intro h
    obtain ⟨p, hdat, -, htold⟩ := h _ (hreach .v1 (.submit writeShort [] :: calls 0 9 ++
        [.cmdDone ⟨0x900#32, 0#32, 0#32, 0#32⟩] ++ calls 0 14) _ rfl)
      [.blockCount 0 _, .counted 0] _ List.prefix_rfl 0 writeShort _ _ rfl _ rfl hshort
    cases hdat
    cases htold _ List.mem_cons_self

end Phytium.Sdif
