import PhytiumSdk.Lib.Mask
import PhytiumSdk.Sdif.Request

/-!
# SDIF command words

What each bit of a raw command says, in the word of `sdif_prepare_raw_cmd` and
in those of `sdif_v2_prepare_raw_command`, and when the two drivers say the same
about one request. The first driver takes the response type from the flags of
the request, the second one from its tables, where an opcode has one entry even
if it is two commands: 6 is `ACMD6` and `SWITCH_FUNC`, 13 is `SD_STATUS` and
`SEND_STATUS`.
-/

namespace Phytium.Sdif

open Lib.Mask

/-! ## Bits -/

/-- The names of the `FSDIF_CMD_*` bits. -/
inductive CmdBit where
  | respExp
  | respLong
  | respCrc
  | datExp
  | datWrite
  | sendStop
  | stopAbort
  | voltSwitch
  | init
  | useHoldReg
  | start
deriving DecidableEq, Repr

namespace CmdMasks

def bit (K : CmdMasks) : CmdBit → BitVec 32
  | .respExp => K.respExp
  | .respLong => K.respLong
  | .respCrc => K.respCrc
  | .datExp => K.datExp
  | .datWrite => K.datWrite
  | .sendStop => K.sendStop
  | .stopAbort => K.stopAbort
  | .voltSwitch => K.voltSwitch
  | .init => K.init
  | .useHoldReg => K.useHoldReg
  | .start => K.start

/-- What the drivers rely on: the bits are there, no two of them overlap, and
the index of a command leaves them alone. -/
structure Distinct (K : CmdMasks) : Prop where
  nonzero : ∀ b, K.bit b ≠ 0#32
  apart : ∀ a b, a ≠ b → K.bit a &&& K.bit b = 0#32
  index : ∀ opcode b, K.indxSet opcode &&& K.bit b = 0#32

variable {K : CmdMasks}

theorem Distinct.has_bit (h : K.Distinct) (a b : CmdBit) :
    has (K.bit a) (K.bit b) = decide (a = b) := by
  by_cases hab : a = b
  · subst hab
    simpa using has_self (h.nonzero a)
  · simpa [hab] using has_of_disjoint (h.apart a b hab)

theorem Distinct.has_indxSet (h : K.Distinct) (opcode : BitVec 32) (b : CmdBit) :
    has (K.indxSet opcode) (K.bit b) = false :=
  has_of_disjoint (h.index opcode b)

end CmdMasks

theorem sampleCmdMasks_distinct : sampleCmdMasks.Distinct := by
  refine ⟨?_, ?_, ?_⟩
  · intro b
    cases b <;> decide
  · intro a b hab
    cases a <;> cases b <;> first | exact absurd rfl hab | rfl
  · intro opcode b
    have hindex : 0x3F#32 &&& sampleCmdMasks.bit b = 0#32 := by
      cases b <;> rfl
    change (opcode &&& 0x3F#32) &&& sampleCmdMasks.bit b = 0#32
    rw [BitVec.and_assoc, hindex]
    exact BitVec.and_zero

@[simp] theorem has_bitIf {c : Bool} {m b : BitVec 32} :
    has (bitIf c m) b = (c && has m b) := by
  cases c
  · simp [bitIf, has]
  · rfl

variable {K : CmdMasks}

/-! ## The words, bit by bit -/

/-- The bits of `sdif_prepare_raw_cmd`. -/
def rawCmdHas (autoStop useHold cardNeedInit : Bool) (cmd : MmcCommand) : CmdBit → Bool
  | .respExp => cmd.rspPresent
  | .respLong => cmd.rspPresent && cmd.rsp136
  | .respCrc => cmd.rspCrc
  | .datExp => cmd.data.isSome
  | .datWrite => cmd.data.any MmcData.write
  | .sendStop => cmd.data.isSome && autoStop && multiBlock cmd.opcode
  | .stopAbort => cmd.opcode == mmcGoInactiveState
  | .voltSwitch => cmd.opcode == fsdifSwitchVoltage
  | .init => cardNeedInit
  | .useHoldReg => useHold
  | .start => false

/-- The bits of `sdif_v2_prepare_raw_command`. -/
def rawCommandHas (nonRemovable : Bool) (opcode : BitVec 32) (f : MsgFlags)
    (withData writeData : Bool) : CmdBit → Bool
  | .respExp => f.rspPresent
  | .respLong => f.rspPresent && f.rsp136
  | .respCrc => f.rspPresent && f.rspCrc
  | .datExp => withData
  | .datWrite => withData && writeData
  | .sendStop => false
  | .stopAbort => false
  | .voltSwitch => !nonRemovable && opcode == 11#32
  | .init => opcode == 0#32
  | .useHoldReg => false
  | .start => true

theorem has_prepareRawCmd (hK : K.Distinct) (autoStop useHold cardNeedInit : Bool)
    (cmd : MmcCommand) (b : CmdBit) :
    has (prepareRawCmd K autoStop useHold cardNeedInit cmd) (K.bit b) =
      rawCmdHas autoStop useHold cardNeedInit cmd b := by
  have hword : prepareRawCmd K autoStop useHold cardNeedInit cmd =
      K.indxSet cmd.opcode |||
        bitIf (cmd.opcode == mmcGoInactiveState) (K.bit .stopAbort) |||
        bitIf (cmd.opcode == fsdifSwitchVoltage) (K.bit .voltSwitch) |||
        bitIf cardNeedInit (K.bit .init) |||
        bitIf cmd.rspPresent (K.bit .respExp) |||
        bitIf (cmd.rspPresent && cmd.rsp136) (K.bit .respLong) |||
        bitIf cmd.rspCrc (K.bit .respCrc) |||
        bitIf cmd.data.isSome (K.bit .datExp) |||
        bitIf (cmd.data.any MmcData.write) (K.bit .datWrite) |||
        bitIf (cmd.data.isSome && autoStop && multiBlock cmd.opcode) (K.bit .sendStop) |||
        bitIf useHold (K.bit .useHoldReg) := rfl
  rw [hword]
  simp only [has_or, has_bitIf, hK.has_indxSet, hK.has_bit]
  cases b <;> simp [rawCmdHas]

theorem has_rawCommandOf (hK : K.Distinct) (nonRemovable : Bool) (opcode : BitVec 32)
    (f : MsgFlags) (withData writeData : Bool) (b : CmdBit) :
    has (rawCommandOf K nonRemovable opcode f withData writeData) (K.bit b) =
      rawCommandHas nonRemovable opcode f withData writeData b := by
  have hword : rawCommandOf K nonRemovable opcode f withData writeData =
      K.indxSet opcode |||
        bitIf (opcode == 0#32) (K.bit .init) |||
        bitIf f.rspPresent (K.bit .respExp) |||
        bitIf (f.rspPresent && f.rsp136) (K.bit .respLong) |||
        bitIf (f.rspPresent && f.rspCrc) (K.bit .respCrc) |||
        bitIf (!nonRemovable && opcode == 11#32) (K.bit .voltSwitch) |||
        bitIf withData (K.bit .datExp) |||
        bitIf (withData && writeData) (K.bit .datWrite) |||
        K.bit .start := rfl
  rw [hword]
  simp only [has_or, has_bitIf, hK.has_indxSet, hK.has_bit]
  cases b <;> simp [rawCommandHas]

/-! ## What the tables take a request for -/

/-- The response type, by opcode: whether there is a response, whether it is
long, and whether it has a CRC. -/
def tableRsp (nonRemovable : Bool) (opcode argument : BitVec 32) : Bool × Bool × Bool :=
  if opcode = 0#32 ∨ opcode = 7#32 ∧ argument = 0#32 then (false, false, false)
  else if opcode = 2#32 ∨ opcode = 9#32 then (true, true, true)
  else if opcode = (if nonRemovable then 1#32 else 41#32) then (true, false, false)
  else (true, false, true)

/-- The opcodes that transfer data, as the tables have it. -/
def tableData (nonRemovable : Bool) (opcode : BitVec 32) : Bool :=
  opcode == 17#32 || opcode == 18#32 || opcode == 24#32 || opcode == 25#32 ||
    if nonRemovable then opcode == 8#32 else opcode == 13#32 || opcode == 51#32

/-- The request is what the tables take its opcode for. -/
def TableFits (nonRemovable : Bool) (cmd : MmcCommand) : Prop :=
  (cmd.rspPresent, cmd.rspPresent && cmd.rsp136, cmd.rspCrc) =
      tableRsp nonRemovable cmd.opcode cmd.arg ∧
    cmd.data.isSome = tableData nonRemovable cmd.opcode

/-- What the flags in a table say. -/
def MsgFlags.summary (f : MsgFlags) : (Bool × Bool × Bool) × Bool :=
  ((f.rspPresent, f.rspPresent && f.rsp136, f.rspPresent && f.rspCrc), f.cmd == .adtc)

theorem prepareSdCommandFlags_summary {opcode argument : BitVec 32} {f : MsgFlags}
    (h : prepareSdCommandFlags opcode argument = some f) :
    f.summary = (tableRsp false opcode argument, tableData false opcode) := by
  have hop : opcode = BitVec.ofNat 32 opcode.toNat := (BitVec.ofNat_toNat 32 opcode).symm
  unfold prepareSdCommandFlags at h
  split at h <;> rename_i hnat <;> try rw [hnat] at hop; subst hop
  case h_19 => cases h
  case h_8 | h_9 =>
      split at h <;> rename_i harg <;> cases h <;>
        simp [MsgFlags.summary, tableRsp, tableData, MsgFlags.rspPresent, MsgFlags.rsp136,
          MsgFlags.rspCrc, harg]
  all_goals
    cases h
    simp [MsgFlags.summary, tableRsp, tableData, MsgFlags.rspPresent, MsgFlags.rsp136,
      MsgFlags.rspCrc]

theorem prepareMmcCommandFlags_summary {opcode argument : BitVec 32} {f : MsgFlags}
    (h : prepareMmcCommandFlags opcode argument = some f) :
    f.summary = (tableRsp true opcode argument, tableData true opcode) := by
  have hop : opcode = BitVec.ofNat 32 opcode.toNat := (BitVec.ofNat_toNat 32 opcode).symm
  unfold prepareMmcCommandFlags at h
  split at h <;> rename_i hnat <;> try rw [hnat] at hop; subst hop
  case h_16 => cases h
  case h_6 =>
      split at h <;> rename_i harg <;> cases h <;>
        simp [MsgFlags.summary, tableRsp, tableData, MsgFlags.rspPresent, MsgFlags.rsp136,
          MsgFlags.rspCrc, harg]
  all_goals
    cases h
    simp [MsgFlags.summary, tableRsp, tableData, MsgFlags.rspPresent, MsgFlags.rsp136,
      MsgFlags.rspCrc]

/-- **The tables in one line**: response type and data, by opcode. -/
theorem prepareCommandFlags_summary {nonRemovable : Bool} {opcode argument : BitVec 32}
    {f : MsgFlags} (h : prepareCommandFlags nonRemovable opcode argument = some f) :
    f.summary = (tableRsp nonRemovable opcode argument, tableData nonRemovable opcode) := by
  unfold prepareCommandFlags at h
  cases nonRemovable with
  | false => exact prepareSdCommandFlags_summary h
  | true => exact prepareMmcCommandFlags_summary h

/-! ## The two drivers on one request -/

/-- The messages of the second driver say of the request what the word of the
first one says. -/
structure WordsAgree (K : CmdMasks) (cmd : MmcCommand) (word : BitVec 32) (pkg : CmdPkg)
    (dat : Option DatPkg) : Prop where
  respExp : has pkg.rawcmd K.respExp = has word K.respExp
  respLong : has pkg.rawcmd K.respLong = has word K.respLong
  respCrc : has pkg.rawcmd K.respCrc = has word K.respCrc
  datExp : ∀ p, dat = some p → has p.rawcmd K.datExp = has word K.datExp
  datWrite : ∀ p, dat = some p → has p.rawcmd K.datWrite = has word K.datWrite
  adtc : pkg.flags.map MsgFlags.cmd = some .adtc ↔ cmd.data.isSome

/-- The data message always says what the first driver says. -/
theorem prepareDataTransfer_bits {cmd : MmcCommand} {d : MmcData} {nonRemovable : Bool}
    {dat : DatPkg} (hK : K.Distinct) (hd : cmd.data = some d)
    (h : prepareDataTransfer K nonRemovable cmd d = some dat) (autoStop useHold init : Bool) :
    has dat.rawcmd K.datExp = has (prepareRawCmd K autoStop useHold init cmd) K.datExp ∧
    has dat.rawcmd K.datWrite = has (prepareRawCmd K autoStop useHold init cmd) K.datWrite := by
  obtain ⟨raw, hraw, rfl⟩ := Option.map_eq_some_iff.mp h
  obtain ⟨f, -, rfl⟩ := Option.map_eq_some_iff.mp hraw
  have hv1 := has_prepareRawCmd hK autoStop useHold init cmd
  have hv2 := has_rawCommandOf hK nonRemovable cmd.opcode f true d.write
  constructor
  · exact (hv2 .datExp).trans
      ((hv1 .datExp).trans (by simp [rawCmdHas, rawCommandHas, hd])).symm
  · exact (hv2 .datWrite).trans
      ((hv1 .datWrite).trans (by simp [rawCmdHas, rawCommandHas, hd])).symm

/-- **The drivers agree on a request just when it is what the tables take its
opcode for.** -/
theorem words_agree_iff (hK : K.Distinct) (nonRemovable : Bool) (cmd : MmcCommand)
    {pkg : CmdPkg} {dat : Option DatPkg}
    (hpkg : prepareCommandTransfer K nonRemovable cmd.opcode cmd.arg = some pkg)
    (hdat : cmd.data.bind (prepareDataTransfer K nonRemovable cmd) = dat)
    (autoStop useHold init : Bool) :
    WordsAgree K cmd (prepareRawCmd K autoStop useHold init cmd) pkg dat ↔
      TableFits nonRemovable cmd := by
  obtain ⟨f, hf, rfl⟩ := Option.map_eq_some_iff.mp hpkg
  have hsum := prepareCommandFlags_summary hf
  rw [MsgFlags.summary, Prod.mk.injEq] at hsum
  obtain ⟨hrsp, hadtc⟩ := hsum
  have hv1 := has_prepareRawCmd hK autoStop useHold init cmd
  have hv2 := has_rawCommandOf hK nonRemovable cmd.opcode f false false
  have htype : (some f).map MsgFlags.cmd = some .adtc ↔
      tableData nonRemovable cmd.opcode = true := by
    simp [← hadtc]
  unfold TableFits
  rw [← hrsp, Prod.mk.injEq, Prod.mk.injEq]
  constructor
  · intro h
    refine ⟨⟨?_, ?_, ?_⟩, ?_⟩
    · exact (hv1 .respExp).symm.trans (h.respExp.symm.trans (hv2 .respExp))
    · exact (hv1 .respLong).symm.trans (h.respLong.symm.trans (hv2 .respLong))
    · exact (hv1 .respCrc).symm.trans (h.respCrc.symm.trans (hv2 .respCrc))
    · exact Bool.eq_iff_iff.mpr (h.adtc.symm.trans htype)
  · rintro ⟨⟨hexp, hlong, hcrc⟩, hdata⟩
    have hbits : ∀ p, dat = some p → ∃ d, cmd.data = some d ∧
        prepareDataTransfer K nonRemovable cmd d = some p := by
      intro p hp
      exact Option.bind_eq_some_iff.mp (hdat.trans hp)
    refine ⟨?_, ?_, ?_, ?_, ?_, ?_⟩
    · exact (hv2 .respExp).trans (hexp.symm.trans (hv1 .respExp).symm)
    · exact (hv2 .respLong).trans (hlong.symm.trans (hv1 .respLong).symm)
    · exact (hv2 .respCrc).trans (hcrc.symm.trans (hv1 .respCrc).symm)
    · intro p hp
      obtain ⟨d, hd, hmsg⟩ := hbits p hp
      exact (prepareDataTransfer_bits hK hd hmsg autoStop useHold init).1
    · intro p hp
      obtain ⟨d, hd, hmsg⟩ := hbits p hp
      exact (prepareDataTransfer_bits hK hd hmsg autoStop useHold init).2
    · exact htype.trans (Bool.eq_iff_iff.mp hdata.symm)

/-- `READ_SINGLE_BLOCK` with a sector to read. -/
def readSectorCmd : MmcCommand where
  opcode := 17#32
  arg := 0#32
  rspPresent := true
  rsp136 := false
  rspCrc := true
  data := some ⟨0x2000, 512, false, true⟩
  resp := ⟨0#32, 0#32, 0#32, 0#32⟩
  error := .none

theorem words_agree_reading_a_sector : ∃ pkg dat,
    prepareCommandTransfer sampleCmdMasks false 17#32 0#32 = some pkg ∧
    WordsAgree sampleCmdMasks readSectorCmd
      (prepareRawCmd sampleCmdMasks false false false readSectorCmd) pkg dat :=
  ⟨_, _, rfl, (words_agree_iff sampleCmdMasks_distinct false readSectorCmd
    rfl rfl false false false).mpr ⟨rfl, rfl⟩⟩

/-- `SEND_STATUS`, to the card with the relative address 1. -/
def sendCardStatus : MmcCommand :=
  { readSectorCmd with opcode := 13#32, arg := 0x10000#32, data := none }

/-- `SEND_STATUS` has no data, and its message says it has. -/
theorem send_status_typed_as_transfer :
    skipped (sampleSdif .v2) sendCardStatus = false ∧
    ∃ pkg, prepareCommandTransfer sampleCmdMasks false sendCardStatus.opcode sendCardStatus.arg =
        some pkg ∧
      ∀ dat, ¬ WordsAgree sampleCmdMasks sendCardStatus
        (prepareRawCmd sampleCmdMasks false false false sendCardStatus) pkg dat := by
  refine ⟨rfl, _, rfl, ?_⟩
  intro dat h
  exact absurd (h.adtc.mp rfl) Bool.false_ne_true

end Phytium.Sdif
