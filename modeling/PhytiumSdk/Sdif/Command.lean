import Mathlib.Data.List.Basic
import Mathlib.Tactic.Common

/-!
# SDIF commands

What a client submits, the command and data packages the two drivers build from
it, and the tables `phytium_sdif_v2_wrapper.c` looks the response types up in.
`phytium_sdif.c` hands a `FSdifCmdData` and a `FSdifData` to its controller
library, `phytium_sdif_v2.c` a `FSdifMsgCommand` and a `FSdifMsgData`; one record
each serves for both here, and a field that only one driver has says so.

The libraries and their headers are not part of the sources: the bits of a raw
command are fields of `CmdMasks`.
-/

namespace Phytium.Sdif

/-- `phytium_sdif.c` and `phytium_sdif_v2.c`. -/
inductive Version where
  | v1
  | v2
deriving DecidableEq, Repr

/-- `hc.config.trans_mode`; the second driver has DMA only. -/
inductive TransMode where
  | pio
  | idma
deriving DecidableEq, Repr

/-- The `MMC_ERR_*` codes. -/
inductive MmcErr where
  | none
  | timeout
  | badCrc
  | fifo
  | failed
  | invalid
  | noMemory
deriving DecidableEq, Repr

/-- The errors a request call returns. -/
inductive Errno where
  | ebusy
  | eio
  | enxio
  | ecanceled
deriving DecidableEq, Repr

/-- The four response words. -/
structure Resp where
  r0 : BitVec 32
  r1 : BitVec 32
  r2 : BitVec 32
  r3 : BitVec 32
deriving DecidableEq, Repr

/-- `MMC_SECTOR_SIZE`. -/
abbrev mmcSectorSize : ℕ := 512

/-- `FSDIF_BLOCK_SIZE`. -/
abbrev fsdifBlockSize : ℕ := 512

/-- `IDMAC_MAX_SIZE`. -/
abbrev idmacMaxSize : ℕ := 2048

/-- `IDMAC_DESC_SEGS`. -/
abbrev idmacDescSegs : ℕ := 1024

/-- `SDIF_MAX_DATA`, in sectors. -/
def sdifMaxData : Version → ℕ
  | .v1 => idmacMaxSize * (idmacDescSegs - 2) / mmcSectorSize
  | .v2 => idmacMaxSize * idmacDescSegs / mmcSectorSize

/-- `struct mmc_data`: the buffer, and two bits of its flags. -/
structure MmcData where
  data : ℕ
  len : ℕ
  /-- `MMC_DATA_WRITE` -/
  write : Bool
  /-- `MMC_DATA_READ` -/
  read : Bool
deriving DecidableEq, Repr

/-- `struct mmc_command`, with the bits of its flags that are looked at. -/
structure MmcCommand where
  opcode : BitVec 32
  arg : BitVec 32
  /-- `MMC_RSP_PRESENT` -/
  rspPresent : Bool
  /-- `MMC_RSP_136` -/
  rsp136 : Bool
  /-- `MMC_RSP_CRC` -/
  rspCrc : Bool
  data : Option MmcData
  resp : Resp
  error : MmcErr
deriving DecidableEq, Repr

/-! ## Opcodes -/

def mmcReadMultipleBlock : BitVec 32 := 18#32

def mmcWriteMultipleBlock : BitVec 32 := 25#32

def mmcSetBlockCount : BitVec 32 := 23#32

def mmcGoInactiveState : BitVec 32 := 15#32

def fsdifSwitchVoltage : BitVec 32 := 11#32

def acmdSdSendOpCond : BitVec 32 := 41#32

def mmcAppCmd : BitVec 32 := 55#32

def sdSendIfCond : BitVec 32 := 8#32

def mmcBustestR : BitVec 32 := 14#32

def mmcBustestW : BitVec 32 := 19#32

def mmcSetBlocklen : BitVec 32 := 16#32

/-- The opcode reads or writes several blocks. -/
def multiBlock (opcode : BitVec 32) : Bool :=
  opcode == mmcReadMultipleBlock || opcode == mmcWriteMultipleBlock

/-! ## The response types of `phytium_sdif_v2_wrapper.c` -/

/-- The `FSDIF_MMC_RSP_*` types. -/
inductive RspType where
  | none
  | r1
  | r1b
  | r2
  | r3
  | r6
  | r7
deriving DecidableEq, Repr

/-- The `FSDIF_MMC_RSP_SPI_*` types. -/
inductive SpiRspType where
  | none
  | r1
  | r1b
  | r2
  | r7
deriving DecidableEq, Repr

/-- The `FSDIF_MMC_CMD_*` types. -/
inductive CmdType where
  | ac
  | adtc
  | bc
  | bcr
deriving DecidableEq, Repr

/-- The three parts of the flags word of a command message. -/
structure MsgFlags where
  spi : SpiRspType
  rsp : RspType
  cmd : CmdType
deriving DecidableEq, Repr

/-- `FSDIF_MMC_RSP_PRESENT & flags`. -/
def MsgFlags.rspPresent (f : MsgFlags) : Bool := f.rsp != .none

/-- `FSDIF_MMC_RSP_136 & flags`. -/
def MsgFlags.rsp136 (f : MsgFlags) : Bool := f.rsp == .r2

/-- `FSDIF_MMC_RSP_CRC & flags`. -/
def MsgFlags.rspCrc (f : MsgFlags) : Bool := f.rsp != .none && f.rsp != .r3

/-- `sdif_v2_prepare_sd_command_flags`; `none` is its panic. -/
def prepareSdCommandFlags (opcode argument : BitVec 32) : Option MsgFlags :=
  match opcode.toNat with
  | 0 => some ⟨.r1, .none, .bc⟩
  | 8 => some ⟨.r7, .r7, .bcr⟩
  | 41 => some ⟨.r1, .r3, .bcr⟩
  | 11 => some ⟨.none, .r1, .ac⟩
  | 2 => some ⟨.none, .r2, .ac⟩
  | 3 => some ⟨.none, .r6, .bcr⟩
  | 9 => some ⟨.none, .r2, .ac⟩
  | 7 => if argument = 0#32 then some ⟨.none, .none, .ac⟩ else some ⟨.none, .r1, .ac⟩
  | 55 => if argument = 0#32 then some ⟨.r1, .r1, .ac⟩ else some ⟨.r1, .r1, .bcr⟩
  | 51 => some ⟨.r1, .r1, .adtc⟩
  | 6 => some ⟨.none, .r1, .ac⟩
  | 13 => some ⟨.r2, .r1, .adtc⟩
  | 16 => some ⟨.r1, .r1, .ac⟩
  | 23 => some ⟨.none, .r1, .ac⟩
  | 24 => some ⟨.r1, .r1, .adtc⟩
  | 25 => some ⟨.r1, .r1, .adtc⟩
  | 17 => some ⟨.r1, .r1, .adtc⟩
  | 18 => some ⟨.r1, .r1, .adtc⟩
  | _ => none

/-- `sdif_v2_prepare_mmc_command_flags`; `none` is its panic. -/
def prepareMmcCommandFlags (opcode argument : BitVec 32) : Option MsgFlags :=
  match opcode.toNat with
  | 0 => some ⟨.r1, .none, .bc⟩
  | 1 => some ⟨.r1, .r3, .bcr⟩
  | 2 => some ⟨.none, .r2, .ac⟩
  | 3 => some ⟨.none, .r1, .ac⟩
  | 9 => some ⟨.none, .r2, .ac⟩
  | 7 => if argument = 0#32 then some ⟨.none, .none, .ac⟩ else some ⟨.none, .r1, .ac⟩
  | 8 => some ⟨.r1, .r1, .adtc⟩
  | 6 => some ⟨.r1b, .r1b, .ac⟩
  | 13 => some ⟨.r2, .r1, .ac⟩
  | 16 => some ⟨.r1, .r1, .ac⟩
  | 23 => some ⟨.none, .r1, .ac⟩
  | 24 => some ⟨.r1, .r1, .adtc⟩
  | 25 => some ⟨.r1, .r1, .adtc⟩
  | 17 => some ⟨.r1, .r1, .adtc⟩
  | 18 => some ⟨.r1, .r1, .adtc⟩
  | _ => none

/-- `sdif_v2_prepare_command_flags`. -/
def prepareCommandFlags (nonRemovable : Bool) (opcode argument : BitVec 32) : Option MsgFlags :=
  if nonRemovable then prepareMmcCommandFlags opcode argument
  else prepareSdCommandFlags opcode argument

/-! ## Raw commands -/

/-- The `FSDIF_CMD_*` bits of a raw command, and `FSDIF_CMD_INDX_SET`. -/
structure CmdMasks where
  indxSet : BitVec 32 → BitVec 32
  respExp : BitVec 32
  respLong : BitVec 32
  respCrc : BitVec 32
  datExp : BitVec 32
  datWrite : BitVec 32
  sendStop : BitVec 32
  stopAbort : BitVec 32
  voltSwitch : BitVec 32
  init : BitVec 32
  useHoldReg : BitVec 32
  start : BitVec 32

/-- Bits as the headers could have them. -/
def sampleCmdMasks : CmdMasks where
  indxSet := fun opcode => opcode &&& 0x3F#32
  respExp := 1#32 <<< 6
  respLong := 1#32 <<< 7
  respCrc := 1#32 <<< 8
  datExp := 1#32 <<< 9
  datWrite := 1#32 <<< 10
  sendStop := 1#32 <<< 12
  stopAbort := 1#32 <<< 14
  voltSwitch := 1#32 <<< 28
  init := 1#32 <<< 15
  useHoldReg := 1#32 <<< 29
  start := 1#32 <<< 31

/-- A mask, if the condition holds. -/
def bitIf (b : Bool) (m : BitVec 32) : BitVec 32 := if b then m else 0#32

/-- `sdif_prepare_raw_cmd`, but for the store that clears `card_need_init`. -/
def prepareRawCmd (K : CmdMasks) (autoStop useHold cardNeedInit : Bool) (cmd : MmcCommand) :
    BitVec 32 :=
  K.indxSet cmd.opcode |||
    bitIf (cmd.opcode == mmcGoInactiveState) K.stopAbort |||
    bitIf (cmd.opcode == fsdifSwitchVoltage) K.voltSwitch |||
    bitIf cardNeedInit K.init |||
    bitIf cmd.rspPresent K.respExp |||
    bitIf (cmd.rspPresent && cmd.rsp136) K.respLong |||
    bitIf cmd.rspCrc K.respCrc |||
    bitIf cmd.data.isSome K.datExp |||
    bitIf (cmd.data.any MmcData.write) K.datWrite |||
    bitIf (cmd.data.isSome && autoStop && multiBlock cmd.opcode) K.sendStop |||
    bitIf useHold K.useHoldReg

/-- `sdif_v2_prepare_raw_command`, for the flags of the command. -/
def rawCommandOf (K : CmdMasks) (nonRemovable : Bool) (opcode : BitVec 32) (f : MsgFlags)
    (withData writeData : Bool) : BitVec 32 :=
  K.indxSet opcode |||
    bitIf (opcode == 0#32) K.init |||
    bitIf f.rspPresent K.respExp |||
    bitIf (f.rspPresent && f.rsp136) K.respLong |||
    bitIf (f.rspPresent && f.rspCrc) K.respCrc |||
    bitIf (!nonRemovable && opcode == 11#32) K.voltSwitch |||
    bitIf withData K.datExp |||
    bitIf (withData && writeData) K.datWrite |||
    K.start

/-- `sdif_v2_prepare_raw_command`. -/
def prepareRawCommand (K : CmdMasks) (nonRemovable : Bool) (opcode argument : BitVec 32)
    (withData writeData : Bool) : Option (BitVec 32) :=
  (prepareCommandFlags nonRemovable opcode argument).map fun f =>
    rawCommandOf K nonRemovable opcode f withData writeData

/-! ## Packages -/

/-- `FSdifCmdData`; `FSdifMsgCommand` with the `data` pointer of
`FSdifMsgRequest`. -/
structure CmdPkg where
  cmdidx : BitVec 32
  cmdarg : BitVec 32
  rawcmd : BitVec 32
  /-- v2 only -/
  flags : Option MsgFlags
  /-- the pointer to the data package is not null -/
  dataP : Bool
  response : Resp
deriving DecidableEq

/-- `FSdifData`; `FSdifMsgData`. -/
structure DatPkg where
  buf : ℕ
  blksz : ℕ
  blkcnt : ℕ
  /-- v1 only -/
  datalen : ℕ
  /-- v2 only -/
  cmdarg : BitVec 32
  /-- v2 only -/
  rawcmd : BitVec 32
  /-- v2 only -/
  writeData : Bool
deriving DecidableEq

/-- `memset` of a command package. -/
def CmdPkg.zero : CmdPkg := ⟨0#32, 0#32, 0#32, none, false, ⟨0#32, 0#32, 0#32, 0#32⟩⟩

/-- `memset` of a data package. -/
def DatPkg.zero : DatPkg := ⟨0, 0, 0, 0, 0#32, 0#32, false⟩

/-- The data package of `phytium_sdif_request`. -/
def prepareData (d : MmcData) : DatPkg where
  buf := d.data
  blksz := if d.len < fsdifBlockSize then d.len else fsdifBlockSize
  blkcnt := if d.len / fsdifBlockSize < 1 then 1 else d.len / fsdifBlockSize
  datalen := d.len
  cmdarg := 0#32
  rawcmd := 0#32
  writeData := false

/-- `sdif_v2_prepare_data_transfer`, as `phytium_sdif_v2_request` calls it. -/
def prepareDataTransfer (K : CmdMasks) (nonRemovable : Bool) (cmd : MmcCommand) (d : MmcData) :
    Option DatPkg :=
  (prepareRawCommand K nonRemovable cmd.opcode cmd.arg true d.write).map fun raw =>
    { DatPkg.zero with
      blksz := mmcSectorSize
      blkcnt := d.len / mmcSectorSize
      cmdarg := cmd.arg
      rawcmd := raw
      writeData := d.write }

/-- `sdif_v2_prepare_command_transfer`. -/
def prepareCommandTransfer (K : CmdMasks) (nonRemovable : Bool) (opcode argument : BitVec 32) :
    Option CmdPkg :=
  (prepareCommandFlags nonRemovable opcode argument).map fun f =>
    { CmdPkg.zero with
      cmdidx := opcode
      cmdarg := argument
      rawcmd := rawCommandOf K nonRemovable opcode f false false
      flags := some f }

/-- The argument of `MMC_SET_BLOCK_COUNT`. -/
def blockCountArg (d : MmcData) : BitVec 32 :=
  BitVec.ofNat 32 (d.len / mmcSectorSize) &&& 0xFFFF#32

/-- The package of `sdif_set_block_count`. -/
def setBlockCountPkg (K : CmdMasks) (nonRemovable useHold : Bool) (d : MmcData) : CmdPkg :=
  { CmdPkg.zero with
    cmdidx := mmcSetBlockCount
    cmdarg := blockCountArg d ||| bitIf nonRemovable (1#32 <<< 31)
    rawcmd :=
      K.respExp ||| K.respCrc ||| K.indxSet mmcSetBlockCount ||| bitIf useHold K.useHoldReg }

/-- Every command that `sdif_v2_set_block_count` prepares is in the tables. -/
theorem prepareCommandFlags_setBlockCount (nonRemovable : Bool) (argument : BitVec 32) :
    prepareCommandFlags nonRemovable mmcSetBlockCount argument = some ⟨.none, .r1, .ac⟩ := by
  cases nonRemovable <;> rfl

end Phytium.Sdif
