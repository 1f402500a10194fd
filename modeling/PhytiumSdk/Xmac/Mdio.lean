import PhytiumSdk.Lib.Field
import PhytiumSdk.Lib.Potential
import Mathlib.Algebra.BigOperators.Ring.List

/-!
# The PHY's registers

`phytium_xmac_miibus_readreg` and `phytium_xmac_miibus_writereg` store a
management frame in `FXMAC_PHYMNTNC` and poll `FXMAC_NWSR` until the management
controller is idle again, or 201 times in vain. A call that gives up returns -1,
but its frame is on its way all the same.

The controller carries a frame out some time after it was stored. The PHY may
change its registers at any time.
-/

namespace Phytium.Xmac

open Lib Lib.Mask

/-! ## Management frames -/

/-- The mask has no bit in the fields of a frame. -/
def FrameClear (phadShft pregShft : ℕ) (m : BitVec 32) : Prop :=
  m.extractLsb' 0 16 = 0#16 ∧ m.extractLsb' pregShft 5 = 0#5 ∧ m.extractLsb' phadShft 5 = 0#5

/-- The `FXMAC_PHYMNTNC_*` masks and shifts. -/
structure MdioMasks where
  opMask : BitVec 32
  opR : BitVec 32
  opW : BitVec 32
  phadShft : ℕ
  pregShft : ℕ
  preg_ge : 16 ≤ pregShft
  phad_ge : pregShft + 5 ≤ phadShft
  phad_le : phadShft + 5 ≤ 32
  opMask_clear : FrameClear phadShft pregShft opMask
  opR_clear : FrameClear phadShft pregShft opR
  opW_clear : FrameClear phadShft pregShft opW
  opR_ne : opR ≠ 0#32
  opMask_opR : opMask &&& opR = 0#32
  opW_opR : opW &&& opR = 0#32

def sampleMdioMasks : MdioMasks where
  opMask := 0x40020000#32
  opR := 0x20000000#32
  opW := 0x10000000#32
  phadShft := 23
  pregShft := 18
  preg_ge := by decide
  phad_ge := by decide
  phad_le := by decide
  opMask_clear := ⟨rfl, rfl, rfl⟩
  opR_clear := ⟨rfl, rfl, rfl⟩
  opW_clear := ⟨rfl, rfl, rfl⟩
  opR_ne := by decide
  opMask_opR := rfl
  opW_opR := rfl

/-- A call of one of the two functions; `int` arguments. -/
inductive MdioCall where
  | readreg (phy reg : BitVec 32)
  | writereg (phy reg data : BitVec 32)
deriving DecidableEq

/-- What a frame tells the controller to do. -/
inductive MdioOp where
  | read (phy reg : BitVec 5)
  | write (phy reg : BitVec 5) (data : BitVec 16)
deriving DecidableEq

variable (M : MdioMasks)

/-- `mgtcr`. -/
def mgtcr : MdioCall → BitVec 32
  | .readreg phy reg => M.opMask ||| M.opR ||| phy <<< M.phadShft ||| reg <<< M.pregShft
  | .writereg phy reg data =>
      M.opMask ||| M.opW ||| phy <<< M.phadShft ||| reg <<< M.pregShft ||| data

/-- The controller takes a frame apart. -/
def frameOp (f : BitVec 32) : MdioOp :=
  let phy := f.extractLsb' M.phadShft 5
  let reg := f.extractLsb' M.pregShft 5
  if has f M.opR then .read phy reg else .write phy reg (f.extractLsb' 0 16)

/-- What a call is for. -/
def MdioCall.op : MdioCall → MdioOp
  | .readreg phy reg => .read (phy.setWidth 5) (reg.setWidth 5)
  | .writereg phy reg data => .write (phy.setWidth 5) (reg.setWidth 5) (data.setWidth 16)

/-- The arguments fit in their fields; the functions do not mask them. -/
def MdioCall.fits : MdioCall → Prop
  | .readreg phy reg => phy.toNat < 2 ^ 5 ∧ reg.toNat < 2 ^ 5
  | .writereg phy reg data => phy.toNat < 2 ^ 5 ∧ reg.toNat < 2 ^ 5 ∧ data.toNat < 2 ^ 16

instance (c : MdioCall) : Decidable c.fits := by
  cases c <;>
    · unfold MdioCall.fits
      infer_instance

variable {M}

/-- The two addresses are read back from any frame that has them. -/
theorem extract_addresses {m reg data : BitVec 32} (phy : BitVec 32)
    (hm : FrameClear M.phadShft M.pregShft m)
    (hreg : reg.toNat < 2 ^ 5) (hdata : data.toNat < 2 ^ 16) :
    (m ||| phy <<< M.phadShft ||| reg <<< M.pregShft ||| data).extractLsb' M.phadShft 5 =
        phy.setWidth 5 ∧
      (m ||| phy <<< M.phadShft ||| reg <<< M.pregShft ||| data).extractLsb' M.pregShft 5 =
        reg.setWidth 5 := by
  have hpreg := M.preg_ge
  have hphad := M.phad_ge
  have hle := M.phad_le
  have hlow : ∀ p, 16 ≤ p → data.extractLsb' p 5 = 0#5 := by
    intro p hp
    have hzero := Field.extract_shiftLeft_below (p := p) (n := 5) (q := 0) hdata (by omega)
    rwa [BitVec.shiftLeft_zero] at hzero
  constructor
  · rw [BitVec.extractLsb'_or, BitVec.extractLsb'_or, BitVec.extractLsb'_or, hm.2.2,
      Field.extract_shiftLeft phy hle, Field.extract_shiftLeft_below hreg hphad,
      hlow _ (by omega), BitVec.zero_or, BitVec.or_zero, BitVec.or_zero]
  · rw [BitVec.extractLsb'_or, BitVec.extractLsb'_or, BitVec.extractLsb'_or, hm.2.1,
      Field.extract_shiftLeft_above phy hphad, Field.extract_shiftLeft reg (by omega),
      hlow _ hpreg, BitVec.or_zero, BitVec.zero_or, BitVec.zero_or]

theorem FrameClear.or {m n : BitVec 32} (hm : FrameClear M.phadShft M.pregShft m)
    (hn : FrameClear M.phadShft M.pregShft n) : FrameClear M.phadShft M.pregShft (m ||| n) := by
  obtain ⟨h1, h2, h3⟩ := hm
  obtain ⟨g1, g2, g3⟩ := hn
  refine ⟨?_, ?_, ?_⟩
  · rw [BitVec.extractLsb'_or, h1, g1, BitVec.or_zero]
  · rw [BitVec.extractLsb'_or, h2, g2, BitVec.or_zero]
  · rw [BitVec.extractLsb'_or, h3, g3, BitVec.or_zero]

/-- **The round trip.** The controller takes from a frame what the call is for. -/
theorem frameOp_mgtcr {c : MdioCall} (hc : c.fits) : frameOp M (mgtcr M c) = c.op := by
  have hphad := M.phad_ge
  have hpreg := M.preg_ge
  cases c with
  | readreg phy reg =>
      obtain ⟨-, hreg⟩ := hc
      have hzero : (0#32).toNat < 2 ^ 16 := by decide
      obtain ⟨h1, h2⟩ := extract_addresses phy (M.opMask_clear.or M.opR_clear) hreg hzero
      rw [BitVec.or_zero] at h1 h2
      have hread : has (mgtcr M (.readreg phy reg)) M.opR = true := by
        simp [mgtcr, has_self M.opR_ne]
      rw [frameOp, if_pos hread]
      simp only [mgtcr, MdioCall.op, h1, h2]
  | writereg phy reg data =>
      obtain ⟨hphy, hreg, hdata⟩ := hc
      obtain ⟨h1, h2⟩ := extract_addresses phy (M.opMask_clear.or M.opW_clear) hreg hdata
      -- no part of the frame has a bit of `opR`
      have hdata' : data &&& M.opR = 0#32 := by
        have hzero := Field.shiftLeft_and_eq_zero (p := 0) hdata M.opR_clear.1
        rwa [BitVec.shiftLeft_zero] at hzero
      have hwrite : has (mgtcr M (.writereg phy reg data)) M.opR = false := by
        rw [has_eq_false_iff, mgtcr]
        simp only [or_and_eq_zero]
        exact ⟨⟨⟨⟨M.opMask_opR, M.opW_opR⟩, Field.shiftLeft_and_eq_zero hphy M.opR_clear.2.2⟩,
          Field.shiftLeft_and_eq_zero hreg M.opR_clear.2.1⟩, hdata'⟩
      have hvalue : (mgtcr M (.writereg phy reg data)).extractLsb' 0 16 = data.setWidth 16 := by
        have hself := Field.extract_shiftLeft (p := 0) (n := 16) data (by decide)
        rw [BitVec.shiftLeft_zero] at hself
        rw [mgtcr, BitVec.extractLsb'_or, BitVec.extractLsb'_or, BitVec.extractLsb'_or,
          (M.opMask_clear.or M.opW_clear).1, Field.extract_shiftLeft_above phy (by omega),
          Field.extract_shiftLeft_above reg (by omega), hself, BitVec.zero_or, BitVec.zero_or,
          BitVec.zero_or]
      rw [frameOp, if_neg (by rw [hwrite]; exact Bool.false_ne_true)]
      simp only [MdioCall.op, hvalue]
      rw [mgtcr, h1, h2]

/-! ## A register file -/

abbrev PhyRegs := BitVec 5 → BitVec 5 → BitVec 16

inductive FileEvent where
  | read (phy reg : BitVec 5) (value : BitVec 16)
  | write (phy reg : BitVec 5) (value : BitVec 16)
  /-- the PHY changes the register -/
  | change (phy reg : BitVec 5) (value : BitVec 16)
deriving DecidableEq

def setReg (regs : PhyRegs) (phy reg : BitVec 5) (value : BitVec 16) : PhyRegs :=
  fun p r => if p = phy ∧ r = reg then value else regs p r

/-- A read finds the value that is there. -/
def fileStep (regs : PhyRegs) : FileEvent → Option PhyRegs
  | .read phy reg value => if regs phy reg = value then some regs else none
  | .write phy reg value => some (setReg regs phy reg value)
  | .change phy reg value => some (setReg regs phy reg value)

def fileSystem (regs : PhyRegs) : System PhyRegs FileEvent where
  init := fun r => r = regs
  step := fileStep

/-- What the management controller has done, if it was its doing. -/
def FileEvent.op : FileEvent → Option MdioOp
  | .read phy reg _ => some (.read phy reg)
  | .write phy reg value => some (.write phy reg value)
  | .change _ _ _ => none

/-! ## The two functions and the controller -/

inductive MdioPc where
  | idle
  | polling (c : MdioCall) (tries : ℕ)
deriving DecidableEq

structure MdioState where
  /-- `FXMAC_PHYMNTNC` -/
  phymntnc : BitVec 32
  /-- the frame that is on its way; `FXMAC_NWSR` says idle when there is none -/
  inFlight : Option (BitVec 32)
  regs : PhyRegs
  pc : MdioPc
  -- history
  begun : List MdioCall
  /-- what has happened to the PHY's registers -/
  effects : List FileEvent
  returned : List (MdioCall × ℤ)

inductive MdioEvent where
  | call (c : MdioCall)
  | poll
  /-- the controller carries out its frame -/
  | carryOut
  | change (phy reg : BitVec 5) (value : BitVec 16)
deriving DecidableEq

namespace MdioState

variable (s : MdioState)

/-- The call returns. -/
def ret (c : MdioCall) (result : ℤ) : MdioState :=
  { s with pc := .idle, returned := s.returned ++ [(c, result)] }

/-- What a call returns that has seen the controller idle. -/
def result : MdioCall → ℤ
  | .readreg _ _ => (s.phymntnc &&& 0xffff#32).toNat
  | .writereg _ _ _ => 0

/-- The effect of a frame. -/
def effect : MdioOp → FileEvent
  | .read phy reg => .read phy reg (s.regs phy reg)
  | .write phy reg data => .write phy reg data

end MdioState

/-- What a frame does to the registers. -/
def carryOp (regs : PhyRegs) : MdioOp → PhyRegs
  | .read _ _ => regs
  | .write phy reg data => setReg regs phy reg data

/-- What the controller leaves in `FXMAC_PHYMNTNC`. -/
def shifted (f : BitVec 32) : FileEvent → BitVec 32
  | .read _ _ value => f &&& ~~~0xffff#32 ||| value.setWidth 32
  | _ => f

variable (M)

/-- `phytium_xmac_miibus_readreg` and `phytium_xmac_miibus_writereg`, and the
controller. -/
def mdioStep (s : MdioState) : MdioEvent → Option MdioState
  | .call c =>
      if s.pc = .idle then
        some { s with
          phymntnc := mgtcr M c
          inFlight := some (mgtcr M c)
          pc := .polling c 0
          begun := s.begun ++ [c] }
      else none
  | .poll =>
      match s.pc with
      | .idle => none
      | .polling c tries =>
          if s.inFlight = none then some (s.ret c (s.result c))
          else if 200 < tries + 1 then some (s.ret c (-1))
          else some { s with pc := .polling c (tries + 1) }
  | .carryOut =>
      s.inFlight.map fun f =>
        let e := s.effect (frameOp M f)
        { s with
          phymntnc := shifted f e
          inFlight := none
          regs := carryOp s.regs (frameOp M f)
          effects := s.effects ++ [e] }
  | .change phy reg value =>
      some { s with
        regs := setReg s.regs phy reg value
        effects := s.effects ++ [.change phy reg value] }

/-- No call yet, and any registers. -/
def mdioIdle (regs : PhyRegs) : MdioState where
  phymntnc := 0#32
  inFlight := none
  regs := regs
  pc := .idle
  begun := []
  effects := []
  returned := []

def mdioSystem (regs : PhyRegs) : System MdioState MdioEvent where
  init := fun s => s = mdioIdle regs
  step := mdioStep M

/-- The MII layer passes arguments that fit, and a call that has timed out is
followed by another only when the controller is done with its frame: what a
frame does that is written in the middle of another is not known. -/
def paced (s : MdioState) : MdioEvent → Prop
  | .call c => c.fits ∧ s.inFlight = none
  | _ => True

instance (s : MdioState) (e : MdioEvent) : Decidable (paced s e) := by
  cases e <;>
    · unfold paced
      infer_instance

/-! ## What a run keeps -/

/-- What the controller has carried out. -/
def MdioState.carried (s : MdioState) : List FileEvent := s.effects.filter fun e => e.op.isSome

/-- What a call returns when the controller has had this effect. -/
def Answers : MdioCall → FileEvent → ℤ → Prop
  | .readreg _ _, .read _ _ value, result => result = value.toNat
  | .writereg _ _ _, .write _ _ _, result => result = 0
  | _, _, _ => False

/-- The calls that have returned. -/
def MdioState.over (s : MdioState) : List MdioCall := s.returned.map Prod.fst

structure MdioInv (regs : PhyRegs) (s : MdioState) : Prop where
  file : (fileSystem regs).run regs s.effects = some s.regs
  order : s.begun.map (fun c => c.op) =
    s.effects.filterMap FileEvent.op ++ (s.inFlight.map (frameOp M)).toList
  idle : s.pc = .idle → s.begun = s.over
  pending : ∀ c tries, s.pc = .polling c tries → tries ≤ 200 ∧ s.begun = s.over ++ [c]
  ready : ∀ c tries, s.pc = .polling c tries → s.inFlight = none →
    ∃ e, s.carried.getLast? = some e ∧ Answers c e (s.result c)
  answers : ∀ (i : ℕ) c r, s.returned[i]? = some (c, r) → r = -1 ∨
    ∃ e, s.carried[i]? = some e ∧ Answers c e r

variable {M} {regs : PhyRegs} {s s' : MdioState}

theorem carried_length (s : MdioState) :
    s.carried.length = (s.effects.filterMap FileEvent.op).length := by
  rw [MdioState.carried]
  induction s.effects with
  | nil => rfl
  | cons e es ih =>
      cases he : e.op with
      | none => rw [List.filter_cons_of_neg (by simp [he]), List.filterMap_cons_none he, ih]
      | some op =>
          rw [List.filter_cons_of_pos (by simp [he]), List.filterMap_cons_some he,
            List.length_cons, List.length_cons, ih]

theorem effect_op (s : MdioState) (op : MdioOp) : (s.effect op).op = some op := by
  cases op <;> rfl

/-- What the controller carries out a register file would do as well. -/
theorem fileStep_effect (s : MdioState) (op : MdioOp) :
    fileStep s.regs (s.effect op) = some (carryOp s.regs op) := by
  cases op with
  | read phy reg => exact if_pos rfl
  | write phy reg data => rfl

/-- The driver finds in `FXMAC_PHYMNTNC` what was read. -/
theorem shifted_and (f : BitVec 32) (phy reg : BitVec 5) (value : BitVec 16) :
    (shifted f (.read phy reg value) &&& 0xffff#32).toNat = value.toNat := by
  have hpart : value.setWidth 32 &&& 0xffff#32 = value.setWidth 32 := by
    ext i hi
    simp only [BitVec.getElem_and, BitVec.getElem_setWidth]
    by_cases h : i < 16
    · have hone : (0xffff#32)[i] = true := by
        have hall : ∀ j : Fin 16, (0xffff#32).getLsbD j = true := by decide
        exact hall ⟨i, h⟩
      rw [hone, Bool.and_true]
    · rw [BitVec.getLsbD_of_ge value i (Nat.le_of_not_lt h), Bool.false_and]
  rw [shifted, BitVec.and_or_distrib_right, clear_and_self, BitVec.zero_or, hpart,
    BitVec.toNat_setWidth, Nat.mod_eq_of_lt (lt_of_lt_of_le value.isLt (by decide))]

/-- An effect answers the call whose frame it is of. -/
theorem answers_effect {c : MdioCall} {f : BitVec 32} {t : MdioState}
    (hop : frameOp M f = c.op) (ht : t.phymntnc = shifted f (s.effect (frameOp M f))) :
    Answers c (s.effect (frameOp M f)) (t.result c) := by
  rw [hop] at ht ⊢
  cases c with
  | readreg phy reg =>
      show ((t.phymntnc &&& 0xffff#32).toNat : ℤ) = ((s.regs _ _).toNat : ℤ)
      rw [ht]
      exact congrArg Int.ofNat (shifted_and ..)
  | writereg phy reg data => rfl

theorem MdioInv.answers_append (h : MdioInv M regs s) {es : List FileEvent} {i : ℕ}
    {c : MdioCall} {r : ℤ} (hr : s.returned[i]? = some (c, r)) :
    r = -1 ∨ ∃ e, (s.carried ++ es)[i]? = some e ∧ Answers c e r := by
  refine (h.answers i c r hr).imp_right ?_
  rintro ⟨e, he, ha⟩
  obtain ⟨hlt, -⟩ := List.getElem?_eq_some_iff.mp he
  exact ⟨e, by rwa [List.getElem?_append_left hlt], ha⟩

/-- A call stores its frame, and nothing is on its way. -/
theorem MdioInv.call {c : MdioCall} (h : MdioInv M regs s) (hc : c.fits)
    (hnone : s.inFlight = none) (hs : mdioStep M s (.call c) = some s') : MdioInv M regs s' := by
  obtain ⟨hidle, ht⟩ := Option.ite_none_right_eq_some.mp hs
  cases ht
  have hover := h.idle hidle
  refine ⟨h.file, ?_, fun hn => MdioPc.noConfusion hn, ?_, ?_, h.answers⟩
  · have horder := h.order
    rw [hnone] at horder
    rw [List.map_append, horder, List.map_singleton]
    simp [frameOp_mgtcr hc]
  · intro d tries hd
    cases hd
    exact ⟨Nat.zero_le _, congrArg (· ++ [c]) hover⟩
  · intro d tries hd hn
    cases hn

/-- A call returns. -/
theorem MdioInv.ret {c : MdioCall} {tries : ℕ} {r : ℤ} (h : MdioInv M regs s)
    (hpc : s.pc = .polling c tries)
    (hr : r = -1 ∨ ∃ e, s.carried[s.returned.length]? = some e ∧ Answers c e r) :
    MdioInv M regs (s.ret c r) := by
  obtain ⟨-, hbegun⟩ := h.pending c tries hpc
  refine ⟨h.file, h.order, ?_, fun _ _ hn => MdioPc.noConfusion hn,
    fun _ _ hn => MdioPc.noConfusion hn, ?_⟩
  · intro _
    show s.begun = (s.returned ++ [(c, r)]).map Prod.fst
    rw [hbegun, List.map_append]
    rfl
  · intro i d q hi
    replace hi : (s.returned ++ [(c, r)])[i]? = some (d, q) := hi
    rcases Nat.lt_or_ge i s.returned.length with hlt | hge
    · rw [List.getElem?_append_left hlt] at hi
      exact h.answers i d q hi
    · rw [List.getElem?_append_right hge, List.getElem?_singleton] at hi
      obtain ⟨hz, he⟩ := Option.ite_none_right_eq_some.mp hi
      cases he
      have hlen : i = s.returned.length := Nat.le_antisymm (Nat.sub_eq_zero_iff_le.mp hz) hge
      rw [hlen]
      exact hr

/-- The effect the call waits for is the last one. -/
theorem MdioInv.ready_at (h : MdioInv M regs s) {c : MdioCall} {tries : ℕ}
    (hpc : s.pc = .polling c tries) (hnone : s.inFlight = none) :
    ∃ e, s.carried[s.returned.length]? = some e ∧ Answers c e (s.result c) := by
  obtain ⟨e, he, ha⟩ := h.ready c tries hpc hnone
  obtain ⟨-, hbegun⟩ := h.pending c tries hpc
  have horder := congrArg List.length h.order
  rw [hnone, List.length_append, ← carried_length, List.length_map, hbegun] at horder
  have hlen : s.carried.length = s.returned.length + 1 := by
    simpa [MdioState.over] using horder.symm
  refine ⟨e, ?_, ha⟩
  rw [List.getLast?_eq_getElem?, hlen] at he
  exact he

theorem MdioInv.poll (h : MdioInv M regs s) (hs : mdioStep M s .poll = some s') :
    MdioInv M regs s' := by
  cases hpc : s.pc with
  | idle =>
      simp only [mdioStep, hpc] at hs
      cases hs
  | polling c tries =>
      simp only [mdioStep, hpc] at hs
      split at hs
      · rename_i hnone
        cases hs
        exact h.ret hpc (Or.inr (h.ready_at hpc hnone))
      · split at hs
        · cases hs
          exact h.ret hpc (Or.inl rfl)
        · rename_i hbusy hle
          cases hs
          obtain ⟨-, hbegun⟩ := h.pending c tries hpc
          refine ⟨h.file, h.order, fun hn => MdioPc.noConfusion hn, ?_, ?_, h.answers⟩
          · intro d t hd
            cases hd
            exact ⟨Nat.le_of_not_lt hle, hbegun⟩
          · exact fun _ _ _ hn => absurd hn hbusy

/-- The controller carries out its frame: that of the last call. -/
theorem MdioInv.carryOut (h : MdioInv M regs s) (hs : mdioStep M s .carryOut = some s') :
    MdioInv M regs s' := by
  obtain ⟨f, hf, ht⟩ := Option.map_eq_some_iff.mp hs
  have horder := h.order
  rw [hf, Option.map_some, Option.toList_some] at horder
  have hop := effect_op s (frameOp M f)
  have hcarried : s'.carried = s.carried ++ [s.effect (frameOp M f)] := by
    subst ht
    simp [MdioState.carried, List.filter_append, hop]
  subst ht
  refine ⟨?_, ?_, h.idle, h.pending, ?_, ?_⟩
  · rw [System.run_append, h.file]
    exact congrArg (fun o => o.bind some) (fileStep_effect s (frameOp M f))
  · rw [horder, List.filterMap_append]
    simp [hop]
  · intro c tries hpc _
    obtain ⟨-, hbegun⟩ := h.pending c tries hpc
    have hlast : frameOp M f = c.op := by
      rw [hbegun, List.map_append, List.map_singleton] at horder
      exact (List.append_inj_right' horder rfl |> List.singleton_inj.mp).symm
    refine ⟨s.effect (frameOp M f), ?_, answers_effect hlast rfl⟩
    rw [hcarried, List.getLast?_concat]
  · intro i c r hr
    rw [hcarried]
    exact h.answers_append hr

/-- The PHY changes a register. -/
theorem MdioInv.change {phy reg : BitVec 5} {value : BitVec 16} (h : MdioInv M regs s)
    (hs : mdioStep M s (.change phy reg value) = some s') : MdioInv M regs s' := by
  cases hs
  have hcarried : (s.effects ++ [FileEvent.change phy reg value]).filter (fun e => e.op.isSome) =
      s.carried := by
    rw [List.filter_append]
    exact List.append_nil _
  refine ⟨?_, ?_, h.idle, h.pending, ?_, ?_⟩
  · rw [System.run_append, h.file]
    rfl
  · rw [List.filterMap_append]
    exact (congrArg (· ++ _) (List.append_nil _)).symm ▸ h.order
  · intro c tries hpc hnone
    rw [MdioState.carried, hcarried]
    exact h.ready c tries hpc hnone
  · intro i c r hr
    rw [MdioState.carried, hcarried]
    exact h.answers i c r hr

theorem mdio_reachable_inv (h : ((mdioSystem M regs).restrict paced).Reachable s) :
    MdioInv M regs s := by
  apply h.restrict_invariant
  · rintro s rfl
    exact ⟨rfl, rfl, fun _ => rfl, fun _ _ hn => MdioPc.noConfusion hn,
      fun _ _ hn => MdioPc.noConfusion hn, fun _ _ _ hr => by cases hr⟩
  · intro s e s' _ hi hok hs
    cases e with
    | call c => exact hi.call hok.1 hok.2 hs
    | poll => exact hi.poll hs
    | carryOut => exact hi.carryOut hs
    | change phy reg value => exact hi.change hs

/-- **A register file.** Whatever the timing, the controller carries out each call
once and in order, but perhaps the last one not yet; the PHY's registers are
those of a register file to which this happens; and a call that does not return
-1 returns what was read for it then, or 0 for a write. -/
theorem mdio_register_file (h : ((mdioSystem M regs).restrict paced).Reachable s) :
    (fileSystem regs).run regs s.effects = some s.regs ∧
    s.begun.map (fun c => c.op) =
      s.effects.filterMap FileEvent.op ++ (s.inFlight.map (frameOp M)).toList ∧
    ∀ (i : ℕ) c r, s.returned[i]? = some (c, r) → s.begun[i]? = some c ∧
      (r = -1 ∨ ∃ e, s.carried[i]? = some e ∧ Answers c e r) := by
  have hi := mdio_reachable_inv h
  refine ⟨hi.file, hi.order, ?_⟩
  intro i c r hr
  refine ⟨?_, hi.answers i c r hr⟩
  have hover : s.over[i]? = some c := by
    rw [MdioState.over, List.getElem?_map, hr]
    rfl
  cases hpc : s.pc with
  | idle => rwa [hi.idle hpc]
  | polling d tries =>
      obtain ⟨hlt, -⟩ := List.getElem?_eq_some_iff.mp hover
      rwa [(hi.pending d tries hpc).2, List.getElem?_append_left hlt]

/-- A write that times out, takes effect all the same, and is read back. -/
def lateWrite : List MdioEvent :=
  .call (.writereg 1#32 0#32 0x1200#32) :: List.replicate 201 .poll ++
    [.carryOut, .call (.readreg 1#32 0#32), .poll, .carryOut, .poll]

theorem mdio_register_file_late :
    ∃ s, ((mdioSystem sampleMdioMasks fun _ _ => 0#16).restrict paced).run
        (mdioIdle fun _ _ => 0#16) lateWrite = some s ∧
      s.returned = [(.writereg 1#32 0#32 0x1200#32, -1), (.readreg 1#32 0#32, 0x1200)] ∧
      s.effects.filterMap FileEvent.op = [.write 1#5 0#5 0x1200#16, .read 1#5 0#5] := by
  have hrun : (((mdioSystem sampleMdioMasks fun _ _ => 0#16).restrict paced).run
      (mdioIdle fun _ _ => 0#16) lateWrite).map (fun s => (s.returned, s.inFlight, s.begun)) =
      some ([(.writereg 1#32 0#32 0x1200#32, -1), (.readreg 1#32 0#32, 0x1200)], none,
        [.writereg 1#32 0#32 0x1200#32, .readreg 1#32 0#32]) := by
    decide +kernel
  obtain ⟨s, hs, hq⟩ := Option.map_eq_some_iff.mp hrun
  simp only [Prod.mk.injEq] at hq
  obtain ⟨hret, hnone, hbegun⟩ := hq
  obtain ⟨-, horder, -⟩ := mdio_register_file (System.reachable_of_run _ rfl hs)
  rw [hnone, hbegun, Option.map_none, Option.toList_none, List.append_nil] at horder
  exact ⟨s, hs, hret, horder.symm⟩

/-! ## The end of a call -/

def MdioEvent.polls : MdioEvent → ℕ
  | .poll => 1
  | _ => 0

def MdioEvent.calls : MdioEvent → ℕ
  | .call _ => 1
  | _ => 0

/-- Polls left to the call. -/
def MdioState.left (s : MdioState) : ℕ :=
  match s.pc with
  | .idle => 0
  | .polling _ tries => 201 - tries

theorem mdioStep_left {e : MdioEvent} (h : MdioInv M regs s) (hs : mdioStep M s e = some s') :
    s'.left + e.polls ≤ s.left + 201 * e.calls := by
  cases e with
  | call c =>
      obtain ⟨hidle, ht⟩ := Option.ite_none_right_eq_some.mp hs
      cases ht
      simp [MdioState.left, hidle, MdioEvent.polls, MdioEvent.calls]
  | poll =>
      cases hpc : s.pc with
      | idle =>
          simp only [mdioStep, hpc] at hs
          cases hs
      | polling c tries =>
          obtain ⟨hle, -⟩ := h.pending c tries hpc
          simp only [mdioStep, hpc] at hs
          simp only [MdioState.left, hpc, MdioEvent.polls, MdioEvent.calls]
          split at hs
          · cases hs
            simp only [MdioState.ret]
            omega
          · split at hs
            · cases hs
              simp only [MdioState.ret]
              omega
            · cases hs
              simp only
              omega
  | carryOut =>
      obtain ⟨f, -, rfl⟩ := Option.map_eq_some_iff.mp hs
      exact le_rfl
  | change phy reg value =>
      cases hs
      exact le_rfl

/-- **Every call ends**, after at most 201 polls. -/
theorem mdio_polls_le {es : List MdioEvent}
    (hr : ((mdioSystem M regs).restrict paced).run (mdioIdle regs) es = some s) :
    (es.map MdioEvent.polls).sum ≤ 201 * (es.map MdioEvent.calls).sum := by
  have hcost := System.Reachable.cost_le MdioState.left MdioEvent.polls
    (fun e => 201 * e.calls) (Q := fun _ => True)
    (fun s e s' h _ hs => mdioStep_left (mdio_reachable_inv h) (System.restrict_step.mp hs).2)
    (.init rfl) (fun _ _ => trivial) hr
  rw [List.sum_map_mul_left] at hcost
  have hstart : (mdioIdle regs).left = 0 := rfl
  omega

end Phytium.Xmac
