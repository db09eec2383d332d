import RiscvLogism.AluModel
import RiscvLogism.BitFields
import Mathlib.Tactic.SplitIfs

/-!
# Instruction decoding

`ControlUnit.sv`, `ALUControlUnit.sv` and `ImmGen.sv`.  The control unit looks
at the opcode only, apart from the all-zero word, which it reports as a halt.
The function fields reach the datapath through the ALU control unit alone,
and the format of the immediate is chosen by three of the control signals.
-/

namespace RiscvLogism

structure ControlOutputs where
  aluOps : BitVec 2
  aluSrc : Bool
  memWrite : Bool
  regWrite : Bool
  memRead : Bool
  memtoReg : Bool
  branch : Bool
  jump : Bool
  haltDetected : Bool
  deriving DecidableEq, Repr

namespace ControlUnit

def rtype : BitVec 7 := 0x33#7
def itype : BitVec 7 := 0x13#7
def stype : BitVec 7 := 0x23#7
def btype : BitVec 7 := 0x63#7
def jtype : BitVec 7 := 0x6f#7
def loadType : BitVec 7 := 0x03#7

def opcode (instruction : Word) : BitVec 7 :=
  instruction.extractLsb 6 0

def defaults (haltDetected : Bool) : ControlOutputs where
  aluOps := 0b00#2
  aluSrc := false
  memWrite := false
  regWrite := false
  memRead := false
  memtoReg := false
  branch := false
  jump := false
  haltDetected := haltDetected

end ControlUnit

open ControlUnit in
def controlUnit (instruction : Word) : ControlOutputs :=
  let haltDetected := instruction == 0#32
  let outputs := defaults haltDetected
  if !haltDetected then
    if opcode instruction = rtype then
      { outputs with regWrite := true, aluOps := 0b10#2 }
    else if opcode instruction = itype then
      { outputs with regWrite := true, aluSrc := true, aluOps := 0b00#2 }
    else if opcode instruction = loadType then
      { outputs with
        regWrite := true, aluSrc := true, memRead := true, memtoReg := true }
    else if opcode instruction = stype then
      { outputs with aluSrc := true, memWrite := true }
    else if opcode instruction = btype then
      { outputs with branch := true, aluOps := 0b01#2 }
    else if opcode instruction = jtype then
      { outputs with regWrite := true, jump := true, aluSrc := true }
    else outputs
  else outputs

inductive AluCuOp where
  | add
  | sub
  | func
  | reserve
  deriving DecidableEq, Repr

def AluCuOp.code : AluCuOp → BitVec 2
  | .add => 0b00#2
  | .sub => 0b01#2
  | .func => 0b10#2
  | .reserve => 0b11#2

/-- `funct7[5]` only matters when `funct3` is `000` or `101`. -/
def aluControlUnit (aluOp : BitVec 2) (funct3 : BitVec 3)
    (funct7Bit5 : Bool) : BitVec 4 :=
  let useF7 := funct3 == 0b000#3 || funct3 == 0b101#3
  if aluOp = AluCuOp.add.code then AluOp.add.code
  else if aluOp = AluCuOp.sub.code then AluOp.sub.code
  else if aluOp = AluCuOp.func.code then
    BitVec.ofBool (funct7Bit5 && useF7) ++ funct3
  else AluOp.add.code

namespace ImmGen

def iimm (instruction : Word) : BitVec 12 :=
  instruction.extractLsb 31 20

def simm (instruction : Word) : BitVec 12 :=
  instruction.extractLsb 31 25 ++ instruction.extractLsb 11 7

def bimm (instruction : Word) : BitVec 13 :=
  BitVec.ofBool (instruction.getLsbD 31) ++
    BitVec.ofBool (instruction.getLsbD 7) ++
    instruction.extractLsb 30 25 ++ instruction.extractLsb 11 8 ++ 0b0#1

def jimm (instruction : Word) : BitVec 21 :=
  BitVec.ofBool (instruction.getLsbD 31) ++ instruction.extractLsb 19 12 ++
    BitVec.ofBool (instruction.getLsbD 20) ++
    instruction.extractLsb 30 21 ++ 0b0#1

end ImmGen

open ImmGen in
def immGen (instruction : Word) (branch jump memWrite : Bool) : Word :=
  let immSel1 := jump || memWrite
  let immSel2 := branch || jump
  match immSel2, immSel1 with
  | false, false =>
      (BitVec.ofBool ((iimm instruction).getLsbD 11)).replicate 20 ++
        iimm instruction
  | false, true =>
      (BitVec.ofBool ((simm instruction).getLsbD 11)).replicate 20 ++
        simm instruction
  | true, false =>
      (BitVec.ofBool ((bimm instruction).getLsbD 12)).replicate 19 ++
        bimm instruction
  | true, true =>
      (BitVec.ofBool ((jimm instruction).getLsbD 20)).replicate 11 ++
        jimm instruction

/-! ## Decoding by opcode -/

namespace ControlUnit

theorem opcode_zero : opcode 0#32 = 0#7 := by decide

theorem ne_zero_of_opcode {instruction : Word} {op : BitVec 7}
    (hop : opcode instruction = op) (hne : op ≠ 0#7) :
    instruction ≠ 0#32 := by
  intro hzero
  apply hne
  rw [← hop, hzero, opcode_zero]

theorem controlUnit_haltDetected (instruction : Word) :
    (controlUnit instruction).haltDetected = (instruction == 0#32) := by
  unfold controlUnit
  dsimp only
  split_ifs <;> rfl

variable {instruction : Word}

theorem controlUnit_rtype (hop : opcode instruction = rtype) :
    controlUnit instruction =
      { defaults false with regWrite := true, aluOps := 0b10#2 } := by
  have hne := ne_zero_of_opcode hop (by decide)
  simp [controlUnit, hop, hne, defaults]

theorem controlUnit_itype (hop : opcode instruction = itype) :
    controlUnit instruction =
      { defaults false with regWrite := true, aluSrc := true } := by
  have hne := ne_zero_of_opcode hop (by decide)
  simp [controlUnit, hop, hne, rtype, itype, defaults]

theorem controlUnit_loadType (hop : opcode instruction = loadType) :
    controlUnit instruction =
      { defaults false with
        regWrite := true, aluSrc := true, memRead := true,
        memtoReg := true } := by
  have hne := ne_zero_of_opcode hop (by decide)
  simp [controlUnit, hop, hne, rtype, itype, loadType, defaults]

theorem controlUnit_stype (hop : opcode instruction = stype) :
    controlUnit instruction =
      { defaults false with aluSrc := true, memWrite := true } := by
  have hne := ne_zero_of_opcode hop (by decide)
  simp [controlUnit, hop, hne, rtype, itype, loadType, stype, defaults]

theorem controlUnit_btype (hop : opcode instruction = btype) :
    controlUnit instruction =
      { defaults false with branch := true, aluOps := 0b01#2 } := by
  have hne := ne_zero_of_opcode hop (by decide)
  simp [controlUnit, hop, hne, rtype, itype, loadType, stype, btype,
    defaults]

theorem controlUnit_jtype (hop : opcode instruction = jtype) :
    controlUnit instruction =
      { defaults false with
        regWrite := true, jump := true, aluSrc := true } := by
  have hne := ne_zero_of_opcode hop (by decide)
  simp [controlUnit, hop, hne, rtype, itype, loadType, stype, btype, jtype,
    defaults]

def KnownOpcode (op : BitVec 7) : Prop :=
  op = rtype ∨ op = itype ∨ op = loadType ∨ op = stype ∨ op = btype ∨
    op = jtype

instance (op : BitVec 7) : Decidable (KnownOpcode op) :=
  inferInstanceAs (Decidable (_ ∨ _))

theorem controlUnit_unknown (hne : instruction ≠ 0#32)
    (hop : ¬ KnownOpcode (opcode instruction)) :
    controlUnit instruction = defaults false := by
  simp only [KnownOpcode, not_or] at hop
  simp [controlUnit, hne, hop, defaults]

/-- A word which raises any signal other than `HALT_detected` has an opcode
with a case of its own. -/
theorem knownOpcode_of_signal (signal : ControlOutputs → Bool)
    (hlow : ∀ haltDetected, signal (defaults haltDetected) = false)
    (hsignal : signal (controlUnit instruction) = true) :
    KnownOpcode (opcode instruction) := by
  by_cases hop : KnownOpcode (opcode instruction)
  · exact hop
  · by_cases hzero : instruction = 0#32
    · have hcontrol : controlUnit instruction = defaults true := by
        rw [hzero]
        rfl
      rw [hcontrol, hlow] at hsignal
      contradiction
    · rw [controlUnit_unknown hzero hop, hlow] at hsignal
      contradiction

theorem opcode_of_jump (hjump : (controlUnit instruction).jump = true) :
    opcode instruction = jtype := by
  rcases knownOpcode_of_signal ControlOutputs.jump (fun _ => rfl) hjump with
    hop | hop | hop | hop | hop | hop
  · rw [controlUnit_rtype hop] at hjump
    contradiction
  · rw [controlUnit_itype hop] at hjump
    contradiction
  · rw [controlUnit_loadType hop] at hjump
    contradiction
  · rw [controlUnit_stype hop] at hjump
    contradiction
  · rw [controlUnit_btype hop] at hjump
    contradiction
  · exact hop

theorem opcode_of_branch
    (hbranch : (controlUnit instruction).branch = true) :
    opcode instruction = btype := by
  rcases knownOpcode_of_signal ControlOutputs.branch (fun _ => rfl) hbranch
    with hop | hop | hop | hop | hop | hop
  · rw [controlUnit_rtype hop] at hbranch
    contradiction
  · rw [controlUnit_itype hop] at hbranch
    contradiction
  · rw [controlUnit_loadType hop] at hbranch
    contradiction
  · rw [controlUnit_stype hop] at hbranch
    contradiction
  · exact hop
  · rw [controlUnit_jtype hop] at hbranch
    contradiction

theorem opcode_of_regWrite
    (hwrite : (controlUnit instruction).regWrite = true) :
    opcode instruction = rtype ∨ opcode instruction = itype ∨
      opcode instruction = loadType ∨ opcode instruction = jtype := by
  rcases knownOpcode_of_signal ControlOutputs.regWrite (fun _ => rfl) hwrite
    with hop | hop | hop | hop | hop | hop
  · exact .inl hop
  · exact .inr (.inl hop)
  · exact .inr (.inr (.inl hop))
  · rw [controlUnit_stype hop] at hwrite
    contradiction
  · rw [controlUnit_btype hop] at hwrite
    contradiction
  · exact .inr (.inr (.inr hop))

theorem not_memWrite_of_regWrite
    (hwrite : (controlUnit instruction).regWrite = true) :
    (controlUnit instruction).memWrite = false ∧
      (controlUnit instruction).branch = false := by
  rcases opcode_of_regWrite hwrite with hop | hop | hop | hop
  · rw [controlUnit_rtype hop]
    exact ⟨rfl, rfl⟩
  · rw [controlUnit_itype hop]
    exact ⟨rfl, rfl⟩
  · rw [controlUnit_loadType hop]
    exact ⟨rfl, rfl⟩
  · rw [controlUnit_jtype hop]
    exact ⟨rfl, rfl⟩

end ControlUnit

def funcOp (funct3 : BitVec 3) (funct7Bit5 : Bool) : AluOp :=
  if funct3 = 0b000#3 then if funct7Bit5 then .sub else .add
  else if funct3 = 0b001#3 then .sll
  else if funct3 = 0b010#3 then .slt
  else if funct3 = 0b011#3 then .sltu
  else if funct3 = 0b100#3 then .xor
  else if funct3 = 0b101#3 then if funct7Bit5 then .sra else .srl
  else if funct3 = 0b110#3 then .or
  else .and

@[simp] theorem aluControlUnit_func (funct3 : BitVec 3)
    (funct7Bit5 : Bool) :
    aluControlUnit 0b10#2 funct3 funct7Bit5 =
      (funcOp funct3 funct7Bit5).code := by
  revert funct3 funct7Bit5
  decide

namespace ImmGen

theorem immGen_itype (instruction : Word) :
    immGen instruction false false false =
      (iimm instruction).signExtend 32 :=
  BitFields.replicate_msb_append 20 (iimm instruction)

theorem immGen_stype (instruction : Word) :
    immGen instruction false false true =
      (simm instruction).signExtend 32 :=
  BitFields.replicate_msb_append 20 (simm instruction)

theorem immGen_btype (instruction : Word) :
    immGen instruction true false false =
      (bimm instruction).signExtend 32 :=
  BitFields.replicate_msb_append 19 (bimm instruction)

theorem immGen_jtype (instruction : Word) :
    immGen instruction false true false =
      (jimm instruction).signExtend 32 :=
  BitFields.replicate_msb_append 11 (jimm instruction)

end ImmGen

end RiscvLogism
