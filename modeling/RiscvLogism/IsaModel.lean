import RiscvLogism.AluModel
import Mathlib.Logic.Function.Basic
import Mathlib.Tactic.SplitIfs

/-!
# The RV32I reference

The instruction fields of RV32I, the sixteen instructions the repository
implements, and an interpreter which executes one of them per step.  Nothing
here is translated from the circuits: this is what they are compared with.
The instruction set is the table of `r32i_base_instruction.yaml` together with
the register-register operations of `alu_pkg.sv`.
-/

namespace RiscvLogism
namespace Isa

/-! ## Instruction fields -/

def opcode (word : Word) : BitVec 7 := word.extractLsb 6 0

def rd (word : Word) : BitVec 5 := word.extractLsb 11 7

def funct3 (word : Word) : BitVec 3 := word.extractLsb 14 12

def rs1 (word : Word) : BitVec 5 := word.extractLsb 19 15

def rs2 (word : Word) : BitVec 5 := word.extractLsb 24 20

def funct7 (word : Word) : BitVec 7 := word.extractLsb 31 25

def immI (word : Word) : BitVec 12 := word.extractLsb 31 20

def immS (word : Word) : BitVec 12 :=
  word.extractLsb 31 25 ++ word.extractLsb 11 7

/-- Bits 12, 11, 10 to 5 and 4 to 1 of the offset, in that order. -/
def immB (word : Word) : BitVec 13 :=
  word.extractLsb 31 31 ++ word.extractLsb 7 7 ++ word.extractLsb 30 25 ++
    word.extractLsb 11 8 ++ 0b0#1

/-- Bits 20, 19 to 12, 11 and 10 to 1 of the offset, in that order. -/
def immJ (word : Word) : BitVec 21 :=
  word.extractLsb 31 31 ++ word.extractLsb 19 12 ++ word.extractLsb 20 20 ++
    word.extractLsb 30 21 ++ 0b0#1

def layout (funct7 : BitVec 7) (rs2 rs1 : BitVec 5) (funct3 : BitVec 3)
    (rd : BitVec 5) (opcode : BitVec 7) : Word :=
  funct7 ++ rs2 ++ rs1 ++ funct3 ++ rd ++ opcode

section Layout

variable (f7 : BitVec 7) (r2 r1 : BitVec 5) (f3 : BitVec 3) (d : BitVec 5)
  (op : BitVec 7)

@[simp] theorem opcode_layout : opcode (layout f7 r2 r1 f3 d op) = op :=
  (BitVec.extractLsb'_append_eq_of_add_le (by omega)).trans
    BitVec.extractLsb'_eq_self

@[simp] theorem rd_layout : rd (layout f7 r2 r1 f3 d op) = d := by
  unfold rd layout BitVec.extractLsb
  simp (disch := omega) only [BitVec.extractLsb'_append_eq_of_le,
    BitVec.extractLsb'_append_eq_of_add_le]
  exact BitVec.extractLsb'_eq_self

@[simp] theorem funct3_layout : funct3 (layout f7 r2 r1 f3 d op) = f3 := by
  unfold funct3 layout BitVec.extractLsb
  simp (disch := omega) only [BitVec.extractLsb'_append_eq_of_le,
    BitVec.extractLsb'_append_eq_of_add_le]
  exact BitVec.extractLsb'_eq_self

@[simp] theorem rs1_layout : rs1 (layout f7 r2 r1 f3 d op) = r1 := by
  unfold rs1 layout BitVec.extractLsb
  simp (disch := omega) only [BitVec.extractLsb'_append_eq_of_le,
    BitVec.extractLsb'_append_eq_of_add_le]
  exact BitVec.extractLsb'_eq_self

@[simp] theorem rs2_layout : rs2 (layout f7 r2 r1 f3 d op) = r2 := by
  unfold rs2 layout BitVec.extractLsb
  simp (disch := omega) only [BitVec.extractLsb'_append_eq_of_le,
    BitVec.extractLsb'_append_eq_of_add_le]
  exact BitVec.extractLsb'_eq_self

@[simp] theorem funct7_layout : funct7 (layout f7 r2 r1 f3 d op) = f7 := by
  unfold funct7 layout BitVec.extractLsb
  simp (disch := omega) only [BitVec.extractLsb'_append_eq_of_le]
  exact BitVec.extractLsb'_eq_self

theorem layout_fields (word : Word) :
    layout (funct7 word) (rs2 word) (rs1 word) (funct3 word) (rd word)
      (opcode word) = word := by
  unfold layout funct7 rs2 rs1 funct3 rd opcode BitVec.extractLsb
  rw [BitVec.extractLsb'_append_extractLsb'_eq_extractLsb' (by omega),
    BitVec.extractLsb'_append_extractLsb'_eq_extractLsb' (by omega),
    BitVec.extractLsb'_append_extractLsb'_eq_extractLsb' (by omega),
    BitVec.extractLsb'_append_extractLsb'_eq_extractLsb' (by omega),
    BitVec.extractLsb'_append_extractLsb'_eq_extractLsb' (by omega)]
  exact BitVec.extractLsb'_eq_self

end Layout

/-! ## Instructions -/

inductive Instr where
  | op (operation : AluOp) (rd rs1 rs2 : BitVec 5)
  | addi (rd rs1 : BitVec 5) (imm : BitVec 12)
  | lw (rd rs1 : BitVec 5) (imm : BitVec 12)
  | sw (rs1 rs2 : BitVec 5) (imm : BitVec 12)
  | beq (rs1 rs2 : BitVec 5) (imm : BitVec 13)
  | bne (rs1 rs2 : BitVec 5) (imm : BitVec 13)
  | jal (rd : BitVec 5) (imm : BitVec 21)
  deriving DecidableEq, Repr

def regOp (funct3 : BitVec 3) (funct7 : BitVec 7) : Option AluOp :=
  if funct7 = 0b0000000#7 then
    if funct3 = 0b000#3 then some .add
    else if funct3 = 0b001#3 then some .sll
    else if funct3 = 0b010#3 then some .slt
    else if funct3 = 0b011#3 then some .sltu
    else if funct3 = 0b100#3 then some .xor
    else if funct3 = 0b101#3 then some .srl
    else if funct3 = 0b110#3 then some .or
    else some .and
  else if funct7 = 0b0100000#7 then
    if funct3 = 0b000#3 then some .sub
    else if funct3 = 0b101#3 then some .sra
    else none
  else none

/-- The instruction a word encodes, if it encodes one of the sixteen. -/
def decode (word : Word) : Option Instr :=
  if opcode word = 0b0110011#7 then
    (regOp (funct3 word) (funct7 word)).map fun operation =>
      .op operation (rd word) (rs1 word) (rs2 word)
  else if opcode word = 0b0010011#7 then
    if funct3 word = 0b000#3 then
      some (.addi (rd word) (rs1 word) (immI word))
    else none
  else if opcode word = 0b0000011#7 then
    if funct3 word = 0b010#3 then
      some (.lw (rd word) (rs1 word) (immI word))
    else none
  else if opcode word = 0b0100011#7 then
    if funct3 word = 0b010#3 then
      some (.sw (rs1 word) (rs2 word) (immS word))
    else none
  else if opcode word = 0b1100011#7 then
    if funct3 word = 0b000#3 then
      some (.beq (rs1 word) (rs2 word) (immB word))
    else if funct3 word = 0b001#3 then
      some (.bne (rs1 word) (rs2 word) (immB word))
    else none
  else if opcode word = 0b1101111#7 then
    some (.jal (rd word) (immJ word))
  else none

def Implemented (word : Word) : Prop := (decode word).isSome = true

instance (word : Word) : Decidable (Implemented word) :=
  inferInstanceAs (Decidable (_ = true))

/-! ## Execution -/

/-- Thirty-two registers of which the first is constantly zero. -/
@[ext] structure Regs where
  get : BitVec 5 → Word
  get_zero : get 0#5 = 0#32

def Regs.zeros : Regs where
  get := fun _ => 0#32
  get_zero := rfl

def Regs.set (regs : Regs) (rd : BitVec 5) (value : Word) : Regs where
  get := fun index =>
    if index = rd ∧ rd ≠ 0#5 then value else regs.get index
  get_zero := by
    split_ifs with hwrite
    · exact absurd hwrite.1.symm hwrite.2
    · exact regs.get_zero

@[simp] theorem Regs.set_zero (regs : Regs) (value : Word) :
    regs.set 0#5 value = regs := by
  apply Regs.ext
  funext index
  simp [Regs.set]

section Set

variable (regs : Regs)

theorem Regs.get_set (rd : BitVec 5) (value : Word) (index : BitVec 5) :
    (regs.set rd value).get index =
      if index = rd ∧ rd ≠ 0#5 then value else regs.get index := rfl

@[simp] theorem Regs.get_set_self {rd : BitVec 5} (hrd : rd ≠ 0#5)
    (value : Word) : (regs.set rd value).get rd = value := by
  rw [get_set, if_pos ⟨rfl, hrd⟩]

@[simp] theorem Regs.get_set_of_ne {rd index : BitVec 5}
    (hne : index ≠ rd) (value : Word) :
    (regs.set rd value).get index = regs.get index := by
  rw [get_set, if_neg fun hwrite => hne hwrite.1]

@[simp] theorem Regs.set_set (rd : BitVec 5) (value value' : Word) :
    (regs.set rd value).set rd value' = regs.set rd value' := by
  apply Regs.ext
  funext index
  rw [get_set, get_set, get_set]
  split_ifs <;> rfl

theorem Regs.set_comm {rd rd' : BitVec 5} (hne : rd ≠ rd')
    (value value' : Word) :
    (regs.set rd value).set rd' value' =
      (regs.set rd' value').set rd value := by
  apply Regs.ext
  funext index
  by_cases hindex : index = rd
  · subst hindex
    rw [get_set_of_ne _ hne, get_set, get_set, get_set_of_ne _ hne]
  · rw [get_set_of_ne _ hindex, get_set, get_set_of_ne _ hindex, get_set]

@[simp] theorem Regs.set_get (rd : BitVec 5) :
    regs.set rd (regs.get rd) = regs := by
  apply Regs.ext
  funext index
  rw [get_set]
  split_ifs with hwrite
  · rw [hwrite.1]
  · rfl

end Set

@[ext] structure State where
  pc : Word
  regs : Regs
  ram : Word → Word

def State.initial (ram : Word → Word) : State where
  pc := 0#32
  regs := .zeros
  ram := ram

def exec (state : State) : Instr → State
  | .op operation rd rs1 rs2 =>
      { state with
        pc := state.pc + 4#32
        regs := state.regs.set rd
          (operation.denote (state.regs.get rs1) (state.regs.get rs2)) }
  | .addi rd rs1 imm =>
      { state with
        pc := state.pc + 4#32
        regs := state.regs.set rd
          (state.regs.get rs1 + imm.signExtend 32) }
  | .lw rd rs1 imm =>
      { state with
        pc := state.pc + 4#32
        regs := state.regs.set rd
          (state.ram ((state.regs.get rs1 + imm.signExtend 32) >>> 2)) }
  | .sw rs1 rs2 imm =>
      { state with
        pc := state.pc + 4#32
        ram := Function.update state.ram
          ((state.regs.get rs1 + imm.signExtend 32) >>> 2)
          (state.regs.get rs2) }
  | .beq rs1 rs2 imm =>
      { state with
        pc :=
          if state.regs.get rs1 = state.regs.get rs2 then
            state.pc + imm.signExtend 32
          else state.pc + 4#32 }
  | .bne rs1 rs2 imm =>
      { state with
        pc :=
          if state.regs.get rs1 ≠ state.regs.get rs2 then
            state.pc + imm.signExtend 32
          else state.pc + 4#32 }
  | .jal rd imm =>
      { state with
        pc := state.pc + imm.signExtend 32
        regs := state.regs.set rd (state.pc + 4#32) }

/-- The program counters which may follow an instruction at `pc`. -/
def Instr.successors (pc : Word) : Instr → List Word
  | .beq _ _ imm | .bne _ _ imm => [pc + imm.signExtend 32, pc + 4#32]
  | .jal _ imm => [pc + imm.signExtend 32]
  | .op .. | .addi .. | .lw .. | .sw .. => [pc + 4#32]

theorem exec_pc_mem_successors (state : State) (instr : Instr) :
    (exec state instr).pc ∈ instr.successors state.pc := by
  cases instr with
  | op | addi | lw | sw | jal => exact List.mem_singleton_self _
  | beq | bne =>
      simp only [exec, Instr.successors, List.mem_cons, List.not_mem_nil,
        or_false]
      split_ifs
      · exact .inl rfl
      · exact .inr rfl

/-- The effect of one word.  The all-zero word halts; a word which is not
implemented has no meaning here and halts as well. -/
def execWord (state : State) (word : Word) : State :=
  match decode word with
  | some instr => exec state instr
  | none => state

def step (rom : Word → Word) (state : State) : State :=
  execWord state (rom (state.pc >>> 2))

def Instr.isLink : Instr → Bool
  | .jal rd _ => rd != 0#5
  | _ => false

/-- Words a program may hold: the halting word, or an implemented
instruction which is not a linking jump. -/
def Runnable (word : Word) : Prop :=
  word = 0#32 ∨ (decode word).any (fun instr => !instr.isLink) = true

instance (word : Word) : Decidable (Runnable word) :=
  inferInstanceAs (Decidable (_ ∨ _))

structure Program where
  rom : Word → Word
  runnable : ∀ index, Runnable (rom index)

instance : Inhabited Program where
  default := { rom := fun _ => 0#32, runnable := fun _ => .inl rfl }

@[simp] theorem decode_zero : decode 0#32 = none := by decide

end Isa
end RiscvLogism
