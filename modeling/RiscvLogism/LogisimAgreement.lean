import RiscvLogism.AluCorrectness
import RiscvLogism.BoardAgreement
import RiscvLogism.ClockedMachine
import RiscvLogism.LogisimModel
import Mathlib.Tactic.IntervalCases

/-!
# The drawn parts and the SystemVerilog modules

Each subcircuit of the drawing against the module of the same name.  The
control unit and the immediate generator agree on every word, the register
file over every sequence of clock edges and resets, and the three versions of
the ALU with its control unit wherever the truth table of the drawing
determines the output.
-/

namespace RiscvLogism

open Parts

/-! ## Decoding -/

section Control

variable {instruction : Word}

theorem Logisim.controlUnit_of_opCode {op : BitVec 7}
    (hop : ControlUnit.opCode instruction = op) :
    Logisim.controlUnit instruction =
      { memWrite := op == 0x23#7
        aluOps :=
          (priorityEncoder
            [op == 0x03#7 || op == 0x13#7 || op == 0x6f#7 || op == 0x23#7,
              op == 0x63#7, op == 0x33#7, false]).map (BitVec.ofNat 2)
        regWrite :=
          op == 0x33#7 || op == 0x13#7 || op == 0x03#7 || op == 0x6f#7
        aluSrc :=
          op == 0x23#7 || op == 0x13#7 || op == 0x03#7 || op == 0x6f#7
        memRead := op == 0x03#7
        branch := op == 0x63#7
        memtoReg := op == 0x03#7
        jump := op == 0x6f#7 } := by
  rw [← hop]
  rfl

theorem Logisim.controlUnit_of_unknown
    (hop : ¬ ControlUnit.KnownOpcode (ControlUnit.opcode instruction)) :
    Logisim.controlUnit instruction =
      { memWrite := false, aluOps := none, regWrite := false, aluSrc := false
        memRead := false, branch := false, memtoReg := false
        jump := false } := by
  have hdrawn := Logisim.controlUnit_of_opCode
    (show Logisim.ControlUnit.opCode instruction =
      ControlUnit.opcode instruction from rfl)
  simp only [ControlUnit.KnownOpcode, not_or] at hop
  obtain ⟨hr, hi, hl, hs, hb, hj⟩ := hop
  have hr' : (ControlUnit.opcode instruction == 0x33#7) = false :=
    beq_false_of_ne hr
  have hi' : (ControlUnit.opcode instruction == 0x13#7) = false :=
    beq_false_of_ne hi
  have hl' : (ControlUnit.opcode instruction == 0x03#7) = false :=
    beq_false_of_ne hl
  have hs' : (ControlUnit.opcode instruction == 0x23#7) = false :=
    beq_false_of_ne hs
  have hb' : (ControlUnit.opcode instruction == 0x63#7) = false :=
    beq_false_of_ne hb
  have hj' : (ControlUnit.opcode instruction == 0x6f#7) = false :=
    beq_false_of_ne hj
  rw [hdrawn, hr', hi', hl', hs', hb', hj']
  rfl

/-- The drawn control unit does what the SystemVerilog one does, except that
it leaves `ALUOps` open for an opcode it does not know. -/
theorem Logisim.controlUnit_eq (instruction : Word) :
    Logisim.controlUnit instruction =
      let outputs := RiscvLogism.controlUnit instruction
      { memWrite := outputs.memWrite
        aluOps :=
          if ControlUnit.KnownOpcode (ControlUnit.opcode instruction) then
            some outputs.aluOps
          else none
        regWrite := outputs.regWrite
        aluSrc := outputs.aluSrc
        memRead := outputs.memRead
        branch := outputs.branch
        memtoReg := outputs.memtoReg
        jump := outputs.jump } := by
  dsimp only
  by_cases hknown : ControlUnit.KnownOpcode (ControlUnit.opcode instruction)
  · rw [if_pos hknown]
    rcases hknown with hop | hop | hop | hop | hop | hop
    · rw [ControlUnit.controlUnit_rtype hop,
        Logisim.controlUnit_of_opCode hop]
      rfl
    · rw [ControlUnit.controlUnit_itype hop,
        Logisim.controlUnit_of_opCode hop]
      rfl
    · rw [ControlUnit.controlUnit_loadType hop,
        Logisim.controlUnit_of_opCode hop]
      rfl
    · rw [ControlUnit.controlUnit_stype hop,
        Logisim.controlUnit_of_opCode hop]
      rfl
    · rw [ControlUnit.controlUnit_btype hop,
        Logisim.controlUnit_of_opCode hop]
      rfl
    · rw [ControlUnit.controlUnit_jtype hop,
        Logisim.controlUnit_of_opCode hop]
      rfl
  · rw [if_neg hknown, Logisim.controlUnit_of_unknown hknown]
    by_cases hzero : instruction = 0#32
    · rw [hzero]
      rfl
    · rw [ControlUnit.controlUnit_unknown hzero hknown]
      rfl

end Control

section Immediates

variable (instruction : Word)

theorem splitter_iimm :
    splitter ([20, 21, 22, 23, 24, 25, 26, 27, 28, 29, 30, 31].map
      instruction.getLsbD) = ImmGen.iimm instruction := by
  apply BitVec.eq_of_getLsbD_eq
  intro i hi
  rw [BitVec.getLsbD_ofBoolListLE, ImmGen.iimm]
  simp only [BitVec.getLsbD_extractLsb]
  change i < 12 at hi
  interval_cases i <;> simp

theorem splitter_simm :
    splitter ([7, 8, 9, 10, 11, 25, 26, 27, 28, 29, 30, 31].map
      instruction.getLsbD) = ImmGen.simm instruction := by
  apply BitVec.eq_of_getLsbD_eq
  intro i hi
  rw [BitVec.getLsbD_ofBoolListLE, ImmGen.simm]
  simp only [BitVec.getLsbD_append, BitVec.getLsbD_extractLsb]
  change i < 12 at hi
  interval_cases i <;> simp

theorem splitter_bimm :
    splitter (false :: [8, 9, 10, 11, 25, 26, 27, 28, 29, 30, 7, 31].map
      instruction.getLsbD) = ImmGen.bimm instruction := by
  apply BitVec.eq_of_getLsbD_eq
  intro i hi
  rw [BitVec.getLsbD_ofBoolListLE, ImmGen.bimm]
  simp only [BitVec.getLsbD_append, BitVec.getLsbD_extractLsb,
    BitVec.getLsbD_ofBool]
  change i < 13 at hi
  interval_cases i <;> simp

theorem splitter_jimm :
    splitter (false ::
      [21, 22, 23, 24, 25, 26, 27, 28, 29, 30, 20, 12, 13, 14, 15, 16, 17,
        18, 19, 31].map instruction.getLsbD) = ImmGen.jimm instruction := by
  apply BitVec.eq_of_getLsbD_eq
  intro i hi
  rw [BitVec.getLsbD_ofBoolListLE, ImmGen.jimm]
  simp only [BitVec.getLsbD_append, BitVec.getLsbD_extractLsb,
    BitVec.getLsbD_ofBool]
  change i < 21 at hi
  interval_cases i <;> simp

theorem Logisim.immGen_eq (branch jump memWrite : Bool) :
    Logisim.immGen branch jump memWrite instruction =
      RiscvLogism.immGen instruction branch jump memWrite := by
  have hi : Logisim.ImmGen.itypeImm instruction =
      (RiscvLogism.ImmGen.iimm instruction).signExtend 32 := by
    rw [← splitter_iimm]
    rfl
  have hs : Logisim.ImmGen.stypeImm instruction =
      (RiscvLogism.ImmGen.simm instruction).signExtend 32 := by
    rw [← splitter_simm]
    rfl
  have hb : Logisim.ImmGen.btypeImm instruction =
      (RiscvLogism.ImmGen.bimm instruction).signExtend 32 := by
    rw [← splitter_bimm]
    rfl
  have hj : Logisim.ImmGen.jtypeImm instruction =
      (RiscvLogism.ImmGen.jimm instruction).signExtend 32 := by
    rw [← splitter_jimm]
    rfl
  unfold Logisim.immGen RiscvLogism.immGen
  dsimp only
  cases hupper : branch || jump with
  | false =>
      cases hlower : jump || memWrite with
      | false =>
          exact hi.trans (BitFields.replicate_msb_append 20 _).symm
      | true => exact hs.trans (BitFields.replicate_msb_append 20 _).symm
  | true =>
      cases hlower : jump || memWrite with
      | false => exact hb.trans (BitFields.replicate_msb_append 19 _).symm
      | true => exact hj.trans (BitFields.replicate_msb_append 11 _).symm

/-- The gates and splitters of the drawing decode every word, the unknown
opcodes included, into the control signals and the immediate of the
SystemVerilog core. -/
theorem drawn_decoding_agrees :
    let drawn := Logisim.controlUnit instruction
    let outputs := controlUnit instruction
    drawn.memWrite = outputs.memWrite ∧
      drawn.regWrite = outputs.regWrite ∧
      drawn.aluSrc = outputs.aluSrc ∧
      drawn.memRead = outputs.memRead ∧
      drawn.branch = outputs.branch ∧
      drawn.memtoReg = outputs.memtoReg ∧
      drawn.jump = outputs.jump ∧
      drawn.aluOps =
        (if ControlUnit.KnownOpcode (ControlUnit.opcode instruction) then
          some outputs.aluOps
        else none) ∧
      Logisim.immGen drawn.branch drawn.jump drawn.memWrite instruction =
        Main.immOut instruction := by
  intro drawn outputs
  have hdrawn : drawn = _ := Logisim.controlUnit_eq instruction
  have himm : Logisim.immGen drawn.branch drawn.jump drawn.memWrite
      instruction = Main.immOut instruction := by
    rw [Logisim.immGen_eq, hdrawn]
    rfl
  refine ⟨?_, ?_, ?_, ?_, ?_, ?_, ?_, ?_, himm⟩
  all_goals rw [hdrawn]

end Immediates

/-! ## Arithmetic -/

section Arithmetic

open Logisim.TruthTable

theorem rows_once (aluOp : BitVec 2) (funct3 : BitVec 3) (funct7 : Bool) :
    (rows.filter fun row =>
      row.admits aluOp funct3 funct7).length = 1 := by
  revert aluOp funct3 funct7
  decide +kernel

theorem aluControlUnits_of_rows :
    ∀ row ∈ rows, ∀ code ∈ row.aluCuOut,
      ∀ (aluOp : BitVec 2) (funct3 : BitVec 3) (funct7 : Bool),
        row.admits aluOp funct3 funct7 = true →
          Logisim.aluControlUnit aluOp funct3 funct7 = code ∧
            De1.aluControlUnit aluOp funct3 funct7 = code := by
  decide +kernel

/-- The codes of the drawing and of the board, as operations. -/
def De1.opOfCode (code : BitVec 4) : AluOp :=
  if code = 0b0000#4 then .and
  else if code = 0b0001#4 then .or
  else if code = 0b0010#4 then .add
  else if code = 0b0011#4 then .xor
  else .sub

theorem opOfCode_of_rows :
    ∀ row ∈ rows, ∀ code ∈ row.aluCuOut,
      code ∈ [0b0000#4, 0b0001#4, 0b0010#4, 0b0011#4, 0b0110#4] ∧
        ∀ (aluOp : BitVec 2) (funct3 : BitVec 3) (funct7 : Bool),
          row.admits aluOp funct3 funct7 = true →
            aluControlUnit aluOp funct3 funct7 =
              (De1.opOfCode code).code := by
  decide +kernel

theorem alus_of_code {code : BitVec 4}
    (hcode : code ∈ [0b0000#4, 0b0001#4, 0b0010#4, 0b0011#4, 0b0110#4])
    (undriven x y : Word) :
    Logisim.alu undriven x y code = (De1.opOfCode code).denote x y ∧
      De1.aluOut x y code = (De1.opOfCode code).denote x y := by
  simp only [List.mem_cons, List.not_mem_nil, or_false] at hcode
  rcases hcode with rfl | rfl | rfl | rfl | rfl
  all_goals exact ⟨rfl, rfl⟩

/-- Every input of the ALU control unit is in exactly one row of the truth
table.  If the row has an output, the drawn gates and the `casez` of the board
produce it, and the three ALUs compute the same results and zero flags, the
one of `verilog/rtl` from the code of its own control unit. -/
theorem alus_agree_on_truth_table (aluOp : BitVec 2) (funct3 : BitVec 3)
    (funct7 : Bool) :
    (rows.filter fun row =>
      row.admits aluOp funct3 funct7).length = 1 ∧
    ∀ row ∈ rows, row.admits aluOp funct3 funct7 = true →
      ∀ code ∈ row.aluCuOut,
        Logisim.aluControlUnit aluOp funct3 funct7 = code ∧
        De1.aluControlUnit aluOp funct3 funct7 = code ∧
        ∀ undriven x y : Word,
          let outputs := alu x y (aluControlUnit aluOp funct3 funct7)
          Logisim.alu undriven x y code = outputs.aluOut ∧
            De1.aluOut x y code = outputs.aluOut ∧
            Logisim.aluZero (Logisim.alu undriven x y code) =
              outputs.aluZero ∧
            De1.aluZero x y code = outputs.aluZero := by
  refine ⟨rows_once aluOp funct3 funct7, ?_⟩
  intro row hrow hadmits code hcode
  obtain ⟨hdrawn, hboard⟩ :=
    aluControlUnits_of_rows row hrow code hcode aluOp funct3 funct7 hadmits
  refine ⟨hdrawn, hboard, ?_⟩
  intro undriven x y outputs
  obtain ⟨hknown, hrtl⟩ := opOfCode_of_rows row hrow code hcode
  obtain ⟨hlogisim, hde1⟩ := alus_of_code hknown undriven x y
  have hout : outputs.aluOut = (De1.opOfCode code).denote x y := by
    change Alu.aluOut x y (aluControlUnit aluOp funct3 funct7) = _
    rw [hrtl aluOp funct3 funct7 hadmits, Alu.aluOut_code]
  have hzero : outputs.aluZero = (outputs.aluOut == 0#32) :=
    alu_aluZero x y _
  refine ⟨hlogisim.trans hout.symm, hde1.trans hout.symm, ?_, ?_⟩
  · rw [hzero, hout, hlogisim]
    rfl
  · rw [hzero, hout, De1.aluZero, hde1]

end Arithmetic

/-! ## Registers -/

section Registers

/-- What the inputs at a clock edge say about a register. -/
def RegFile.Inputs.written (index : RegIndex) (inputs : RegFile.Inputs) :
    Option Word :=
  if inputs.areset then some 0#32
  else if inputs.regWriteEnable && inputs.writeAddr == index then
    some inputs.data
  else none

/-- The same values on the pins of the drawn register file. -/
def RegFile.Inputs.drawn (inputs : RegFile.Inputs) :
    Logisim.RegFile.Inputs where
  writeRegAddr := inputs.writeAddr
  areset := inputs.areset
  data := inputs.data
  regWriteEna := inputs.regWriteEnable

theorem RegFile.regs_always {index : RegIndex} (hindex : index ≠ 0#5)
    (regfile : RegFile) (inputs : RegFile.Inputs) :
    (regfile.always inputs).regs index =
      (inputs.written index).getD (regfile.regs index) := by
  unfold RegFile.always RegFile.Inputs.written
  cases inputs.areset with
  | true => rfl
  | false =>
      cases inputs.regWriteEnable with
      | false => rfl
      | true =>
          by_cases hsame : inputs.writeAddr = index
          · simp [hsame, hindex]
          · by_cases hzero : inputs.writeAddr = 0#5
            · simp [hzero, hindex.symm]
            · simp [hzero, hsame, Function.update_of_ne (Ne.symm hsame)]

theorem Logisim.RegFile.regs_clk (regfile : Logisim.RegFile)
    (inputs : RiscvLogism.RegFile.Inputs)
    (index : { index : RegIndex // index ≠ 0#5 }) :
    (regfile.clk inputs.drawn).regs index =
      (inputs.written index).getD (regfile.regs index) := by
  unfold Logisim.RegFile.clk Logisim.writeSignalReg
    RiscvLogism.RegFile.Inputs.written RiscvLogism.RegFile.Inputs.drawn
  dsimp only
  cases inputs.areset with
  | true => rfl
  | false =>
      rw [registers_of_decoder]
      by_cases hsame : (index : RegIndex) = inputs.writeAddr
      · cases hwrite : inputs.regWriteEnable <;> simp [hsame]
      · simp [hsame, Ne.symm hsame]

/-- Each read port of both register files shows, after any sequence of clock
edges and resets, the data of the last edge which wrote the register, zero
after a later reset, and always zero for `x0`. -/
theorem register_files_hold_last_write (regfile : RegFile)
    (drawn : Logisim.RegFile) (events : List RegFile.Inputs)
    (index : RegIndex) :
    let last := events.reverse.findSome? fun inputs => inputs.written index
    (Clocked.run RegFile.always regfile events).readRegOut index =
        (if index = 0#5 then 0#32
          else last.getD (regfile.readRegOut index)) ∧
      (Clocked.run (fun state (inputs : RegFile.Inputs) =>
          Logisim.RegFile.clk state inputs.drawn) drawn events).readRegOut
            index =
        (if index = 0#5 then 0#32
          else last.getD (drawn.readRegOut index)) := by
  intro last
  by_cases hindex : index = 0#5
  · subst hindex
    exact ⟨rfl, rfl⟩
  · rw [if_neg hindex, if_neg hindex]
    have hread : ∀ state : RegFile,
        state.readRegOut index = state.regs index := by
      intro state
      rw [RegFile.readRegOut, if_neg hindex]
    have hline : ∀ state : Logisim.RegFile,
        state.readRegOut index = state.regs ⟨index, hindex⟩ := by
      intro state
      rw [Logisim.RegFile.readRegOut, Logisim.RegFile.line, dif_pos hindex]
    constructor
    · rw [hread, hread]
      apply Clocked.view_run_eq_last RegFile.always
        (fun state => state.regs index)
      intro state inputs
      exact RegFile.regs_always hindex state inputs
    · rw [hline, hline]
      apply Clocked.view_run_eq_last
        (fun state (inputs : RegFile.Inputs) =>
          Logisim.RegFile.clk state inputs.drawn)
        (fun state => state.regs ⟨index, hindex⟩)
      intro state inputs
      exact Logisim.RegFile.regs_clk state inputs ⟨index, hindex⟩

end Registers

end RiscvLogism
