import RiscvLogism.BoardAgreement
import RiscvLogism.InstructionEffect

/-!
# Loads on the board

Both memories of the board register their address.  The two-cycle scheme
gives the program memory the cycle it needs.  The data memory gets none: what
it shows in an execute phase was addressed at the end of the fetch phase, when
the instruction port still held the previous word.  A load is correct exactly
when that address holds the same word as the right one.
-/

namespace RiscvLogism
namespace Board

/-! ## Phases -/

section Phases

variable {mode : ReadDuringWrite} {board : Board}

theorem main_posedgeClk_reset :
    (board.posedgeClk mode false).main = Main.afterReset :=
  Main.always_areset rfl

theorem main_negedgeKey1 : board.negedgeKey1.main = Main.afterReset :=
  Main.always_areset rfl

theorem executeCycle_posedgeClk :
    (board.posedgeClk mode true).main.executeCycle =
      !board.main.executeCycle :=
  Main.always_executeCycle rfl

/-- At the end of a fetch phase both memories read, the data memory at an
address computed from the word which the instruction port still shows. -/
theorem posedgeClk_fetch (hphase : board.main.executeCycle = false) :
    board.posedgeClk mode true =
      { main := { board.main with executeCycle := true }
        dataMemory :=
          { mem := board.dataMemory.mem
            readdata := board.dataMemory.mem
              (De1.dmemAddr board.main board.imemData) }
        programMemory :=
          { mem := board.programMemory.mem
            readdata := board.programMemory.mem
              (De1.imemAddr board.main) } } := by
  have hmain :
      De1.always board.main (board.de1Inputs true) =
        { board.main with executeCycle := true } :=
    Main.always_fetch rfl hphase
  have hclosed : OnchipMemory.wren board.dataInputs = false := by
    simp [OnchipMemory.wren, dataInputs, De1.dmemWe, hphase]
  rw [posedgeClk, hmain, OnchipMemory.posedgeClk_read hclosed,
    OnchipMemory.posedgeClk_read rfl]
  rfl

structure FetchBefore (mode : ReadDuringWrite) (before board : Board) :
    Prop where
  reachable : Reachable mode before
  phase : before.main.executeCycle = false
  edge : board = before.posedgeClk mode true

theorem exists_fetchBefore (hreach : Reachable mode board)
    (hphase : board.main.executeCycle = true) :
    ∃ before, FetchBefore mode before board := by
  rcases hreach with ⟨powerUp, event, hreset, rfl⟩ | ⟨hreach, event⟩
  · rcases hreset with rfl | rfl
    · rw [step, main_posedgeClk_reset] at hphase
      contradiction
    · rw [step, main_negedgeKey1] at hphase
      contradiction
  · rename_i before
    cases event with
    | clk key1 =>
        cases key1 with
        | false =>
            rw [step, main_posedgeClk_reset] at hphase
            contradiction
        | true =>
            rw [step, executeCycle_posedgeClk, Bool.not_eq_true'] at hphase
            exact ⟨before, hreach, hphase, rfl⟩
    | key1Fall =>
        rw [step, main_negedgeKey1] at hphase
        contradiction

theorem FetchBefore.imemData_eq {before : Board}
    (hbefore : FetchBefore mode before board) :
    board.imemData = board.programMemory.mem (De1.imemAddr board.main) := by
  rw [hbefore.edge, posedgeClk_fetch hbefore.phase]
  rfl

theorem FetchBefore.dmemRdata_eq {before : Board}
    (hbefore : FetchBefore mode before board) :
    board.dmemRdata =
      board.dataMemory.mem (De1.dmemAddr before.main before.imemData) := by
  rw [hbefore.edge, posedgeClk_fetch hbefore.phase]
  rfl

end Phases

/-! ## The address on the data memory -/

/-- What the ALU of the board computes while the instruction port shows a
word. -/
def aluResult (regfile : RegFile) (word : Word) : Word :=
  let x := regfile.readRegOut (Isa.rs1 word)
  let y := regfile.readRegOut (Isa.rs2 word)
  if ControlUnit.opcode word = ControlUnit.rtype then
    if De1.CommonFunct3 (Isa.funct3 word) then
      (funcOp (Isa.funct3 word) (word.getLsbD 30)).denote x y
    else x &&& y
  else if ControlUnit.opcode word = ControlUnit.itype then
    x + (Isa.immI word).signExtend 32
  else if ControlUnit.opcode word = ControlUnit.loadType then
    x + (Isa.immI word).signExtend 32
  else if ControlUnit.opcode word = ControlUnit.stype then
    x + (Isa.immS word).signExtend 32
  else if ControlUnit.opcode word = ControlUnit.btype then x - y
  else if ControlUnit.opcode word = ControlUnit.jtype then
    x + (Isa.immJ word).signExtend 32
  else x + y

section AluResult

variable (main : Main) {word : Word}

theorem aluOut_rtype (hop : ControlUnit.opcode word = ControlUnit.rtype) :
    main.aluOut De1.arithmetic word = aluResult main.regfile word := by
  have hout :
      main.aluOut De1.arithmetic word =
        De1.aluOut (main.regfile.readRegOut (Isa.rs1 word))
          (main.regfile.readRegOut (Isa.rs2 word))
          (De1.aluControlUnit 0b10#2 (Isa.funct3 word)
            (word.getLsbD 30)) := by
    simp only [Main.aluOut, Main.aluBMux, Main.aluCuOut,
      ControlUnit.controlUnit_rtype hop, ControlUnit.defaults]
    rfl
  rw [hout, aluResult, if_pos hop]
  by_cases hcommon : De1.CommonFunct3 (Isa.funct3 word)
  · rw [if_pos hcommon]
    exact De1.aluOut_func_code hcommon _ _ _
  · rw [if_neg hcommon]
    exact De1.aluOut_func_default hcommon _ _ _

theorem aluOut_immediate (hsrc : (controlUnit word).aluSrc = true)
    (hops : (controlUnit word).aluOps = 0b00#2) :
    main.aluOut De1.arithmetic word =
      main.regfile.readRegOut (Isa.rs1 word) + Main.immOut word := by
  simp only [Main.aluOut, Main.aluBMux, Main.aluCuOut, hsrc, hops]
  rfl

theorem aluOut_registers (hsrc : (controlUnit word).aluSrc = false)
    (hops : (controlUnit word).aluOps = 0b00#2) :
    main.aluOut De1.arithmetic word =
      main.regfile.readRegOut (Isa.rs1 word) +
        main.regfile.readRegOut (Isa.rs2 word) := by
  simp only [Main.aluOut, Main.aluBMux, Main.aluCuOut, hsrc, hops]
  rfl

theorem aluOut_btype (hop : ControlUnit.opcode word = ControlUnit.btype) :
    main.aluOut De1.arithmetic word =
      main.regfile.readRegOut (Isa.rs1 word) -
        main.regfile.readRegOut (Isa.rs2 word) := by
  simp only [Main.aluOut, Main.aluBMux, Main.aluCuOut,
    ControlUnit.controlUnit_btype hop, ControlUnit.defaults]
  rfl

theorem aluOut_eq_aluResult (word : Word) :
    main.aluOut De1.arithmetic word = aluResult main.regfile word := by
  by_cases hr : ControlUnit.opcode word = ControlUnit.rtype
  · exact aluOut_rtype main hr
  rw [aluResult, if_neg hr]
  by_cases hi : ControlUnit.opcode word = ControlUnit.itype
  · have hcontrol := ControlUnit.controlUnit_itype hi
    rw [if_pos hi, ← Bench.immOut_itype hi]
    exact aluOut_immediate main (by rw [hcontrol]) (by rw [hcontrol]; rfl)
  rw [if_neg hi]
  by_cases hl : ControlUnit.opcode word = ControlUnit.loadType
  · have hcontrol := ControlUnit.controlUnit_loadType hl
    rw [if_pos hl, ← Bench.immOut_loadType hl]
    exact aluOut_immediate main (by rw [hcontrol]) (by rw [hcontrol]; rfl)
  rw [if_neg hl]
  by_cases hs : ControlUnit.opcode word = ControlUnit.stype
  · have hcontrol := ControlUnit.controlUnit_stype hs
    rw [if_pos hs, ← Bench.immOut_stype hs]
    exact aluOut_immediate main (by rw [hcontrol]) (by rw [hcontrol]; rfl)
  rw [if_neg hs]
  by_cases hb : ControlUnit.opcode word = ControlUnit.btype
  · rw [if_pos hb]
    exact aluOut_btype main hb
  rw [if_neg hb]
  by_cases hj : ControlUnit.opcode word = ControlUnit.jtype
  · have hcontrol := ControlUnit.controlUnit_jtype hj
    rw [if_pos hj, ← Bench.immOut_jtype hj]
    exact aluOut_immediate main (by rw [hcontrol]) (by rw [hcontrol]; rfl)
  rw [if_neg hj]
  have hunknown : ¬ ControlUnit.KnownOpcode (ControlUnit.opcode word) := by
    simp [ControlUnit.KnownOpcode, hr, hi, hl, hs, hb, hj]
  by_cases hzero : word = 0#32
  · subst hzero
    exact aluOut_registers main rfl rfl
  · have hcontrol := ControlUnit.controlUnit_unknown hzero hunknown
    exact aluOut_registers main (by rw [hcontrol]; rfl)
      (by rw [hcontrol]; rfl)

end AluResult

/-! ## Loads -/

/-- The index which the data memory samples in a fetch phase. -/
def staleIndex (board : Board) : De1.MemoryIndex :=
  (aluResult board.main.regfile board.imemData).extractLsb 14 2

theorem dmemAddr_eq_staleIndex (board : Board) :
    De1.dmemAddr board.main board.imemData = board.staleIndex := by
  rw [De1.dmemAddr, aluOut_eq_aluResult]
  rfl

def loadIndex (board : Board) : De1.MemoryIndex :=
  (board.main.regfile.readRegOut (Isa.rs1 board.imemData) +
    (Isa.immI board.imemData).signExtend 32).extractLsb 14 2

/-- The edge which ends the execute phase writes the stored word. -/
def LoadsStored (mode : ReadDuringWrite) (board : Board) : Prop :=
  (board.posedgeClk mode true).main.regfile.regs
      (Isa.rd board.imemData) =
    board.dataMemory.mem board.loadIndex

section Loads

variable {mode : ReadDuringWrite} {board : Board}

theorem regs_of_load (hphase : board.main.executeCycle = true)
    (hop : ControlUnit.opcode board.imemData = ControlUnit.loadType)
    (hrd : Isa.rd board.imemData ≠ 0#5) :
    (board.posedgeClk mode true).main.regfile.regs
        (Isa.rd board.imemData) =
      board.dmemRdata := by
  have hcontrol := ControlUnit.controlUnit_loadType hop
  have hwrite :
      (board.posedgeClk mode true).main.regfile =
        if (controlUnit board.imemData).regWrite then
          board.main.regfile.write (Isa.rd board.imemData)
            (board.main.writeData De1.arithmetic board.imemData
              board.dmemRdata)
        else board.main.regfile :=
    Main.always_execute_regfile rfl hphase
  rw [hwrite, Main.writeData, hcontrol]
  exact RegFile.write_regs_self hrd _ _

/-- Every execute phase follows a fetch phase, and a load in it is correct
exactly when the address computed in that fetch phase, from the word then on
the instruction port, selects a word equal to the requested one. -/
theorem loadsStored_iff (hreach : Reachable mode board)
    (hphase : board.main.executeCycle = true)
    (hop : ControlUnit.opcode board.imemData = ControlUnit.loadType)
    (hrd : Isa.rd board.imemData ≠ 0#5) :
    (∃ before, FetchBefore mode before board) ∧
      ∀ before, FetchBefore mode before board →
        (LoadsStored mode board ↔
          board.dataMemory.mem before.staleIndex =
            board.dataMemory.mem board.loadIndex) := by
  refine ⟨exists_fetchBefore hreach hphase, ?_⟩
  intro before hbefore
  rw [LoadsStored, regs_of_load hphase hop hrd, hbefore.dmemRdata_eq,
    dmemAddr_eq_staleIndex]

end Loads

/-- A data memory in which every word is its own index, and a program of a
no-operation followed by the given word. -/
def indexed (word : Word) : Board where
  main := Main.afterReset
  dataMemory :=
    { mem := fun index => index.setWidth 32
      readdata := 0#32 }
  programMemory :=
    { mem := fun index => if index = 0#13 then 0x00000013#32 else word
      readdata := 0#32 }

def secondExecute (word : Word) : Board :=
  Clocked.run (step .newData) (step .newData (indexed word) .key1Fall)
    [.clk true, .clk true, .clk true]

theorem reachable_secondExecute (word : Word) :
    Reachable .newData (secondExecute word) := by
  apply Clocked.Reachable.run
  exact .start ⟨indexed word, .key1Fall, .inr rfl, rfl⟩

theorem loadsStored_iff_secondExecute :
    (∃ before, FetchBefore .newData before (secondExecute 0x00002083#32)) ∧
      ∀ before,
        FetchBefore .newData before (secondExecute 0x00002083#32) →
          (LoadsStored .newData (secondExecute 0x00002083#32) ↔
            (secondExecute 0x00002083#32).dataMemory.mem
                before.staleIndex =
              (secondExecute 0x00002083#32).dataMemory.mem
                (secondExecute 0x00002083#32).loadIndex) := by
  have hword : (secondExecute 0x00002083#32).imemData = 0x00002083#32 := rfl
  refine loadsStored_iff (reachable_secondExecute _) rfl ?_ ?_
  · rw [hword]
    decide
  · rw [hword]
    decide

/-- `LW x1, 4(x0)` after the no-operation: the no-operation has addressed
word 0. -/
theorem not_loadsStored_secondExecute :
    Reachable .newData (secondExecute 0x00402083#32) ∧
      (secondExecute 0x00402083#32).main.executeCycle = true ∧
      (secondExecute 0x00402083#32).imemData = 0x00402083#32 ∧
      ¬ LoadsStored .newData (secondExecute 0x00402083#32) := by
  have hword : (secondExecute 0x00402083#32).imemData = 0x00402083#32 := rfl
  have hshown : (secondExecute 0x00402083#32).dmemRdata = 0#32 := rfl
  have hrequested :
      (secondExecute 0x00402083#32).dataMemory.mem
        (secondExecute 0x00402083#32).loadIndex = 1#32 := rfl
  refine ⟨reachable_secondExecute _, rfl, hword, ?_⟩
  intro hstored
  rw [LoadsStored, hrequested, regs_of_load rfl, hshown] at hstored
  · contradiction
  · rw [hword]
    decide
  · rw [hword]
    decide

end Board
end RiscvLogism
