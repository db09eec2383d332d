import RiscvLogism.BoardSemantics
import RiscvLogism.CoreRuns
import RiscvLogism.LogisimAgreement

/-!
# Runs of the drawn processor

A clock cycle of the drawing is one step of a machine which executes every
word as the SystemVerilog core does, up to the operations of the ALU, the
addresses of the RAM, the time at which the RAM is read and the all-zero word,
which is no instruction of its own.  On programs which touch none of these
differences the drawing in `n` cycles and the core in `2n` cycles compute the
same.
-/

namespace RiscvLogism
namespace Logisim

/-! ## Arithmetic -/

/-- The operation of the drawn ALU for a register-register word. -/
def operation (funct3 : BitVec 3) (funct7Bit5 : Bool) : AluOp :=
  if funct3 = 0b000#3 ∨ funct3 = 0b001#3 then
    if funct7Bit5 then .sub else .add
  else if funct3 = 0b100#3 then .xor
  else if funct3 = 0b101#3 then .add
  else if funct3 = 0b110#3 then .or
  else .and

/-- The ALU with the unused inputs of its multiplexer tied to the first
one. -/
def arithmetic : Arithmetic where
  aluCuOut := aluControlUnit
  aluZero := fun x y aluOps => aluZero (alu (x &&& y) x y aluOps)
  aluOut := fun x y aluOps => alu (x &&& y) x y aluOps

/-- A word for which the multiplexer selects an input that is connected. -/
def Driven (word : Word) : Prop :=
  Isa.opcode word = 0b0110011#7 →
    word.getLsbD 30 = true →
      Isa.funct3 word ≠ 0b010#3 ∧ Isa.funct3 word ≠ 0b011#3

instance (word : Word) : Decidable (Driven word) :=
  inferInstanceAs (Decidable (_ → _))

theorem aluControlUnit_add (funct3 : BitVec 3) (funct7 : Bool) :
    aluControlUnit 0b00#2 funct3 funct7 = 2#4 := by
  revert funct3 funct7
  decide

theorem aluControlUnit_sub (funct3 : BitVec 3) (funct7 : Bool) :
    aluControlUnit 0b01#2 funct3 funct7 = 6#4 := by
  revert funct3 funct7
  decide

theorem alu_func (x y : Word) (funct3 : BitVec 3) (funct7 : Bool) :
    alu (x &&& y) x y (aluControlUnit 0b10#2 funct3 funct7) =
      (operation funct3 funct7).denote x y := by
  have hcases :
      funct3 = 0#3 ∨ funct3 = 1#3 ∨ funct3 = 2#3 ∨ funct3 = 3#3 ∨
        funct3 = 4#3 ∨ funct3 = 5#3 ∨ funct3 = 6#3 ∨ funct3 = 7#3 := by
    revert funct3
    decide
  rcases hcases with rfl | rfl | rfl | rfl | rfl | rfl | rfl | rfl
  all_goals cases funct7 <;> rfl

theorem arithmetic_implements : arithmetic.Implements operation := by
  constructor
  · intro x y funct3 funct7
    change alu _ x y (aluControlUnit 0b00#2 funct3 funct7) = _
    rw [aluControlUnit_add]
    rfl
  · intro x y funct3 funct7
    change alu _ x y (aluControlUnit 0b01#2 funct3 funct7) = _
    rw [aluControlUnit_sub]
    rfl
  · exact alu_func
  · intro x y aluOps
    rfl

theorem aluControlUnit_driven {funct3 : BitVec 3} {funct7 : Bool}
    (hdriven : funct7 = true → funct3 ≠ 0b010#3 ∧ funct3 ≠ 0b011#3) :
    aluControlUnit 0b10#2 funct3 funct7 ∈
      [0b0000#4, 0b0001#4, 0b0010#4, 0b0011#4, 0b0110#4] := by
  revert funct3 funct7
  decide

theorem alu_congr {code : BitVec 4}
    (hcode : code ∈ [0b0000#4, 0b0001#4, 0b0010#4, 0b0011#4, 0b0110#4])
    (undriven undriven' x y : Word) :
    alu undriven x y code = alu undriven' x y code :=
  (alus_of_code hcode undriven x y).1.trans
    (alus_of_code hcode undriven' x y).1.symm

/-! ## The machine -/

/-- The registers as the interpreter sees them. -/
def RegFile.isaRegs (regfile : RegFile) : Isa.Regs where
  get := regfile.readRegOut
  get_zero := rfl

namespace Single

/-- The architectural state, with the word in the output register of the RAM
if it is clocked. -/
@[ext] structure State where
  pc : Word
  regs : Isa.Regs
  ram : BitVec 8 → Word
  shown : Word

def State.initial (ram : BitVec 8 → Word) (shown : Word) : State where
  pc := 0#32
  regs := .zeros
  ram := ram
  shown := shown

section Step

variable (undriven : Undriven) (read : RamRead) (rom : Rom)

/-- What the ALU makes of a word, apart from register-register words the same
as on the board. -/
def aluResult (regs : Isa.Regs) (word : Word) : Word :=
  if Isa.opcode word = 0b0110011#7 then
    (operation (Isa.funct3 word) (word.getLsbD 30)).denote
      (regs.get (Isa.rs1 word)) (regs.get (Isa.rs2 word))
  else if RiscvLogism.ControlUnit.KnownOpcode (Isa.opcode word) then
    Board.aluResult regs.regfile word
  else undriven.aluOut

def ramAddr (regs : Isa.Regs) (word : Word) : BitVec 8 :=
  (aluResult undriven regs word).extractLsb 7 0

def loaded (state : State) (word : Word) : Word :=
  match read with
  | .asynchronous => state.ram (ramAddr undriven state.regs word)
  | .synchronous _ => state.shown

/-- The state a word sees, whatever address it would like to load from. -/
def seen (state : State) (word : Word) : Isa.State where
  pc := state.pc
  regs := state.regs
  ram := fun _ => loaded undriven read state word

def stored (state : State) (word : Word) : BitVec 8 → Word :=
  match CoreIsa.store state.regs word with
  | some (address, data) =>
      Function.update state.ram (address.extractLsb 7 0) data
  | none => state.ram

/-- What a clocked RAM shows to the next load: only a load reads it. -/
def sampled (state : State) (word : Word) : Word :=
  if Isa.opcode word = 0b0000011#7 then
    match read with
    | .asynchronous => state.shown
    | .synchronous _ => state.ram (ramAddr undriven state.regs word)
  else state.shown

/-- The all-zero word is skipped like any word of an unknown opcode. -/
def exec (state : State) (word : Word) : State :=
  let seen := seen undriven read state word
  let next :=
    if word = 0#32 then { seen with pc := state.pc + 4#32 }
    else CoreIsa.exec operation seen word
  { pc := next.pc
    regs := next.regs
    ram := stored state word
    shown := sampled undriven read state word }

def step (state : State) : State :=
  exec undriven read state (rom ((state.pc >>> 2).extractLsb 7 0))

end Step

end Single

/-! ## The drawing runs it -/

theorem RegFile.isaRegs_clk (regfile : RegFile) {inputs : RegFile.Inputs}
    (hreset : inputs.areset = false) :
    (regfile.clk inputs).isaRegs =
      if inputs.regWriteEna then
        regfile.isaRegs.set inputs.writeRegAddr inputs.data
      else regfile.isaRegs := by
  have hreg : ∀ index : { index : RegIndex // index ≠ 0#5 },
      (regfile.clk inputs).regs index =
        if (index : RegIndex) = inputs.writeRegAddr ∧
            inputs.regWriteEna = true then inputs.data
        else regfile.regs index := by
    intro index
    rw [RegFile.clk, hreset]
    exact Parts.registers_of_decoder Subtype.val _ _ _ _ index
  apply Isa.Regs.ext
  funext index
  by_cases hindex : index = 0#5
  · subst hindex
    rw [Isa.Regs.get_zero, Isa.Regs.get_zero]
  · have hline : ∀ state : RegFile,
        state.isaRegs.get index = state.regs ⟨index, hindex⟩ :=
      fun _ => dif_pos hindex
    rw [hline, hreg]
    cases inputs.regWriteEna with
    | false => simp [hline]
    | true =>
        by_cases hsame : index = inputs.writeRegAddr
        · subst hsame
          simp [hindex]
        · simp [hsame, hline]

namespace Main

def single (main : Main) : Single.State where
  pc := main.pc
  regs := main.regfile.isaRegs
  ram := main.ram
  shown := main.ramOut

/-- The SystemVerilog core in an execute phase with the same registers, and a
data memory which holds one word everywhere. -/
def bench (main : Main) (loaded : Word) : Bench where
  main :=
    { pc := { addr := main.pc }
      regfile := main.regfile.isaRegs.regfile
      executeCycle := true }
  ram := fun _ => loaded

section Wires

variable {undriven : Undriven} {read : RamRead} {rom : Rom} (main : Main)

theorem isaRegs_bench (loaded : Word) :
    (main.bench loaded).main.regfile.isaRegs = main.regfile.isaRegs := by
  apply Isa.Regs.ext
  funext index
  exact main.regfile.isaRegs.readRegOut_regfile index

theorem immOut_eq :
    main.immOut rom = RiscvLogism.Main.immOut (main.instruction rom) := by
  rw [immOut, control, immGen_eq, controlUnit_eq]
  rfl

theorem readRegOut1_eq (loaded : Word) :
    main.readRegOut1 rom =
      (main.bench loaded).main.readRegOut1 (main.instruction rom) :=
  (main.regfile.isaRegs.readRegOut_regfile _).symm

theorem readRegOut2_eq (loaded : Word) :
    main.readRegOut2 rom =
      (main.bench loaded).main.readRegOut2 (main.instruction rom) :=
  (main.regfile.isaRegs.readRegOut_regfile _).symm

theorem aluBMux_eq (loaded : Word) :
    main.aluBMux rom =
      (main.bench loaded).main.aluBMux (main.instruction rom) := by
  rw [aluBMux, RiscvLogism.Main.aluBMux, immOut_eq, readRegOut2_eq _ loaded,
    control, controlUnit_eq]

theorem aluOut_of_known (loaded : Word)
    (hdriven : Driven (main.instruction rom))
    (hknown : RiscvLogism.ControlUnit.KnownOpcode
      (Isa.opcode (main.instruction rom))) :
    main.aluOut undriven rom =
      (main.bench loaded).main.aluOut arithmetic (main.instruction rom) := by
  let word := main.instruction rom
  let x := main.readRegOut1 rom
  let y := main.aluBMux rom
  let code := aluControlUnit (RiscvLogism.controlUnit word).aluOps
    (word.extractLsb 14 12) (word.getLsbD 30)
  have hdrawn : main.aluOut undriven rom = alu undriven.aluOut x y code := by
    have hops : (main.control rom).aluOps =
        some (RiscvLogism.controlUnit word).aluOps := by
      rw [control, controlUnit_eq]
      exact if_pos hknown
    rw [aluOut, hops]
  have hcode :
      code ∈ [0b0000#4, 0b0001#4, 0b0010#4, 0b0011#4, 0b0110#4] := by
    rcases RiscvLogism.ControlUnit.aluOps_cases word with hr | hadd | hsub
    · have hops : (RiscvLogism.controlUnit word).aluOps = 0b10#2 := by
        rw [RiscvLogism.ControlUnit.controlUnit_rtype hr]
      change aluControlUnit _ _ _ ∈ _
      rw [hops]
      exact aluControlUnit_driven (hdriven hr)
    · change aluControlUnit _ _ _ ∈ _
      rw [hadd, aluControlUnit_add]
      decide
    · change aluControlUnit _ _ _ ∈ _
      rw [hsub, aluControlUnit_sub]
      decide
  have hx : x = (main.bench loaded).main.readRegOut1 word :=
    main.readRegOut1_eq loaded
  have hy : y = (main.bench loaded).main.aluBMux word :=
    main.aluBMux_eq loaded
  rw [hdrawn, alu_congr hcode undriven.aluOut (x &&& y), hx, hy]
  rfl

theorem aluOut_of_unknown
    (hunknown : ¬ RiscvLogism.ControlUnit.KnownOpcode
      (Isa.opcode (main.instruction rom))) :
    main.aluOut undriven rom = undriven.aluOut := by
  have hops : (main.control rom).aluOps = none := by
    rw [control, controlUnit_eq]
    exact if_neg hunknown
  rw [aluOut, hops]

theorem loadAddress_eq (loaded : Word)
    (hdriven : Driven (main.instruction rom)) :
    main.loadAddress undriven rom =
      (main.bench loaded).main.loadAddress arithmetic
        (main.instruction rom) := by
  by_cases hknown : RiscvLogism.ControlUnit.KnownOpcode
      (Isa.opcode (main.instruction rom))
  · rw [loadAddress, main.aluOut_of_known loaded hdriven hknown, control,
      controlUnit_eq, Bool.or_comm, Bool.and_comm]
    rfl
  · have hdrawn := controlUnit_of_unknown hknown
    have hoff := controlUnit_eq (main.instruction rom)
    rw [hdrawn] at hoff
    have hbranch :
        (RiscvLogism.controlUnit (main.instruction rom)).branch = false :=
      (congrArg ControlOutputs.branch hoff).symm
    have hjump :
        (RiscvLogism.controlUnit (main.instruction rom)).jump = false :=
      (congrArg ControlOutputs.jump hoff).symm
    rw [loadAddress, control, hdrawn, RiscvLogism.Main.loadAddress, hbranch,
      hjump]
    simp

theorem aluResult_eq (hdriven : Driven (main.instruction rom)) :
    Single.aluResult undriven main.single.regs (main.instruction rom) =
      main.aluOut undriven rom := by
  let word := main.instruction rom
  change Single.aluResult undriven main.regfile.isaRegs word = _
  rw [Single.aluResult]
  by_cases hr : Isa.opcode word = 0b0110011#7
  · have hknown : RiscvLogism.ControlUnit.KnownOpcode (Isa.opcode word) :=
      .inl hr
    have hout := arithmetic_implements.aluOut_rtype (main.bench 0#32).main hr
    have hread : ∀ index,
        (main.bench 0#32).main.regfile.readRegOut index =
          main.regfile.isaRegs.get index := by
      intro index
      exact main.regfile.isaRegs.readRegOut_regfile index
    rw [if_pos hr, main.aluOut_of_known 0#32 hdriven hknown, hout, hread,
      hread]
  · rw [if_neg hr]
    by_cases hknown : RiscvLogism.ControlUnit.KnownOpcode (Isa.opcode word)
    · have hrtl := arithmetic_implements.aluOut_of_not_rtype
        (main.bench 0#32).main hr
      have hde1 := De1.arithmetic_implements.aluOut_of_not_rtype
        (main.bench 0#32).main hr
      rw [if_pos hknown, main.aluOut_of_known 0#32 hdriven hknown, hrtl,
        ← hde1, Board.aluOut_eq_aluResult]
      rfl
    · rw [if_neg hknown, main.aluOut_of_unknown hknown]

theorem ramWritten_eq (hdriven : Driven (main.instruction rom)) :
    main.ramWritten undriven rom =
      Single.stored main.single (main.instruction rom) := by
  let word := main.instruction rom
  have hstore := arithmetic_implements.store_eq (main.bench 0#32).main word
  rw [main.isaRegs_bench] at hstore
  have hwrite : (main.control rom).memWrite =
      (RiscvLogism.controlUnit word).memWrite := by
    rw [control, controlUnit_eq]
  change main.ramWritten undriven rom =
    match CoreIsa.store main.regfile.isaRegs word with
    | some (address, data) =>
        Function.update main.ram (address.extractLsb 7 0) data
    | none => main.ram
  rw [← hstore, ramWritten, hwrite]
  cases hstype : (RiscvLogism.controlUnit word).memWrite with
  | false => rfl
  | true =>
      have hop : Isa.opcode word = 0b0100011#7 :=
        (RiscvLogism.ControlUnit.memWrite_iff word).mp hstype
      have hknown : RiscvLogism.ControlUnit.KnownOpcode (Isa.opcode word) :=
        .inr (.inr (.inr (.inl hop)))
      simp only [if_true]
      rw [ramAddr, main.aluOut_of_known 0#32 hdriven hknown,
        main.readRegOut2_eq 0#32]
      rfl

theorem memRead_iff :
    (main.control rom).memRead = true ↔
      Isa.opcode (main.instruction rom) = 0b0000011#7 :=
  beq_iff_eq

theorem ramWritten_of_memRead (hread : (main.control rom).memRead = true) :
    main.ramWritten undriven rom = main.ram := by
  have hload : ControlUnit.opCode (main.instruction rom) = 0b0000011#7 :=
    main.memRead_iff.mp hread
  have hwrite : (main.control rom).memWrite = false := by
    change Parts.comparator (ControlUnit.opCode (main.instruction rom)) _ = _
    rw [hload]
    decide
  rw [ramWritten, hwrite]
  rfl

theorem ramData_eq (hdriven : Driven (main.instruction rom))
    (hread : (main.control rom).memRead = true) :
    main.ramData undriven read rom =
      Single.loaded undriven read main.single (main.instruction rom) := by
  unfold ramData Single.loaded Single.ramAddr
  rw [if_pos hread, main.aluResult_eq hdriven]
  rfl

theorem memtoRegMux_eq (hdriven : Driven (main.instruction rom))
    (hwrite : (main.control rom).regWrite = true) :
    let loaded :=
      Single.loaded undriven read main.single (main.instruction rom)
    main.memtoRegMux undriven read rom =
      (main.bench loaded).main.writeData arithmetic (main.instruction rom)
        loaded := by
  intro loaded
  have hcontrol := controlUnit_eq (main.instruction rom)
  have hknown : RiscvLogism.ControlUnit.KnownOpcode
      (Isa.opcode (main.instruction rom)) := by
    apply RiscvLogism.ControlUnit.knownOpcode_of_signal
      RiscvLogism.ControlOutputs.regWrite (fun _ => rfl)
    rw [← hwrite, control, hcontrol]
  have hmemtoReg :
      (main.control rom).memtoReg =
        (RiscvLogism.controlUnit (main.instruction rom)).memtoReg := by
    rw [control, hcontrol]
  rw [memtoRegMux, RiscvLogism.Main.writeData, ← hmemtoReg]
  by_cases hload : (main.control rom).memtoReg = true
  · rw [if_pos hload, if_pos hload]
    exact main.ramData_eq hdriven hload
  · rw [if_neg hload, if_neg hload]
    exact main.aluOut_of_known loaded hdriven hknown

end Wires

section Clock

variable {undriven : Undriven} {read : RamRead} {rom : Rom} (main : Main)

theorem pc_clk (loaded : Word) (hdriven : Driven (main.instruction rom)) :
    (main.clk undriven read rom false true).pc =
      if (main.bench loaded).main.loadAddress arithmetic
          (main.instruction rom) then
        main.pc + RiscvLogism.Main.immOut (main.instruction rom)
      else main.pc + 4#32 := by
  have hload : main.loadAddress undriven rom = _ :=
    main.loadAddress_eq loaded hdriven
  rw [← hload, ← main.immOut_eq]
  rfl

theorem isaRegs_clk (hdriven : Driven (main.instruction rom)) :
    let loaded :=
      Single.loaded undriven read main.single (main.instruction rom)
    (main.clk undriven read rom false true).regfile.isaRegs =
      if (RiscvLogism.controlUnit (main.instruction rom)).regWrite then
        main.regfile.isaRegs.set (Isa.rd (main.instruction rom))
          ((main.bench loaded).main.writeData arithmetic
            (main.instruction rom) loaded)
      else main.regfile.isaRegs := by
  intro loaded
  have hwrite :
      (main.control rom).regWrite =
        (RiscvLogism.controlUnit (main.instruction rom)).regWrite := by
    rw [control, controlUnit_eq]
  have hclk : (main.clk undriven read rom false true).regfile =
      main.regfile.clk (main.regfileInputs undriven read rom false) := rfl
  rw [hclk, RegFile.isaRegs_clk _ rfl, ← hwrite]
  by_cases hset : (main.control rom).regWrite = true
  · have hdata : main.memtoRegMux undriven read rom = _ :=
      main.memtoRegMux_eq hdriven hset
    rw [if_pos hset, ← hdata]
    exact if_pos hset
  · rw [if_neg hset]
    exact if_neg hset

theorem isaState_bench (word : Word) :
    (main.bench (Single.loaded undriven read main.single word)).isaState =
      Single.seen undriven read main.single word := by
  apply Isa.State.ext
  · rfl
  · exact main.isaRegs_bench _
  · rfl

/-- The program counter and the registers after a cycle. -/
theorem clk_eq_exec (hdriven : Driven (main.instruction rom))
    (hne : main.instruction rom ≠ 0#32) :
    let next := CoreIsa.exec operation
      (Single.seen undriven read main.single (main.instruction rom))
      (main.instruction rom)
    (main.clk undriven read rom false true).pc = next.pc ∧
      (main.clk undriven read rom false true).regfile.isaRegs =
        next.regs := by
  let word := main.instruction rom
  let loaded := Single.loaded undriven read main.single word
  intro next
  have hexec :
      ((main.bench loaded).executed arithmetic word).isaState = next := by
    rw [(main.bench loaded).isaState_executed_word arithmetic_implements,
      main.isaState_bench]
  have hhalt : RiscvLogism.Main.halt word = false := by
    rw [RiscvLogism.Main.halt,
      RiscvLogism.ControlUnit.controlUnit_haltDetected]
    exact beq_false_of_ne hne
  constructor
  · rw [main.pc_clk loaded hdriven, ← hexec]
    change _ = if RiscvLogism.Main.halt word then _ else _
    rw [hhalt]
    rfl
  · have hregs :
        (main.clk undriven read rom false true).regfile.isaRegs = _ :=
      main.isaRegs_clk hdriven
    have hwritten :
        ((main.bench loaded).executed arithmetic word).main.regfile =
          if (RiscvLogism.controlUnit word).regWrite then
            (main.bench loaded).main.regfile.write (Isa.rd word)
              ((main.bench loaded).main.writeData arithmetic word loaded)
          else (main.bench loaded).main.regfile := rfl
    rw [hregs, ← hexec, Bench.isaState_regs, hwritten]
    by_cases hset : (RiscvLogism.controlUnit word).regWrite = true
    · rw [if_pos hset, if_pos hset, RiscvLogism.RegFile.isaRegs_write,
        main.isaRegs_bench]
    · rw [if_neg hset, if_neg hset, main.isaRegs_bench]

theorem clk_eq_skip (hzero : main.instruction rom = 0#32) :
    (main.clk undriven read rom false true).pc = main.pc + 4#32 ∧
      (main.clk undriven read rom false true).regfile.isaRegs =
        main.regfile.isaRegs := by
  have hdriven : Driven (main.instruction rom) := by
    rw [hzero]
    decide
  constructor
  · rw [main.pc_clk 0#32 hdriven, hzero]
    rfl
  · have hregs :
        (main.clk undriven read rom false true).regfile.isaRegs = _ :=
      main.isaRegs_clk hdriven
    rw [hregs, hzero]
    rfl

/-- The RAM is not written while it is read, so that it makes no difference
what it shows during a write. -/
theorem ramSampled_eq (hdriven : Driven (main.instruction rom)) :
    main.ramSampled undriven read rom =
      Single.sampled undriven read main.single (main.instruction rom) := by
  have haddr : main.ramAddr undriven rom =
      Single.ramAddr undriven main.single.regs (main.instruction rom) := by
    rw [ramAddr, Single.ramAddr, main.aluResult_eq hdriven]
  unfold ramSampled Single.sampled
  by_cases hread : (main.control rom).memRead = true
  · rw [if_pos hread, if_pos (main.memRead_iff.mp hread),
      main.ramWritten_of_memRead hread, haddr]
    cases read with
    | asynchronous => rfl
    | synchronous mode => cases mode <;> rfl
  · rw [if_neg hread, if_neg (main.memRead_iff.not.mp hread)]
    rfl

/-- One clock cycle of the drawing. -/
theorem single_clk (hdriven : Driven (main.instruction rom)) :
    (main.clk undriven read rom false true).single =
      Single.step undriven read rom main.single := by
  have hnext :
      (main.clk undriven read rom false true).pc =
          (Single.exec undriven read main.single
            (main.instruction rom)).pc ∧
        (main.clk undriven read rom false true).regfile.isaRegs =
          (Single.exec undriven read main.single
            (main.instruction rom)).regs := by
    unfold Single.exec
    dsimp only
    by_cases hzero : main.instruction rom = 0#32
    · rw [if_pos hzero]
      exact main.clk_eq_skip hzero
    · rw [if_neg hzero]
      exact main.clk_eq_exec hdriven hzero
  apply Single.State.ext
  · exact hnext.1
  · exact hnext.2
  · exact main.ramWritten_eq hdriven
  · exact main.ramSampled_eq hdriven

end Clock

end Main

def Event.isReset : Event → Bool
  | .clk areset _ => areset
  | .aresetRise => true

namespace Main

section Runs

variable (undriven : Undriven) (read : RamRead) (rom : Rom)

theorem single_of_reset {before : Main} {event : Event}
    (hreset : event.isReset = true) :
    let main := step undriven read rom before event
    main.single = Single.State.initial main.ram main.ramOut := by
  intro main
  have hcleared : main.pc = 0#32 ∧
      main.regfile = { regs := fun _ => 0#32 } := by
    cases event with
    | clk areset pcEnable =>
        obtain rfl : areset = true := hreset
        exact ⟨rfl, rfl⟩
    | aresetRise => exact ⟨rfl, rfl⟩
  have hzeros :
      RegFile.isaRegs { regs := fun _ => 0#32 } = Isa.Regs.zeros := by
    apply Isa.Regs.ext
    funext index
    change RegFile.line _ index = 0#32
    unfold RegFile.line
    split_ifs <;> rfl
  apply Single.State.ext
  · exact hcleared.1
  · exact (congrArg RegFile.isaRegs hcleared.2).trans hzeros
  · rfl
  · rfl

theorem single_run (hdriven : ∀ index, Driven (rom index)) (main : Main)
    (k : ℕ) :
    (Clocked.run (step undriven read rom) main
        (List.replicate k (.clk false true))).single =
      (Single.step undriven read rom)^[k] main.single := by
  rw [Clocked.run_replicate]
  exact Clocked.iterate_commutes (fun _ => True) Main.single
    (fun _ _ => trivial) (fun now _ => now.single_clk (hdriven _)) k trivial

/-- From any reset on, in any state and with either way of reading the RAM,
the drawing makes one step of the machine in every clock cycle, provided that
no word of the ROM selects an input of the multiplexer that is not
connected. -/
theorem run_refines_single (hdriven : ∀ index, Driven (rom index))
    (before : Main) {event : Event} (hreset : event.isReset = true)
    (k : ℕ) :
    let main := step undriven read rom before event
    (Clocked.run (step undriven read rom) main
        (List.replicate k (.clk false true))).single =
      (Single.step undriven read rom)^[k]
        (Single.State.initial main.ram main.ramOut) := by
  intro main
  have hinitial : main.single =
      Single.State.initial main.ram main.ramOut :=
    single_of_reset undriven read rom hreset
  rw [← hinitial]
  exact single_run undriven read rom hdriven main k

/-- Five cycles of an increment, the RAM being clocked. -/
theorem run_refines_single_addi :
    let rom : Rom := fun _ => 0x00108093#32
    let undriven : Undriven := { aluOut := 7#32, ramData := 7#32 }
    let before : Main :=
      { pc := 8#32, regfile := { regs := fun _ => 7#32 }
        ram := fun _ => 1#32, ramOut := 7#32 }
    let main := step undriven (.synchronous .oldData) rom before .aresetRise
    (Clocked.run (step undriven (.synchronous .oldData) rom) main
        (List.replicate 5 (.clk false true))).single =
      (Single.step undriven (.synchronous .oldData) rom)^[5]
        (Single.State.initial main.ram main.ramOut) := by
  intro rom undriven before main
  have hdriven : ∀ index, Driven (rom index) := by
    intro index
    change Driven 0x00108093#32
    decide
  exact run_refines_single undriven (.synchronous .oldData) rom hdriven
    before rfl 5

end Runs

end Main

/-! ## The drawing and the core -/

namespace Single

/-- The ROM of the drawing in the address space of the core, which it
fills over and over again. -/
def repeated (rom : Rom) : Memory := fun index => rom (index.extractLsb 7 0)

/-- Where the drawn RAM keeps a word of the data memory of the core. -/
def byteIndex (index : Word) : BitVec 8 := (index <<< 2).extractLsb 7 0

/-- The address which a word loads from or stores to. -/
def access (regs : Isa.Regs) (word : Word) : Option Word :=
  if Isa.opcode word = 0b0000011#7 then
    some (regs.get (Isa.rs1 word) + (Isa.immI word).signExtend 32)
  else if Isa.opcode word = 0b0100011#7 then
    some (regs.get (Isa.rs1 word) + (Isa.immS word).signExtend 32)
  else none

/-- A word which does not depend on what the drawing and the core do
differently: it is no halt, its operation is one of both ALUs, its data is
aligned and within the drawn RAM, and it loads only if the RAM answers at
once. -/
structure Shared (read : RamRead) (regs : Isa.Regs) (word : Word) :
    Prop where
  nonzero : word ≠ 0#32
  common : De1.CommonWord word
  aligned : ∀ address ∈ access regs word,
    address.toNat % 4 = 0 ∧ address.toNat < 256
  prompt : Isa.opcode word = 0b0000011#7 → read = .asynchronous

instance (read : RamRead) (regs : Isa.Regs) (word : Word) :
    Decidable (Shared read regs word) :=
  decidable_of_iff
    (word ≠ 0#32 ∧
      (Isa.opcode word = 0b0110011#7 → De1.CommonFunct3 (Isa.funct3 word)) ∧
      (access regs word).all
        (fun address =>
          address.toNat % 4 = 0 ∧ address.toNat < 256) = true ∧
      (Isa.opcode word = 0b0000011#7 → read = .asynchronous))
    ⟨fun ⟨hne, hcommon, haligned, hprompt⟩ =>
        ⟨hne, hcommon,
          fun address haccess => of_decide_eq_true
            ((Option.all_eq_true _ _).mp haligned address haccess),
          hprompt⟩,
      fun h =>
        ⟨h.nonzero, h.common,
          (Option.all_eq_true _ _).mpr fun address haccess =>
            decide_eq_true (h.aligned address haccess),
          h.prompt⟩⟩

structure Tracks (isa : Isa.State) (single : State) : Prop where
  pc : single.pc = isa.pc
  regs : single.regs = isa.regs
  ram : ∀ index : Word, index.toNat < 64 →
    single.ram (byteIndex index) = isa.ram index

section Indices

theorem byteIndex_toNat {index : Word} (hlt : index.toNat < 64) :
    (byteIndex index).toNat = 4 * index.toNat := by
  have hshift : index.toNat <<< 2 = 4 * index.toNat := by
    rw [Nat.shiftLeft_eq]
    omega
  simp only [byteIndex, BitVec.extractLsb_toNat, BitVec.toNat_shiftLeft,
    hshift, Nat.shiftRight_zero]
  omega

theorem low_toNat {address : Word} (hlt : address.toNat < 256) :
    (address.extractLsb 7 0).toNat = address.toNat := by
  simp only [BitVec.extractLsb_toNat, Nat.shiftRight_zero]
  omega

theorem shifted_toNat (address : Word) :
    (address >>> 2).toNat = address.toNat / 4 := by
  rw [BitVec.toNat_ushiftRight, Nat.shiftRight_eq_div_pow]

theorem byteIndex_shifted {address : Word}
    (haligned : address.toNat % 4 = 0) (hlt : address.toNat < 256) :
    byteIndex (address >>> 2) = address.extractLsb 7 0 := by
  have hindex : (address >>> 2).toNat < 64 := by
    rw [shifted_toNat]
    omega
  apply BitVec.eq_of_toNat_eq
  rw [byteIndex_toNat hindex, low_toNat hlt, shifted_toNat]
  omega

theorem byteIndex_eq_iff {index index' : Word} (hlt : index.toNat < 64)
    (hlt' : index'.toNat < 64) :
    byteIndex index = byteIndex index' ↔ index = index' := by
  constructor
  · intro heq
    have hnat := congrArg BitVec.toNat heq
    rw [byteIndex_toNat hlt, byteIndex_toNat hlt'] at hnat
    apply BitVec.eq_of_toNat_eq
    omega
  · intro heq
    rw [heq]

end Indices

section Words

variable {word : Word}

theorem operation_of_common {funct3 : BitVec 3}
    (hcommon : De1.CommonFunct3 funct3) (funct7Bit5 : Bool) :
    operation funct3 funct7Bit5 = funcOp funct3 funct7Bit5 := by
  rcases hcommon with rfl | rfl | rfl | rfl
  all_goals cases funct7Bit5 <;> rfl

theorem instr_of_common (hcommon : De1.CommonWord word) :
    CoreIsa.instr operation word = CoreIsa.instr funcOp word := by
  by_cases hop : Isa.opcode word = 0b0110011#7
  · have hfunct3 : De1.CommonFunct3 (Isa.funct3 word) := hcommon hop
    rw [CoreIsa.instr_rtype hop, CoreIsa.instr_rtype hop,
      operation_of_common hfunct3]
  · rw [CoreIsa.instr_of_not_rtype hop, CoreIsa.instr_of_not_rtype hop]

theorem driven_of_common (hcommon : De1.CommonWord word) : Driven word := by
  intro hop _
  have hfunct3 : De1.CommonFunct3 (Isa.funct3 word) := hcommon hop
  generalize Isa.funct3 word = funct3 at hfunct3
  revert funct3
  decide

theorem access_of_store {regs : Isa.Regs} {address data : Word}
    (hstore : CoreIsa.store regs word = some (address, data)) :
    access regs word = some address := by
  unfold CoreIsa.store at hstore
  split_ifs at hstore with hop
  obtain ⟨rfl, rfl⟩ := Prod.mk.inj (Option.some.inj hstore)
  rw [access, if_neg (by rw [hop]; decide), if_pos hop]

theorem ramAddr_of_access {undriven : Undriven} {regs : Isa.Regs}
    {address : Word} (haccess : access regs word = some address) :
    ramAddr undriven regs word = address.extractLsb 7 0 := by
  have hknown : ∀ op : BitVec 7, op = 0b0000011#7 ∨ op = 0b0100011#7 →
      RiscvLogism.ControlUnit.KnownOpcode op := by
    rintro op (rfl | rfl)
    · exact .inr (.inr (.inl rfl))
    · exact .inr (.inr (.inr (.inl rfl)))
  have hresult : aluResult undriven regs word = address := by
    unfold access at haccess
    split_ifs at haccess with hload hstore
    · obtain rfl := Option.some.inj haccess
      have hop : RiscvLogism.ControlUnit.opcode word = 0b0000011#7 := hload
      rw [aluResult, if_neg (by rw [hload]; decide),
        if_pos (hknown _ (.inl hload))]
      simp [Board.aluResult, hop, RiscvLogism.ControlUnit.rtype,
        RiscvLogism.ControlUnit.itype, RiscvLogism.ControlUnit.loadType]
    · obtain rfl := Option.some.inj haccess
      have hop : RiscvLogism.ControlUnit.opcode word = 0b0100011#7 := hstore
      rw [aluResult, if_neg (by rw [hstore]; decide),
        if_pos (hknown _ (.inr hstore))]
      simp [Board.aluResult, hop, RiscvLogism.ControlUnit.rtype,
        RiscvLogism.ControlUnit.itype, RiscvLogism.ControlUnit.loadType,
        RiscvLogism.ControlUnit.stype]
  rw [ramAddr, hresult]

end Words

section Step

variable {undriven : Undriven} {read : RamRead} {rom : Rom}
  {isa : Isa.State} {single : State}

theorem Tracks.loaded (htracks : Tracks isa single)
    (hshared : Shared read isa.regs (repeated rom (isa.pc >>> 2)))
    {rd base : RegIndex} {offset : BitVec 12}
    (hinstr : CoreIsa.instr funcOp (repeated rom (isa.pc >>> 2)) =
      some (.lw rd base offset)) :
    loaded undriven read single (repeated rom (isa.pc >>> 2)) =
      isa.ram ((isa.regs.get base + offset.signExtend 32) >>> 2) := by
  obtain ⟨hop, rfl, rfl⟩ := CoreIsa.lw_fields hinstr
  have haccess : access isa.regs (repeated rom (isa.pc >>> 2)) = some _ :=
    if_pos hop
  obtain ⟨haligned, hlt⟩ := hshared.aligned _ haccess
  have hindex : ∀ address : Word, address.toNat < 256 →
      (address >>> 2).toNat < 64 := by
    intro address hlt
    rw [shifted_toNat]
    omega
  obtain rfl := hshared.prompt hop
  change single.ram (ramAddr undriven single.regs _) = _
  rw [htracks.regs, ramAddr_of_access haccess,
    ← byteIndex_shifted haligned hlt, htracks.ram _ (hindex _ hlt)]

theorem Tracks.stored (htracks : Tracks isa single)
    (hshared : Shared read isa.regs (repeated rom (isa.pc >>> 2)))
    {index : Word} (hlt : index.toNat < 64) :
    stored single (repeated rom (isa.pc >>> 2)) (byteIndex index) =
      (CoreIsa.step funcOp (repeated rom) isa).ram index := by
  rw [CoreIsa.step, CoreIsa.exec_ram, Single.stored, htracks.regs]
  cases hstore : CoreIsa.store isa.regs (repeated rom (isa.pc >>> 2)) with
  | none => exact htracks.ram index hlt
  | some write =>
      obtain ⟨address, data⟩ := write
      have haccess := access_of_store hstore
      obtain ⟨haligned, haddress⟩ := hshared.aligned address haccess
      have hwritten : (address >>> 2).toNat < 64 := by
        rw [shifted_toNat]
        omega
      dsimp only
      rw [← byteIndex_shifted haligned haddress]
      simp only [Function.update_apply, byteIndex_eq_iff hlt hwritten,
        htracks.ram index hlt]

theorem Tracks.step (htracks : Tracks isa single)
    (hshared : Shared read isa.regs (repeated rom (isa.pc >>> 2))) :
    Tracks (CoreIsa.step funcOp (repeated rom) isa)
      (Single.step undriven read rom single) := by
  have hword : rom ((single.pc >>> 2).extractLsb 7 0) =
      repeated rom (isa.pc >>> 2) := by
    rw [htracks.pc, repeated]
  let before := seen undriven read single (repeated rom (isa.pc >>> 2))
  have hsame := CoreIsa.exec_of_instr_eq (instr_of_common hshared.common)
    before
  have hnext :
      (CoreIsa.exec funcOp before (repeated rom (isa.pc >>> 2))).pc =
          (CoreIsa.step funcOp (repeated rom) isa).pc ∧
        (CoreIsa.exec funcOp before (repeated rom (isa.pc >>> 2))).regs =
          (CoreIsa.step funcOp (repeated rom) isa).regs := by
    apply CoreIsa.exec_congr htracks.pc htracks.regs
    intro rd base offset hinstr
    exact htracks.loaded hshared hinstr
  have hexec :
      (Single.exec undriven read single (repeated rom (isa.pc >>> 2))).pc =
          (CoreIsa.step funcOp (repeated rom) isa).pc ∧
        (Single.exec undriven read single
            (repeated rom (isa.pc >>> 2))).regs =
          (CoreIsa.step funcOp (repeated rom) isa).regs := by
    unfold exec
    dsimp only
    rw [if_neg hshared.nonzero, hsame]
    exact hnext
  rw [Single.step, hword]
  constructor
  · exact hexec.1
  · exact hexec.2
  · intro index hlt
    exact htracks.stored hshared hlt

end Step

end Single

namespace Main

section Agreement

variable {undriven : Undriven} {read : RamRead} {rom : Rom}

theorem tracks_clk {main : Main} {isa : Isa.State}
    (hshared : Single.Shared read isa.regs
      (Single.repeated rom (isa.pc >>> 2)))
    (htracks : Single.Tracks isa main.single) :
    Single.Tracks (CoreIsa.step funcOp (Single.repeated rom) isa)
      (main.clk undriven read rom false true).single := by
  have hpc : main.pc = isa.pc := htracks.pc
  have hdriven : Driven (main.instruction rom) := by
    rw [instruction, romAddr, hpc]
    exact Single.driven_of_common hshared.common
  rw [main.single_clk hdriven]
  exact htracks.step hshared

theorem tracks_run {main : Main} {isa : Isa.State}
    (htracks : Single.Tracks isa main.single) (k : ℕ)
    (hshared : ∀ j < k,
      let before := (CoreIsa.step funcOp (Single.repeated rom))^[j] isa
      Single.Shared read before.regs
        (Single.repeated rom (before.pc >>> 2))) :
    Single.Tracks ((CoreIsa.step funcOp (Single.repeated rom))^[k] isa)
      (Clocked.run (step undriven read rom) main
        (List.replicate k (.clk false true))).single := by
  have hstep : ∀ (isa : Isa.State) (main : Main),
      Single.Shared read isa.regs (Single.repeated rom (isa.pc >>> 2)) →
      Single.Tracks isa main.single →
        Single.Tracks (CoreIsa.step funcOp (Single.repeated rom) isa)
          (step undriven read rom main (.clk false true)).single :=
    fun _ _ hside hrel => tracks_clk hside hrel
  rw [Clocked.run_replicate]
  exact Clocked.iterate_related hstep htracks k hshared

end Agreement

/-- From any two resets which leave the same data in the memories, the drawing
after `k` clock cycles and the core after `2 * k` edges have the same program
counter, the same registers and the same data, as long as no word the core
executes depends on their differences. -/
theorem drawing_agrees_with_core (undriven : Undriven) (read : RamRead)
    (romRead : RomRead) (rom : Rom) (drawnBefore : Main)
    (coreBefore : System) {drawnEvent : Event} {coreEvent : System.Event}
    (hdrawn : drawnEvent.isReset = true) (hcore : coreEvent.isReset = true) :
    let words := Single.repeated rom
    let main := step undriven read rom drawnBefore drawnEvent
    let system := System.step rtl romRead words coreBefore coreEvent
    let drawn := fun k => Clocked.run (step undriven read rom) main
      (List.replicate k (.clk false true))
    let core := fun k => Clocked.run (System.step rtl romRead words) system
      (List.replicate (2 * k) (.clk false true))
    (∀ index : Word, index.toNat < 64 →
      main.ram (Single.byteIndex index) = system.ram index) →
    ∀ k, (∀ j < k, Single.Shared read (core j).main.regfile.isaRegs
        (words (core j).main.imemAddr)) →
      (drawn k).pc = (core k).main.pcAddress ∧
      (∀ index, (drawn k).regfile.readRegOut index =
        (core k).main.regfile.readRegOut index) ∧
      ∀ index : Word, index.toNat < 64 →
        (drawn k).ram (Single.byteIndex index) = (core k).ram index := by
  intro words main system drawn core hram k hshared
  have hrun : ∀ j, (core j).isaState =
      (CoreIsa.step funcOp words)^[j] (Isa.State.initial system.ram) := by
    intro j
    exact System.isaState_run_of_afterReset romRead words
      (System.step_isReset hcore) j
  have hstart : Single.Tracks (Isa.State.initial system.ram)
      main.single := by
    have hsingle : main.single = _ :=
      single_of_reset undriven read rom hdrawn
    rw [hsingle]
    exact ⟨rfl, rfl, hram⟩
  have htracks : Single.Tracks (core k).isaState (drawn k).single := by
    rw [hrun]
    apply tracks_run hstart
    intro j hj
    have hbefore := hshared j hj
    dsimp only
    rw [← hrun]
    exact hbefore
  refine ⟨htracks.pc, ?_, htracks.ram⟩
  intro index
  have hregs : (drawn k).regfile.isaRegs =
      (core k).main.regfile.isaRegs := htracks.regs
  have hget := congrArg (fun regs => Isa.Regs.get regs index) hregs
  exact hget

/-- An immediate into `x1`, and `x1` stored at the address in `x1`. -/
theorem drawing_agrees_with_core_store :
    let rom : Rom := fun index =>
      if index = 0#8 then 0x00400093#32 else 0x0010a023#32
    let undriven : Undriven := { aluOut := 7#32, ramData := 7#32 }
    let drawnBefore : Main :=
      { pc := 8#32, regfile := { regs := fun _ => 7#32 }
        ram := fun _ => 0#32, ramOut := 7#32 }
    let coreBefore := System.afterReset 0#32 fun _ => 0#32
    let words := Single.repeated rom
    let main := step undriven .asynchronous rom drawnBefore .aresetRise
    let system := System.step rtl .registered words coreBefore .aresetRise
    let drawn := Clocked.run (step undriven .asynchronous rom) main
      (List.replicate 2 (.clk false true))
    let core := Clocked.run (System.step rtl .registered words) system
      (List.replicate 4 (.clk false true))
    drawn.pc = core.main.pcAddress ∧
      (∀ index, drawn.regfile.readRegOut index =
        core.main.regfile.readRegOut index) ∧
      ∀ index : Word, index.toNat < 64 →
        drawn.ram (Single.byteIndex index) = core.ram index := by
  intro rom undriven drawnBefore coreBefore words main system drawn core
  have hshared : ∀ j < 2, Single.Shared .asynchronous
      ((CoreIsa.step funcOp words)^[j] (.initial system.ram)).regs
      (words (((CoreIsa.step funcOp words)^[j]
        (.initial system.ram)).pc >>> 2)) := by
    intro j hj
    have hcases : j = 0 ∨ j = 1 := by omega
    rcases hcases with rfl | rfl
    · decide +kernel
    · decide +kernel
  apply drawing_agrees_with_core undriven .asynchronous .registered rom
    drawnBefore coreBefore rfl rfl (fun _ _ => rfl) 2
  intro j hj
  have hmain : system.main = RiscvLogism.Main.afterReset := rfl
  have hrun :=
    System.isaState_run_of_afterReset .registered words hmain j
  have hbefore := hshared j hj
  rw [← hrun] at hbefore
  exact hbefore

end Main

end Logisim
end RiscvLogism
