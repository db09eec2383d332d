import RiscvLogism.PartialDecode

/-!
# The instruction set of the circuit

The circuit gives a meaning to every word, not to the implemented encodings
only.  This file states that meaning as an interpreter on architectural
states and proves that it is what the datapath computes, for any ALU and ALU
control unit which add and subtract where they are asked to and which compute
some table of operations for the register-register opcode.
-/

namespace RiscvLogism

/-! ## Arithmetic -/

/-- The operation a copy of the ALU and of its control unit computes for the
two function fields of a register-register word. -/
abbrev OperationTable := BitVec 3 → Bool → AluOp

structure Arithmetic.Implements (arith : Arithmetic)
    (operation : OperationTable) : Prop where
  add : ∀ x y funct3 funct7Bit5,
    arith.aluOut x y (arith.aluCuOut 0b00#2 funct3 funct7Bit5) = x + y
  sub : ∀ x y funct3 funct7Bit5,
    arith.aluOut x y (arith.aluCuOut 0b01#2 funct3 funct7Bit5) = x - y
  func : ∀ x y funct3 funct7Bit5,
    arith.aluOut x y (arith.aluCuOut 0b10#2 funct3 funct7Bit5) =
      (operation funct3 funct7Bit5).denote x y
  zero : ∀ x y aluOps,
    arith.aluZero x y aluOps = (arith.aluOut x y aluOps == 0#32)

theorem rtl_implements : rtl.Implements funcOp := by
  constructor
  · intro x y _ _
    exact Alu.aluOut_code .add x y
  · intro x y _ _
    exact Alu.aluOut_code .sub x y
  · intro x y funct3 funct7Bit5
    change Alu.aluOut x y (aluControlUnit 0b10#2 funct3 funct7Bit5) =
      (funcOp funct3 funct7Bit5).denote x y
    rw [aluControlUnit_func, Alu.aluOut_code]
  · intro x y aluOps
    exact alu_aluZero x y aluOps

theorem ControlUnit.aluOps_cases (word : Word) :
    ControlUnit.opcode word = ControlUnit.rtype ∨
      (controlUnit word).aluOps = 0b00#2 ∨
      (controlUnit word).aluOps = 0b01#2 := by
  by_cases hop : opcode word = rtype
  · exact .inl hop
  · right
    unfold controlUnit
    dsimp only
    split_ifs <;> simp [defaults]

namespace Arithmetic.Implements

variable {arith : Arithmetic} {operation : OperationTable}
  (himpl : arith.Implements operation) (main : Main) {word : Word}

include himpl

theorem aluOut_of_not_rtype
    (hop : ControlUnit.opcode word ≠ ControlUnit.rtype) :
    main.aluOut arith word = main.aluOut rtl word := by
  unfold Main.aluOut Main.aluCuOut
  rcases ControlUnit.aluOps_cases word with hr | hadd | hsub
  · exact absurd hr hop
  · rw [hadd, himpl.add, rtl_implements.add]
  · rw [hsub, himpl.sub, rtl_implements.sub]

theorem aluZero_of_aluOut
    (hout : main.aluOut arith word = main.aluOut rtl word) :
    main.aluZero arith word = main.aluZero rtl word := by
  unfold Main.aluZero
  rw [himpl.zero, rtl_implements.zero]
  exact congrArg (· == 0#32) hout

theorem aluOut_rtype
    (hop : ControlUnit.opcode word = ControlUnit.rtype) :
    main.aluOut arith word =
      (operation (Isa.funct3 word) (word.getLsbD 30)).denote
        (main.regfile.readRegOut (Isa.rs1 word))
        (main.regfile.readRegOut (Isa.rs2 word)) := by
  have hcontrol := ControlUnit.controlUnit_rtype hop
  rw [← himpl.func]
  simp only [Main.aluOut, Main.aluBMux, Main.aluCuOut, hcontrol,
    ControlUnit.defaults]
  rfl

end Arithmetic.Implements

/-! ## The interpreter -/

/-- The address and the data an instruction stores. -/
def Isa.Instr.stored (regs : Isa.Regs) : Isa.Instr → Option (Word × Word)
  | .sw rs1 rs2 imm =>
      some (regs.get rs1 + imm.signExtend 32, regs.get rs2)
  | .op .. | .addi .. | .lw .. | .beq .. | .bne .. | .jal .. => none

namespace CoreIsa

variable (operation : OperationTable)

/-- The instruction the circuit makes of a word. -/
def instr (word : Word) : Option Isa.Instr :=
  if Isa.opcode word = 0b0110011#7 then
    some (.op (operation (Isa.funct3 word) (word.getLsbD 30))
      (Isa.rd word) (Isa.rs1 word) (Isa.rs2 word))
  else executedInstr word

/-- A jump writes the sum of its offset and of the register which the bits of
the offset happen to select.  A word of an unknown opcode is skipped, and the
all-zero word halts. -/
def exec (state : Isa.State) (word : Word) : Isa.State :=
  match instr operation word with
  | some (.jal rd imm) =>
      { state with
        pc := state.pc + imm.signExtend 32
        regs := state.regs.set rd
          (state.regs.get (Isa.rs1 word) + imm.signExtend 32) }
  | some other => Isa.exec state other
  | none =>
      if word = 0#32 then state else { state with pc := state.pc + 4#32 }

def step (rom : Word → Word) (state : Isa.State) : Isa.State :=
  exec operation state (rom (state.pc >>> 2))

/-- The address and the data a word stores. -/
def store (regs : Isa.Regs) (word : Word) : Option (Word × Word) :=
  if Isa.opcode word = 0b0100011#7 then
    some (regs.get (Isa.rs1 word) + (Isa.immS word).signExtend 32,
      regs.get (Isa.rs2 word))
  else none

variable {operation} {state : Isa.State} {word : Word}

theorem instr_rtype (hop : Isa.opcode word = 0b0110011#7) :
    instr operation word =
      some (.op (operation (Isa.funct3 word) (word.getLsbD 30))
        (Isa.rd word) (Isa.rs1 word) (Isa.rs2 word)) := by
  rw [instr, if_pos hop]

theorem instr_of_not_rtype (hop : Isa.opcode word ≠ 0b0110011#7) :
    instr operation word = executedInstr word := by
  rw [instr, if_neg hop]

theorem instr_funcOp (word : Word) :
    instr funcOp word = executedInstr word := by
  by_cases hop : Isa.opcode word = 0b0110011#7
  · rw [instr_rtype hop, executedInstr, if_pos hop]
  · exact instr_of_not_rtype hop

theorem exec_zero : exec operation state 0#32 = state := by
  have hnone : instr operation 0#32 = none := by
    rw [instr_of_not_rtype (by decide)]
    decide
  rw [exec, hnone]
  rfl

theorem exec_none (hnone : instr operation word = none)
    (hne : word ≠ 0#32) :
    exec operation state word = { state with pc := state.pc + 4#32 } := by
  rw [exec, hnone]
  exact if_neg hne

theorem exec_of_not_link {instruction : Isa.Instr}
    (hinstr : instr operation word = some instruction)
    (hlink : instruction.isLink = false) :
    exec operation state word = Isa.exec state instruction := by
  rw [exec, hinstr]
  cases instruction with
  | jal rd imm =>
      have hrd : rd = 0#5 := by
        simpa [Isa.Instr.isLink] using hlink
      simp only [Isa.exec, hrd, Isa.Regs.set_zero]
  | op | addi | lw | sw | beq | bne => rfl

theorem executedInstr_jtype
    (hop : Isa.opcode word = 0b1101111#7) :
    executedInstr word = some (.jal (Isa.rd word) (Isa.immJ word)) := by
  simp [executedInstr, hop]

theorem isLink_of_not_jtype {instruction : Isa.Instr}
    (hop : Isa.opcode word ≠ 0b1101111#7)
    (hinstr : executedInstr word = some instruction) :
    instruction.isLink = false := by
  unfold executedInstr at hinstr
  rw [if_neg hop] at hinstr
  split_ifs at hinstr
  all_goals
    obtain rfl := Option.some.inj hinstr
    rfl

theorem executedInstr_of_unknown
    (hop : ¬ ControlUnit.KnownOpcode (ControlUnit.opcode word)) :
    executedInstr word = none := by
  simp only [ControlUnit.KnownOpcode, not_or] at hop
  obtain ⟨hr, hi, hl, hs, hb, hj⟩ := hop
  exact (if_neg hr).trans ((if_neg hi).trans ((if_neg hl).trans
    ((if_neg hs).trans ((if_neg hb).trans (if_neg hj)))))

theorem lw_fields {rd base : RegIndex} {offset : BitVec 12}
    (hinstr : instr operation word = some (.lw rd base offset)) :
    Isa.opcode word = 0b0000011#7 ∧ base = Isa.rs1 word ∧
      offset = Isa.immI word := by
  by_cases hr : Isa.opcode word = 0b0110011#7
  · rw [instr_rtype hr] at hinstr
    cases hinstr
  · rw [instr_of_not_rtype hr, executedInstr, if_neg hr] at hinstr
    split_ifs at hinstr with hi hl hs hb hbit hj
    all_goals simp_all

/-- The meaning of a word depends on the table through its instruction. -/
theorem exec_of_instr_eq {operation' : OperationTable}
    (hinstr : instr operation word = instr operation' word)
    (state : Isa.State) :
    exec operation state word = exec operation' state word := by
  rw [exec, exec, hinstr]

theorem store_of_instr {instruction : Isa.Instr}
    (hinstr : instr operation word = some instruction) (regs : Isa.Regs) :
    store regs word = instruction.stored regs := by
  by_cases hr : Isa.opcode word = 0b0110011#7
  · rw [instr_rtype hr] at hinstr
    obtain rfl := Option.some.inj hinstr
    simp [store, Isa.Instr.stored, hr]
  · rw [instr_of_not_rtype hr, executedInstr, if_neg hr] at hinstr
    split_ifs at hinstr with hi hl hs hb hbit hj
    all_goals
      obtain rfl := Option.some.inj hinstr
      simp [store, Isa.Instr.stored, *]

theorem store_of_none (hnone : instr operation word = none)
    (regs : Isa.Regs) : store regs word = none := by
  rw [store, if_neg]
  intro hop
  have hr : Isa.opcode word ≠ 0b0110011#7 := by
    rw [hop]
    decide
  rw [instr_of_not_rtype hr] at hnone
  simp [executedInstr, hop] at hnone

/-- The memory changes by the store of the word and by nothing else. -/
theorem exec_ram (state : Isa.State) (word : Word) :
    (exec operation state word).ram =
      match store state.regs word with
      | some (address, data) =>
          Function.update state.ram (address >>> 2) data
      | none => state.ram := by
  cases hinstr : instr operation word with
  | none =>
      rw [store_of_none hinstr, exec, hinstr]
      dsimp only
      split_ifs <;> rfl
  | some instruction =>
      rw [store_of_instr hinstr, exec, hinstr]
      cases instruction <;> rfl

/-- The program counter and the registers depend on the memory only through
the word a load asks for. -/
theorem exec_congr {state state' : Isa.State} (hpc : state.pc = state'.pc)
    (hregs : state.regs = state'.regs)
    (hload : ∀ rd base offset,
      instr operation word = some (.lw rd base offset) →
        state.ram ((state.regs.get base + offset.signExtend 32) >>> 2) =
          state'.ram ((state'.regs.get base + offset.signExtend 32) >>> 2)) :
    (exec operation state word).pc = (exec operation state' word).pc ∧
      (exec operation state word).regs =
        (exec operation state' word).regs := by
  unfold exec
  cases hinstr : instr operation word with
  | none =>
      dsimp only
      split_ifs
      · exact ⟨hpc, hregs⟩
      · exact ⟨congrArg (· + 4#32) hpc, hregs⟩
  | some instruction =>
      cases instruction with
      | lw rd base offset =>
          have hloaded := hload rd base offset hinstr
          rw [hregs] at hloaded
          simp only [Isa.exec, hpc, hloaded, hregs, and_self]
      | op | addi | sw | beq | bne | jal =>
          simp only [Isa.exec, hpc, hregs, and_self]

end CoreIsa

/-! ## The data port -/

theorem ControlUnit.memWrite_iff (word : Word) :
    (controlUnit word).memWrite = true ↔
      Isa.opcode word = 0b0100011#7 := by
  constructor
  · intro hwrite
    rcases knownOpcode_of_signal ControlOutputs.memWrite
      (fun _ => rfl) hwrite with hop | hop | hop | hop | hop | hop
    · rw [controlUnit_rtype hop] at hwrite
      contradiction
    · rw [controlUnit_itype hop] at hwrite
      contradiction
    · rw [controlUnit_loadType hop] at hwrite
      contradiction
    · exact hop
    · rw [controlUnit_btype hop] at hwrite
      contradiction
    · rw [controlUnit_jtype hop] at hwrite
      contradiction
  · intro hop
    rw [controlUnit_stype hop]

theorem Main.aluOut_stype (main : Main) {word : Word}
    (hop : Isa.opcode word = 0b0100011#7) :
    main.aluOut rtl word =
      main.regfile.readRegOut (Isa.rs1 word) +
        (Isa.immS word).signExtend 32 := by
  let bench : Bench := { main := main, ram := fun _ => 0#32 }
  have hcontrol := ControlUnit.controlUnit_stype hop
  rw [← Bench.immOut_stype hop]
  exact bench.aluOut_add (by rw [hcontrol]) (by rw [hcontrol]; rfl)

/-- What is on the data port while `MemWrite` is high. -/
theorem Arithmetic.Implements.store_eq {arith : Arithmetic}
    {operation : OperationTable} (himpl : arith.Implements operation)
    (main : Main) (word : Word) :
    (if (controlUnit word).memWrite then
      some (main.dmemAddr arith word, main.dmemWdata word)
    else none) = CoreIsa.store main.regfile.isaRegs word := by
  by_cases hop : Isa.opcode word = 0b0100011#7
  · have hnot : ControlUnit.opcode word ≠ ControlUnit.rtype := by
      change Isa.opcode word ≠ _
      rw [hop]
      decide
    rw [if_pos ((ControlUnit.memWrite_iff word).mpr hop), CoreIsa.store,
      if_pos hop, Main.dmemAddr, himpl.aluOut_of_not_rtype main hnot,
      main.aluOut_stype hop]
    rfl
  · rw [if_neg fun hwrite => hop ((ControlUnit.memWrite_iff word).mp hwrite),
      CoreIsa.store, if_neg hop]

/-! ## The datapath computes it -/

namespace Bench

variable (bench : Bench) {word : Word}

theorem executed_congr {arith arith' : Arithmetic}
    (hout : bench.main.aluOut arith word = bench.main.aluOut arith' word)
    (hzero : bench.main.aluZero arith word =
      bench.main.aluZero arith' word) :
    bench.executed arith word = bench.executed arith' word := by
  have htaken :
      bench.main.loadAddress arith word =
        bench.main.loadAddress arith' word := by
    rw [Main.loadAddress, Main.loadAddress, Main.branchTaken,
      Main.branchTaken, hzero]
  have hindex : bench.ramIndex arith word = bench.ramIndex arith' word := by
    rw [ramIndex, ramIndex, Main.dmemAddr, Main.dmemAddr, hout]
  have hdata :
      bench.main.writeData arith word (bench.dmemRdata arith word) =
        bench.main.writeData arith' word (bench.dmemRdata arith' word) := by
    rw [dmemRdata, dmemRdata, hindex, Main.writeData, Main.writeData, hout]
  rw [executed, executed, htaken, hindex, hdata]

section Implements

variable {arith : Arithmetic} {operation : OperationTable}
  (himpl : arith.Implements operation)

include himpl

theorem executed_of_not_rtype
    (hop : ControlUnit.opcode word ≠ ControlUnit.rtype) :
    bench.executed arith word = bench.executed rtl word := by
  have hout := himpl.aluOut_of_not_rtype bench.main hop
  exact bench.executed_congr hout (himpl.aluZero_of_aluOut _ hout)

theorem isaState_executed_rtype
    (hop : ControlUnit.opcode word = ControlUnit.rtype) :
    (bench.executed arith word).isaState =
      CoreIsa.exec operation bench.isaState word := by
  have hcontrol := ControlUnit.controlUnit_rtype hop
  have hout := himpl.aluOut_rtype bench.main hop
  have hexec :
      bench.executed arith word =
        retired (bench.main.pcAddress + 4#32)
          (bench.main.regfile.write (Isa.rd word)
            ((operation (Isa.funct3 word) (word.getLsbD 30)).denote
              (bench.main.regfile.readRegOut (Isa.rs1 word))
              (bench.main.regfile.readRegOut (Isa.rs2 word))))
          bench.ram := by
    simp [executed, Main.halt, Main.loadAddress, Main.writeData, hcontrol,
      ControlUnit.defaults, hout]
    rfl
  rw [CoreIsa.exec_of_not_link (CoreIsa.instr_rtype hop) rfl, hexec,
    isaState_retired, RegFile.isaRegs_write]
  rfl

theorem isaState_executed_word (word : Word) :
    (bench.executed arith word).isaState =
      CoreIsa.exec operation bench.isaState word := by
  by_cases hr : ControlUnit.opcode word = ControlUnit.rtype
  · exact bench.isaState_executed_rtype himpl hr
  have hinstr : CoreIsa.instr operation word = executedInstr word :=
    CoreIsa.instr_of_not_rtype hr
  rw [bench.executed_of_not_rtype himpl hr]
  by_cases hj : ControlUnit.opcode word = ControlUnit.jtype
  · have hjal := hinstr.trans (CoreIsa.executedInstr_jtype hj)
    rw [CoreIsa.exec, hjal, bench.executed_jtype hj, isaState_retired,
      RegFile.isaRegs_write]
    rfl
  by_cases hknown : ControlUnit.KnownOpcode (ControlUnit.opcode word)
  · obtain ⟨instruction, hsome⟩ :=
      Option.isSome_iff_exists.mp (executedInstr_isSome hknown)
    have hlink := CoreIsa.isLink_of_not_jtype hj hsome
    rw [CoreIsa.exec_of_not_link (hinstr.trans hsome) hlink]
    exact bench.isaState_executed hsome hlink
  · have hnone := hinstr.trans (CoreIsa.executedInstr_of_unknown hknown)
    by_cases hzero : word = 0#32
    · subst hzero
      rw [executed_zero, CoreIsa.exec_zero]
      rfl
    · rw [bench.executed_unknown rtl hzero hknown,
        CoreIsa.exec_none hnone hzero]
      rfl

end Implements

end Bench

end RiscvLogism
