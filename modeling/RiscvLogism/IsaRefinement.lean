import RiscvLogism.InstructionEffect

/-!
# The core refines the instruction set

Two clock edges of the core simulate one step of the RV32I interpreter.  The
simulation holds for both ways of reading the instruction memory: with an
output register, the fetch phase still shows the previous instruction, but
nothing is written in that phase, and the execute phase sees the word at the
program counter.
-/

namespace RiscvLogism

/-! ## The abstraction -/

def RegFile.isaRegs (regfile : RegFile) : Isa.Regs where
  get := regfile.readRegOut
  get_zero := regfile.readRegOut_zero

def Bench.isaState (bench : Bench) : Isa.State where
  pc := bench.main.pcAddress
  regs := bench.main.regfile.isaRegs
  ram := bench.ram

@[simp] theorem RegFile.isaRegs_write (regfile : RegFile) (rd : RegIndex)
    (data : Word) :
    (regfile.write rd data).isaRegs = regfile.isaRegs.set rd data := by
  apply Isa.Regs.ext
  funext index
  exact regfile.readRegOut_write rd index data

@[simp] theorem RegFile.isaRegs_get (regfile : RegFile) (index : RegIndex) :
    regfile.isaRegs.get index = regfile.readRegOut index := rfl

theorem Bench.isaState_retired (pc : Word) (regfile : RegFile)
    (ram : Memory) :
    (Bench.retired pc regfile ram).isaState =
      { pc := pc, regs := regfile.isaRegs, ram := ram } := rfl

@[simp] theorem Bench.isaState_pc (bench : Bench) :
    bench.isaState.pc = bench.main.pcAddress := rfl

@[simp] theorem Bench.isaState_regs (bench : Bench) :
    bench.isaState.regs = bench.main.regfile.isaRegs := rfl

@[simp] theorem Bench.isaState_ram (bench : Bench) :
    bench.isaState.ram = bench.ram := rfl

/-! ## One instruction -/

/-- The instruction the core executes for a word: of the two function fields
it uses only what the arithmetic unit and the branch inverter look at. -/
def executedInstr (word : Word) : Option Isa.Instr :=
  if Isa.opcode word = 0b0110011#7 then
    some (.op (funcOp (Isa.funct3 word) (word.getLsbD 30))
      (Isa.rd word) (Isa.rs1 word) (Isa.rs2 word))
  else if Isa.opcode word = 0b0010011#7 then
    some (.addi (Isa.rd word) (Isa.rs1 word) (Isa.immI word))
  else if Isa.opcode word = 0b0000011#7 then
    some (.lw (Isa.rd word) (Isa.rs1 word) (Isa.immI word))
  else if Isa.opcode word = 0b0100011#7 then
    some (.sw (Isa.rs1 word) (Isa.rs2 word) (Isa.immS word))
  else if Isa.opcode word = 0b1100011#7 then
    if word.getLsbD 12 then
      some (.bne (Isa.rs1 word) (Isa.rs2 word) (Isa.immB word))
    else
      some (.beq (Isa.rs1 word) (Isa.rs2 word) (Isa.immB word))
  else if Isa.opcode word = 0b1101111#7 then
    some (.jal (Isa.rd word) (Isa.immJ word))
  else none

theorem funcOp_of_regOp {funct3 : BitVec 3} {funct7 : BitVec 7}
    {operation : AluOp}
    (hreg : Isa.regOp funct3 funct7 = some operation) :
    funcOp funct3 (funct7.getLsbD 5) = operation := by
  by_cases hplain : funct7 = 0b0000000#7
  · subst hplain
    have hall : ∀ funct3 : BitVec 3,
        Isa.regOp funct3 0b0000000#7 = some (funcOp funct3 false) := by
      decide
    rw [hall] at hreg
    exact Option.some.inj hreg
  · by_cases halternate : funct7 = 0b0100000#7
    · subst halternate
      have hall : ∀ funct3 : BitVec 3,
          Isa.regOp funct3 0b0100000#7 = none ∨
            Isa.regOp funct3 0b0100000#7 = some (funcOp funct3 true) := by
        decide
      rcases hall funct3 with hnone | hsome
      · rw [hnone] at hreg
        contradiction
      · rw [hsome] at hreg
        exact Option.some.inj hreg
    · rw [Isa.regOp, if_neg hplain, if_neg halternate] at hreg
      contradiction

theorem funct7_bit5 (word : Word) :
    (Isa.funct7 word).getLsbD 5 = word.getLsbD 30 := by
  simp [Isa.funct7]

theorem funct3_bit0 (word : Word) :
    (Isa.funct3 word).getLsbD 0 = word.getLsbD 12 := by
  simp [Isa.funct3]

theorem executedInstr_of_decode {word : Word} {instr : Isa.Instr}
    (hdecode : Isa.decode word = some instr) :
    executedInstr word = some instr := by
  unfold Isa.decode at hdecode
  unfold executedInstr
  by_cases hr : Isa.opcode word = 0b0110011#7
  · rw [if_pos hr] at hdecode ⊢
    obtain ⟨operation, hreg, hinstr⟩ := Option.map_eq_some_iff.mp hdecode
    rw [← funct7_bit5, funcOp_of_regOp hreg, hinstr]
  rw [if_neg hr] at hdecode ⊢
  by_cases hi : Isa.opcode word = 0b0010011#7
  · rw [if_pos hi] at hdecode ⊢
    exact (Option.ite_none_right_eq_some.mp hdecode).2
  rw [if_neg hi] at hdecode ⊢
  by_cases hl : Isa.opcode word = 0b0000011#7
  · rw [if_pos hl] at hdecode ⊢
    exact (Option.ite_none_right_eq_some.mp hdecode).2
  rw [if_neg hl] at hdecode ⊢
  by_cases hs : Isa.opcode word = 0b0100011#7
  · rw [if_pos hs] at hdecode ⊢
    exact (Option.ite_none_right_eq_some.mp hdecode).2
  rw [if_neg hs] at hdecode ⊢
  by_cases hb : Isa.opcode word = 0b1100011#7
  · rw [if_pos hb] at hdecode ⊢
    by_cases hbeq : Isa.funct3 word = 0b000#3
    · have hbit : word.getLsbD 12 = false := by
        rw [← funct3_bit0, hbeq]
        rfl
      rw [if_pos hbeq] at hdecode
      rw [if_neg (Bool.eq_false_iff.mp hbit)]
      exact hdecode
    · rw [if_neg hbeq] at hdecode
      obtain ⟨hbne, hinstr⟩ := Option.ite_none_right_eq_some.mp hdecode
      have hbit : word.getLsbD 12 = true := by
        rw [← funct3_bit0, hbne]
        rfl
      rw [if_pos hbit]
      exact hinstr
  rw [if_neg hb] at hdecode ⊢
  exact hdecode

namespace Bench

variable (bench : Bench) {word : Word}

theorem isaState_executed_btype
    (hop : ControlUnit.opcode word = ControlUnit.btype) :
    (bench.executed rtl word).isaState =
      Isa.exec bench.isaState
        (if word.getLsbD 12 then
          .bne (Isa.rs1 word) (Isa.rs2 word) (Isa.immB word)
        else .beq (Isa.rs1 word) (Isa.rs2 word) (Isa.immB word)) := by
  rw [bench.executed_btype hop, isaState_retired, branchCondition]
  by_cases heq :
      bench.main.regfile.readRegOut (Isa.rs1 word) =
        bench.main.regfile.readRegOut (Isa.rs2 word)
  · cases hbit : word.getLsbD 12 <;> simp [Isa.exec, heq]
  · cases hbit : word.getLsbD 12 <;> simp [Isa.exec, heq]

/-- Every word has the effect of the instruction the core executes for it,
but for the value a linking jump writes. -/
theorem isaState_executed {instr : Isa.Instr}
    (hinstr : executedInstr word = some instr)
    (hlink : instr.isLink = false) :
    (bench.executed rtl word).isaState = Isa.exec bench.isaState instr := by
  unfold executedInstr at hinstr
  split_ifs at hinstr with hr hi hl hs hb hbit hj
  · obtain rfl := Option.some.inj hinstr
    rw [bench.executed_rtype hr, isaState_retired, RegFile.isaRegs_write]
    rfl
  · obtain rfl := Option.some.inj hinstr
    rw [bench.executed_itype hi, isaState_retired, RegFile.isaRegs_write]
    rfl
  · obtain rfl := Option.some.inj hinstr
    rw [bench.executed_loadType hl, isaState_retired, RegFile.isaRegs_write]
    rfl
  · obtain rfl := Option.some.inj hinstr
    rw [bench.executed_stype hs, isaState_retired]
    rfl
  · obtain rfl := Option.some.inj hinstr
    rw [bench.isaState_executed_btype hb, if_pos hbit]
  · obtain rfl := Option.some.inj hinstr
    rw [bench.isaState_executed_btype hb, if_neg hbit]
  · obtain rfl := Option.some.inj hinstr
    have hrd : Isa.rd word = 0#5 := by
      simpa [Isa.Instr.isLink] using hlink
    rw [bench.executed_jtype hj, isaState_retired, hrd, RegFile.write_zero,
      Isa.exec, Isa.Regs.set_zero]
    rfl

theorem isaState_executed_of_runnable (hrunnable : Isa.Runnable word) :
    (bench.executed rtl word).isaState =
      Isa.execWord bench.isaState word := by
  rcases hrunnable with hzero | hany
  · subst hzero
    rw [executed_zero, isaState_retired, Isa.execWord, Isa.decode_zero]
    rfl
  · cases hdecode : Isa.decode word with
    | none => simp [hdecode] at hany
    | some instr =>
        have hlink : instr.isLink = false := by
          simpa [hdecode] using hany
        have hinstr := executedInstr_of_decode hdecode
        rw [bench.isaState_executed hinstr hlink, Isa.execWord, hdecode]

end Bench

/-! ## Runs -/

namespace System

variable {arith : Arithmetic} {read : RomRead} {rom : Memory}
  {system : System}

theorem imemData_after_fetch (hphase : system.main.executeCycle = false) :
    (system.posedgeClk arith read rom false true).imemData read rom =
      rom system.main.imemAddr := by
  rw [posedgeClk_fetch hphase]
  cases read <;> rfl

def twoCycles (arith : Arithmetic) (read : RomRead) (rom : Memory)
    (system : System) : System :=
  (system.posedgeClk arith read rom false true).posedgeClk arith read rom
    false true

theorem twoCycles_toBench (hphase : system.main.executeCycle = false) :
    (system.twoCycles arith read rom).toBench =
      system.toBench.executed arith (rom system.main.imemAddr) := by
  have hword :
      (system.posedgeClk arith read rom false true).imemData read rom =
        rom system.main.imemAddr :=
    imemData_after_fetch hphase
  rw [← Bench.fullInstruction_eq hphase (system.imemData read rom), ← hword]
  rfl

theorem twoCycles_executeCycle (hphase : system.main.executeCycle = false) :
    (system.twoCycles arith read rom).main.executeCycle = false := by
  rw [twoCycles_toBench hphase]
  rfl

theorem iterate_twoCycles_executeCycle (k : ℕ)
    (hphase : system.main.executeCycle = false) :
    ((twoCycles arith read rom)^[k] system).main.executeCycle = false := by
  induction k generalizing system with
  | zero => exact hphase
  | succ k ih =>
      rw [Function.iterate_succ_apply]
      exact ih (twoCycles_executeCycle hphase)

theorem isaState_posedgeClk_fetch
    (hphase : system.main.executeCycle = false) (enable : Bool) :
    (system.posedgeClk arith read rom false enable).isaState =
      system.isaState := by
  rw [posedgeClk_fetch hphase]
  rfl

theorem isaState_twoCycles_of_runnable
    (hphase : system.main.executeCycle = false)
    (hrunnable : Isa.Runnable (rom system.main.imemAddr)) :
    (system.twoCycles rtl read rom).isaState =
      Isa.step rom system.isaState := by
  rw [twoCycles_toBench hphase,
    system.toBench.isaState_executed_of_runnable hrunnable]
  rfl

theorem isaState_twoCycles (program : Isa.Program)
    (hphase : system.main.executeCycle = false) :
    (system.twoCycles rtl read program.rom).isaState =
      Isa.step program.rom system.isaState :=
  isaState_twoCycles_of_runnable hphase (program.runnable _)

theorem isaState_iterate_twoCycles (program : Isa.Program) (k : ℕ)
    (hphase : system.main.executeCycle = false) :
    ((twoCycles rtl read program.rom)^[k] system).isaState =
      (Isa.step program.rom)^[k] system.isaState :=
  Clocked.iterate_commutes
    (fun system : System => system.main.executeCycle = false)
    (fun system : System => system.isaState)
    (fun _ hfetch => twoCycles_executeCycle hfetch)
    (fun _ hfetch => isaState_twoCycles program hfetch)
    k hphase

theorem isaState_afterReset (romOut : Word) (ram : Memory) :
    (afterReset romOut ram).isaState = Isa.State.initial ram := by
  apply Isa.State.ext
  · rfl
  · apply Isa.Regs.ext
    funext index
    change RegFile.readRegOut { regs := fun _ => 0#32 } index = 0#32
    unfold RegFile.readRegOut
    split_ifs <;> rfl
  · rfl

/-- After `2k` enabled clock edges from reset, the architectural state of the
core and its data memory is the state of the interpreter after `k` steps. -/
theorem run_refines_isa (read : RomRead) (program : Isa.Program)
    (romOut : Word) (ram : Memory) (k : ℕ) :
    (Clocked.run (step rtl read program.rom) (afterReset romOut ram)
        (List.replicate (2 * k) (.clk false true))).isaState =
      (Isa.step program.rom)^[k] (Isa.State.initial ram) := by
  rw [Clocked.run_replicate_two_mul, ← isaState_afterReset romOut ram]
  exact isaState_iterate_twoCycles program k rfl

end System

end RiscvLogism
