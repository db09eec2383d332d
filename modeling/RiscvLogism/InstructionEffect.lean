import RiscvLogism.CoreEnvironment
import RiscvLogism.IsaModel

/-!
# What one full instruction does

A fetch edge followed by an execute edge, with `enable` high, takes the core
and its data memory from one fetch phase to the next.  The word shown during
the fetch phase is immaterial.  The effect of the executed word is stated once
for each opcode of the control unit, for the halting word and for every other
word; later files use these statements and not the wires.
-/

namespace RiscvLogism
namespace Bench

def retired (pc : Word) (regfile : RegFile) (ram : Memory) : Bench where
  main := { pc := { addr := pc }, regfile := regfile, executeCycle := false }
  ram := ram

/-- The enabled execute edge as a function of the contents of the core and
of the executed word. -/
def executed (arith : Arithmetic) (bench : Bench) (word : Word) : Bench :=
  retired
    (if Main.halt word then bench.main.pcAddress
      else if bench.main.loadAddress arith word then
        bench.main.pcAddress + Main.immOut word
      else bench.main.pcAddress + 4#32)
    (if (controlUnit word).regWrite then
        bench.main.regfile.write (Main.writeAddr word)
          (bench.main.writeData arith word (bench.dmemRdata arith word))
      else bench.main.regfile)
    (if (controlUnit word).memWrite then
        Function.update bench.ram (bench.ramIndex arith word)
          (bench.main.dmemWdata word)
      else bench.ram)

section Edges

variable {arith : Arithmetic} {bench : Bench}

theorem posedgeClk_fetch (hphase : bench.main.executeCycle = false)
    (word : Word) (enable : Bool) :
    bench.posedgeClk arith word false enable =
      { bench with main := { bench.main with executeCycle := enable } } := by
  apply Bench.ext
  · exact Main.always_fetch rfl hphase
  · simp [posedgeClk, Main.dmemWe, hphase]

theorem posedgeClk_execute (hphase : bench.main.executeCycle = true)
    (word : Word) :
    bench.posedgeClk arith word false true = bench.executed arith word := by
  let inputs := bench.mainInputs arith word false true
  have hpc :
      (bench.main.always arith inputs).pcAddress =
        if Main.halt word then bench.main.pcAddress
        else if bench.main.loadAddress arith word then
          bench.main.pcAddress + Main.immOut word
        else bench.main.pcAddress + 4#32 := by
    cases hhalt : Main.halt word with
    | true => exact congrArg PC.addr (Main.always_halt_pc rfl hhalt)
    | false => exact Main.always_execute_pc rfl rfl hphase hhalt
  have hphase' : (bench.main.always arith inputs).executeCycle = false := by
    rw [Main.always_executeCycle rfl, hphase]
    rfl
  apply Bench.ext
  · apply Main.ext
    · exact congrArg PC.mk hpc
    · exact Main.always_execute_regfile rfl hphase
    · exact hphase'
  · simp only [posedgeClk, Main.dmemWe, hphase, Bool.and_true, executed,
      retired]

theorem fullInstruction_eq (hphase : bench.main.executeCycle = false)
    (fetchWord word : Word) :
    bench.fullInstruction arith fetchWord word =
      bench.executed arith word := by
  unfold fullInstruction
  rw [posedgeClk_fetch hphase, posedgeClk_execute rfl]
  rfl

end Edges

/-! ## Immediates -/

theorem bimm_eq_immB (word : Word) : ImmGen.bimm word = Isa.immB word := by
  unfold ImmGen.bimm
  rw [BitFields.ofBool_getLsbD word 31, BitFields.ofBool_getLsbD word 7]
  rfl

theorem jimm_eq_immJ (word : Word) : ImmGen.jimm word = Isa.immJ word := by
  unfold ImmGen.jimm
  rw [BitFields.ofBool_getLsbD word 31, BitFields.ofBool_getLsbD word 20]
  rfl

/-! ## The effect by opcode -/

section Opcodes

open ControlUnit

variable (bench : Bench) {word : Word}

theorem executed_zero (arith : Arithmetic) :
    bench.executed arith 0#32 =
      retired bench.main.pcAddress bench.main.regfile bench.ram := rfl

theorem executed_unknown (arith : Arithmetic) (hne : word ≠ 0#32)
    (hop : ¬ KnownOpcode (opcode word)) :
    bench.executed arith word =
      retired (bench.main.pcAddress + 4#32) bench.main.regfile
        bench.ram := by
  have hcontrol := controlUnit_unknown hne hop
  simp [executed, Main.halt, Main.loadAddress, hcontrol, defaults]

theorem aluOut_rtype (hop : opcode word = rtype) :
    bench.main.aluOut rtl word =
      (funcOp (Isa.funct3 word) (word.getLsbD 30)).denote
        (bench.main.regfile.readRegOut (Isa.rs1 word))
        (bench.main.regfile.readRegOut (Isa.rs2 word)) := by
  rw [← Alu.aluOut_code, ← aluControlUnit_func]
  simp only [Main.aluOut, Main.aluBMux, Main.aluCuOut, controlUnit_rtype hop,
    defaults]
  rfl

theorem executed_rtype (hop : opcode word = rtype) :
    bench.executed rtl word =
      retired (bench.main.pcAddress + 4#32)
        (bench.main.regfile.write (Isa.rd word)
          ((funcOp (Isa.funct3 word) (word.getLsbD 30)).denote
            (bench.main.regfile.readRegOut (Isa.rs1 word))
            (bench.main.regfile.readRegOut (Isa.rs2 word))))
        bench.ram := by
  have hcontrol := controlUnit_rtype hop
  have hout := bench.aluOut_rtype hop
  simp [executed, Main.halt, Main.loadAddress, Main.writeData, hcontrol,
    defaults, hout]
  rfl

theorem immOut_itype (hop : opcode word = itype) :
    Main.immOut word = (Isa.immI word).signExtend 32 := by
  simp only [Main.immOut, controlUnit_itype hop, defaults]
  exact ImmGen.immGen_itype word

theorem immOut_loadType (hop : opcode word = loadType) :
    Main.immOut word = (Isa.immI word).signExtend 32 := by
  simp only [Main.immOut, controlUnit_loadType hop, defaults]
  exact ImmGen.immGen_itype word

theorem immOut_stype (hop : opcode word = stype) :
    Main.immOut word = (Isa.immS word).signExtend 32 := by
  simp only [Main.immOut, controlUnit_stype hop, defaults]
  exact ImmGen.immGen_stype word

theorem immOut_btype (hop : opcode word = btype) :
    Main.immOut word = (Isa.immB word).signExtend 32 := by
  simp only [Main.immOut, controlUnit_btype hop, defaults]
  rw [← bimm_eq_immB]
  exact ImmGen.immGen_btype word

theorem immOut_jtype (hop : opcode word = jtype) :
    Main.immOut word = (Isa.immJ word).signExtend 32 := by
  simp only [Main.immOut, controlUnit_jtype hop, defaults]
  rw [← jimm_eq_immJ]
  exact ImmGen.immGen_jtype word

theorem aluOut_add (hsrc : (controlUnit word).aluSrc = true)
    (hops : (controlUnit word).aluOps = 0b00#2) :
    bench.main.aluOut rtl word =
      bench.main.regfile.readRegOut (Isa.rs1 word) + Main.immOut word := by
  have hadd :
      bench.main.aluOut rtl word =
        Alu.aluOut (bench.main.readRegOut1 word) (Main.immOut word)
          AluOp.add.code := by
    simp only [Main.aluOut, Main.aluBMux, Main.aluCuOut, hsrc, hops]
    rfl
  rw [hadd, Alu.aluOut_code]
  rfl

theorem executed_itype (hop : opcode word = itype) :
    bench.executed rtl word =
      retired (bench.main.pcAddress + 4#32)
        (bench.main.regfile.write (Isa.rd word)
          (bench.main.regfile.readRegOut (Isa.rs1 word) +
            (Isa.immI word).signExtend 32))
        bench.ram := by
  have hcontrol := controlUnit_itype hop
  have himm := immOut_itype hop
  have hout := bench.aluOut_add (by rw [hcontrol]) (by rw [hcontrol]; rfl)
  rw [himm] at hout
  simp [executed, Main.halt, Main.loadAddress, Main.writeData, hcontrol,
    defaults, hout]
  rfl

theorem executed_loadType (hop : opcode word = loadType) :
    bench.executed rtl word =
      retired (bench.main.pcAddress + 4#32)
        (bench.main.regfile.write (Isa.rd word)
          (bench.ram
            ((bench.main.regfile.readRegOut (Isa.rs1 word) +
              (Isa.immI word).signExtend 32) >>> 2)))
        bench.ram := by
  have hcontrol := controlUnit_loadType hop
  have himm := immOut_loadType hop
  have hout := bench.aluOut_add (by rw [hcontrol]) (by rw [hcontrol]; rfl)
  rw [himm] at hout
  simp [executed, Main.halt, Main.loadAddress, Main.writeData, hcontrol,
    defaults, dmemRdata, ramIndex, Main.dmemAddr, hout]
  rfl

theorem executed_stype (hop : opcode word = stype) :
    bench.executed rtl word =
      retired (bench.main.pcAddress + 4#32) bench.main.regfile
        (Function.update bench.ram
          ((bench.main.regfile.readRegOut (Isa.rs1 word) +
            (Isa.immS word).signExtend 32) >>> 2)
          (bench.main.regfile.readRegOut (Isa.rs2 word))) := by
  have hcontrol := controlUnit_stype hop
  have himm := immOut_stype hop
  have hout := bench.aluOut_add (by rw [hcontrol]) (by rw [hcontrol]; rfl)
  rw [himm] at hout
  simp [executed, Main.halt, Main.loadAddress, hcontrol, defaults, ramIndex,
    Main.dmemAddr, hout]
  rfl

/-- The condition under which a word of the branch opcode is taken: bit 12
inverts the comparison of the two registers. -/
def branchCondition (main : Main) (word : Word) : Bool :=
  (main.regfile.readRegOut (Isa.rs1 word) ==
    main.regfile.readRegOut (Isa.rs2 word)) ^^ word.getLsbD 12

theorem branchTaken_btype (main : Main) (hop : opcode word = btype) :
    main.branchTaken rtl word = branchCondition main word := by
  have hcontrol := controlUnit_btype hop
  have hzero :
      main.aluZero rtl word =
        (alu (main.readRegOut1 word) (main.readRegOut2 word)
          AluOp.sub.code).aluZero := by
    simp only [Main.aluZero, Main.aluBMux, Main.aluCuOut, hcontrol, defaults]
    rfl
  rw [Main.branchTaken, hzero, alu_sub_aluZero]
  rfl

theorem executed_btype (hop : opcode word = btype) :
    bench.executed rtl word =
      retired
        (if branchCondition bench.main word then
          bench.main.pcAddress + (Isa.immB word).signExtend 32
        else bench.main.pcAddress + 4#32)
        bench.main.regfile bench.ram := by
  have hcontrol := controlUnit_btype hop
  have himm := immOut_btype hop
  have hload :
      bench.main.loadAddress rtl word =
        branchCondition bench.main word := by
    rw [Main.loadAddress, branchTaken_btype bench.main hop, hcontrol]
    rfl
  simp [executed, Main.halt, hcontrol, defaults, hload, himm]

theorem executed_jtype (hop : opcode word = jtype) :
    bench.executed rtl word =
      retired (bench.main.pcAddress + (Isa.immJ word).signExtend 32)
        (bench.main.regfile.write (Isa.rd word)
          (bench.main.regfile.readRegOut (Isa.rs1 word) +
            (Isa.immJ word).signExtend 32))
        bench.ram := by
  have hcontrol := controlUnit_jtype hop
  have himm := immOut_jtype hop
  have hout := bench.aluOut_add (by rw [hcontrol]) (by rw [hcontrol]; rfl)
  rw [himm] at hout
  simp [executed, Main.halt, Main.loadAddress, Main.writeData, hcontrol,
    defaults, himm, hout]
  rfl

end Opcodes

end Bench
end RiscvLogism
