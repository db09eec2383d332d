import RiscvLogism.InstructionEffect

/-!
# The link register of a jump

The instruction table gives `JAL` the effect `rd = PC + 4; PC += imm`.  The
write-back multiplexer of `main.sv` has no input for `PC + 4`: a jump writes
the output of the arithmetic unit, which is the offset plus the register that
bits 19 to 15 of the word happen to name.
-/

namespace RiscvLogism
namespace Bench

/-- One full instruction has the effect which the table gives to `JAL`. -/
def JalLinks (bench : Bench) (fetchWord word : Word) : Prop :=
  let next := bench.fullInstruction rtl fetchWord word
  next.main.pcAddress =
      bench.main.pcAddress + (Isa.immJ word).signExtend 32 ∧
    next.main.regfile.regs (Isa.rd word) = bench.main.pcAddress + 4#32 ∧
    (∀ index, index ≠ Isa.rd word →
      next.main.regfile.regs index = bench.main.regfile.regs index) ∧
    next.ram = bench.ram

section Jump

variable {bench : Bench} {word : Word}

theorem fullInstruction_jtype (hphase : bench.main.executeCycle = false)
    (hop : ControlUnit.opcode word = ControlUnit.jtype) (fetchWord : Word) :
    bench.fullInstruction rtl fetchWord word =
      retired (bench.main.pcAddress + (Isa.immJ word).signExtend 32)
        (bench.main.regfile.write (Isa.rd word)
          (bench.main.regfile.readRegOut (Isa.rs1 word) +
            (Isa.immJ word).signExtend 32))
        bench.ram := by
  rw [fullInstruction_eq hphase, executed_jtype bench hop]

theorem fullInstruction_jtype_link
    (hphase : bench.main.executeCycle = false)
    (hop : ControlUnit.opcode word = ControlUnit.jtype)
    (hrd : Isa.rd word ≠ 0#5) (fetchWord : Word) :
    (bench.fullInstruction rtl fetchWord word).main.regfile.regs
        (Isa.rd word) =
      bench.main.regfile.readRegOut (Isa.rs1 word) +
        (Isa.immJ word).signExtend 32 := by
  rw [fullInstruction_jtype hphase hop]
  exact RegFile.write_regs_self hrd _ _

/-- The jump links correctly exactly when the register named by bits 19 to 15
and the offset happen to add up to `PC + 4`. -/
theorem jalLinks_iff (hphase : bench.main.executeCycle = false)
    (hop : ControlUnit.opcode word = ControlUnit.jtype)
    (hrd : Isa.rd word ≠ 0#5) (fetchWord : Word) :
    bench.JalLinks fetchWord word ↔
      bench.main.regfile.readRegOut (Isa.rs1 word) +
          (Isa.immJ word).signExtend 32 =
        bench.main.pcAddress + 4#32 := by
  have hlink := fullInstruction_jtype_link hphase hop hrd fetchWord
  constructor
  · rintro ⟨_, hreturn, _, _⟩
    exact hlink.symm.trans hreturn
  · intro hreturn
    have hjump := fullInstruction_jtype hphase hop fetchWord
    refine ⟨?_, hlink.trans hreturn, ?_, ?_⟩
    · rw [hjump]
      rfl
    · intro index hother
      rw [hjump]
      exact RegFile.write_regs_of_ne hother _ _
    · rw [hjump]
      rfl

end Jump

theorem jalLinks_iff_afterReset :
    ({ main := Main.afterReset, ram := fun _ => 0#32 } : Bench).JalLinks
        0#32 0x004000ef#32 ↔
      (0#32 : Word) + 4#32 = 0#32 + 4#32 :=
  jalLinks_iff rfl (by decide) (by decide) 0#32

theorem not_jalLinks_afterReset :
    ControlUnit.opcode 0x008000ef#32 = ControlUnit.jtype ∧
      Isa.rd 0x008000ef#32 = 1#5 ∧
      ¬ ({ main := Main.afterReset, ram := fun _ => 0#32 } :
          Bench).JalLinks 0#32 0x008000ef#32 := by
  refine ⟨by decide, by decide, ?_⟩
  rintro ⟨_, hreturn, _, _⟩
  rw [fullInstruction_jtype_link rfl (by decide) (by decide)] at hreturn
  have hwrong : (8#32 : Word) = 4#32 := hreturn
  exact absurd hwrong (by decide)

end Bench
end RiscvLogism
