import RiscvLogism.BoardModel

/-!
# The two copies of the core

The ALU of the board has five operations and a different encoding of them.
It agrees with the ALU of `verilog/rtl` on every word except the
register-register operations it lacks, for which it computes a conjunction.
On words of the common part the two cores go through the same states.
-/

namespace RiscvLogism
namespace De1

/-! ## Operations -/

def CommonFunct3 (funct3 : BitVec 3) : Prop :=
  funct3 = 0b000#3 ∨ funct3 = 0b100#3 ∨ funct3 = 0b110#3 ∨
    funct3 = 0b111#3

instance (funct3 : BitVec 3) : Decidable (CommonFunct3 funct3) :=
  inferInstanceAs (Decidable (_ ∨ _))

theorem not_commonFunct3_iff (funct3 : BitVec 3) :
    ¬ CommonFunct3 funct3 ↔
      funct3 = 0b001#3 ∨ funct3 = 0b010#3 ∨ funct3 = 0b011#3 ∨
        funct3 = 0b101#3 := by
  unfold CommonFunct3
  revert funct3
  decide

theorem aluOut_func_code {funct3 : BitVec 3} (hcommon : CommonFunct3 funct3)
    (x y : Word) (funct7Bit5 : Bool) :
    aluOut x y (aluControlUnit 0b10#2 funct3 funct7Bit5) =
      (funcOp funct3 funct7Bit5).denote x y := by
  rcases hcommon with hadd | hxor | hor | hand
  · subst hadd
    cases funct7Bit5 <;> rfl
  · subst hxor
    rfl
  · subst hor
    rfl
  · subst hand
    rfl

/-- The operations the board lacks fall through to the conjunction. -/
theorem aluOut_func_default {funct3 : BitVec 3}
    (hother : ¬ CommonFunct3 funct3) (x y : Word) (funct7Bit5 : Bool) :
    aluOut x y (aluControlUnit 0b10#2 funct3 funct7Bit5) = x &&& y := by
  rcases (not_commonFunct3_iff funct3).mp hother with
    hsll | hslt | hsltu | hsr
  · subst hsll
    rfl
  · subst hslt
    rfl
  · subst hsltu
    rfl
  · subst hsr
    rfl

/-! ## Agreement of the arithmetic -/

/-- Both pairs of an ALU control unit and an ALU give the same outputs for a
word, whatever the operands. -/
def SameArithmetic (word : Word) : Prop :=
  ∀ x y : Word,
    rtl.aluOut x y (Main.aluCuOut rtl word) =
        arithmetic.aluOut x y (Main.aluCuOut arithmetic word) ∧
      rtl.aluZero x y (Main.aluCuOut rtl word) =
        arithmetic.aluZero x y (Main.aluCuOut arithmetic word)

def CommonWord (word : Word) : Prop :=
  ControlUnit.opcode word = ControlUnit.rtype →
    CommonFunct3 (word.extractLsb 14 12)

theorem sameArithmetic_iff (word : Word) :
    SameArithmetic word ↔
      ∀ x y : Word,
        Alu.aluOut x y (Main.aluCuOut rtl word) =
          aluOut x y (Main.aluCuOut arithmetic word) := by
  constructor
  · intro hsame x y
    exact (hsame x y).1
  · intro hout x y
    have hzero :
        (Alu.aluOut x y (Main.aluCuOut rtl word) == 0#32) =
          (aluOut x y (Main.aluCuOut arithmetic word) == 0#32) := by
      rw [hout]
    exact ⟨hout x y, hzero⟩

end De1

theorem ControlUnit.aluOps_of_not_rtype {instruction : Word}
    (hop : opcode instruction ≠ rtype) :
    (controlUnit instruction).aluOps = 0b00#2 ∨
      (controlUnit instruction).aluOps = 0b01#2 := by
  unfold controlUnit
  dsimp only
  split_ifs <;> simp [defaults]

namespace De1

theorem sameArithmetic_of_commonWord {word : Word}
    (hcommon : CommonWord word) : SameArithmetic word := by
  rw [sameArithmetic_iff]
  intro x y
  by_cases hop : ControlUnit.opcode word = ControlUnit.rtype
  · have hops : (controlUnit word).aluOps = 0b10#2 := by
      rw [ControlUnit.controlUnit_rtype hop]
    rw [Main.aluCuOut, Main.aluCuOut, hops]
    change Alu.aluOut x y (RiscvLogism.aluControlUnit 0b10#2 _ _) =
      aluOut x y (aluControlUnit 0b10#2 _ _)
    rw [aluControlUnit_func, Alu.aluOut_code, aluOut_func_code (hcommon hop)]
  · rw [Main.aluCuOut, Main.aluCuOut]
    rcases ControlUnit.aluOps_of_not_rtype hop with hops | hops
    · rw [hops]
      exact Alu.aluOut_code .add x y
    · rw [hops]
      exact Alu.aluOut_code .sub x y

theorem not_sameArithmetic_of_not_commonFunct3 {word : Word}
    (hop : ControlUnit.opcode word = ControlUnit.rtype)
    (hother : ¬ CommonFunct3 (word.extractLsb 14 12)) :
    ¬ SameArithmetic word := by
  rw [sameArithmetic_iff]
  intro hsame
  have hops : (controlUnit word).aluOps = 0b10#2 := by
    rw [ControlUnit.controlUnit_rtype hop]
  simp only [Main.aluCuOut, hops] at hsame
  have hand : ∀ x y : Word,
      (funcOp (word.extractLsb 14 12) (word.getLsbD 30)).denote x y =
        x &&& y := by
    intro x y
    rw [← aluOut_func_default hother x y (word.getLsbD 30),
      ← Alu.aluOut_code, ← aluControlUnit_func]
    exact hsame x y
  rcases (not_commonFunct3_iff _).mp hother with hsll | hslt | hsltu | hsr
  · rw [hsll] at hand
    have hshift : (1#32 : Word) = 0#32 := hand 1#32 0#32
    contradiction
  · rw [hslt] at hand
    have hless : (1#32 : Word) = 0#32 := hand 0#32 1#32
    contradiction
  · rw [hsltu] at hand
    have hless : (1#32 : Word) = 0#32 := hand 0#32 1#32
    contradiction
  · rw [hsr] at hand
    have hshift := hand 1#32 0#32
    have hone : (1#32 : Word) = 0#32 := by
      cases hbit : word.getLsbD 30 with
      | false =>
          rw [hbit] at hshift
          exact hshift
      | true =>
          rw [hbit] at hshift
          exact hshift
    contradiction

/-! ## Agreement of the cores -/

structure Stimulus where
  areset : Bool
  imemData : Word
  dmemRdata : Word

def Stimulus.rtlInputs (stimulus : Stimulus) : Main.Inputs where
  areset := stimulus.areset
  enable := true
  imemData := stimulus.imemData
  dmemRdata := stimulus.dmemRdata

def Stimulus.de1Inputs (stimulus : Stimulus) : Inputs where
  key1 := !stimulus.areset
  imemData := stimulus.imemData
  dmemRdata := stimulus.dmemRdata

theorem Stimulus.mainInputs_de1Inputs (stimulus : Stimulus) :
    stimulus.de1Inputs.mainInputs = stimulus.rtlInputs := by
  simp [Inputs.mainInputs, Inputs.areset, de1Inputs, rtlInputs]

theorem aluOut_eq_of_commonWord (main : Main) {word : Word}
    (hcommon : CommonWord word) :
    main.aluOut rtl word = main.aluOut arithmetic word :=
  (sameArithmetic_of_commonWord hcommon _ _).1

theorem always_eq_of_commonWord (main : Main) {stimulus : Stimulus}
    (hcommon : CommonWord stimulus.imemData) :
    main.always rtl stimulus.rtlInputs =
      always main stimulus.de1Inputs := by
  rw [always, stimulus.mainInputs_de1Inputs]
  apply Main.always_congr
  · exact aluOut_eq_of_commonWord main hcommon
  · exact (sameArithmetic_of_commonWord hcommon _ _).2

theorem run_eq_of_commonWord (main : Main) {stimuli : List Stimulus}
    (hcommon : ∀ stimulus ∈ stimuli, CommonWord stimulus.imemData) :
    Clocked.run (Main.always rtl) main (stimuli.map Stimulus.rtlInputs) =
      Clocked.run always main (stimuli.map Stimulus.de1Inputs) :=
  Clocked.run_map_eq Stimulus.rtlInputs Stimulus.de1Inputs
    (fun stimulus => CommonWord stimulus.imemData)
    (fun main _ hword => always_eq_of_commonWord main hword) main hcommon

/-- The states and outputs of the two cores agree at every cycle of a run on
common words, and the arithmetic agrees on no other words. -/
theorem cores_agree :
    (∀ stimuli : List Stimulus,
      (∀ stimulus ∈ stimuli, CommonWord stimulus.imemData) →
        let now :=
          Clocked.run (Main.always rtl) Main.afterReset
            (stimuli.map Stimulus.rtlInputs)
        let now' :=
          Clocked.run always Main.afterReset
            (stimuli.map Stimulus.de1Inputs)
        now'.pcAddress = now.pcAddress ∧
          now'.regfile = now.regfile ∧
          now'.executeCycle = now.executeCycle ∧
          imemAddr now' = now.pcAddress.extractLsb 14 2 ∧
          ∀ word, CommonWord word →
            halt word = Main.halt word ∧
              dmemWe now' word = now.dmemWe word ∧
              dmemWdata now' word = now.dmemWdata word ∧
              dmemAddr now' word =
                (now.dmemAddr rtl word).extractLsb 14 2) ∧
    ∀ word, SameArithmetic word ↔
      ¬ (ControlUnit.opcode word = ControlUnit.rtype ∧
        (word.extractLsb 14 12 = 0b001#3 ∨
          word.extractLsb 14 12 = 0b010#3 ∨
          word.extractLsb 14 12 = 0b011#3 ∨
          word.extractLsb 14 12 = 0b101#3)) := by
  constructor
  · intro stimuli hcommon now now'
    have hstate : now = now' := run_eq_of_commonWord _ hcommon
    rw [← hstate]
    refine ⟨rfl, rfl, rfl, rfl, ?_⟩
    intro word hword
    refine ⟨rfl, rfl, rfl, ?_⟩
    rw [dmemAddr, ← aluOut_eq_of_commonWord now hword]
    rfl
  · intro word
    rw [← not_commonFunct3_iff]
    constructor
    · rintro hsame ⟨hop, hother⟩
      exact not_sameArithmetic_of_not_commonFunct3 hop hother hsame
    · intro hcommon
      apply sameArithmetic_of_commonWord
      intro hop
      by_contra hother
      exact hcommon ⟨hop, hother⟩

theorem cores_agree_addi :
    let stimulus : Stimulus := ⟨false, 0x00100093#32, 0#32⟩
    let now :=
      Clocked.run (Main.always rtl) Main.afterReset
        [stimulus.rtlInputs, stimulus.rtlInputs]
    let now' :=
      Clocked.run always Main.afterReset
        [stimulus.de1Inputs, stimulus.de1Inputs]
    now'.pcAddress = now.pcAddress ∧
      dmemAddr now' 0x001080b3#32 =
        (now.dmemAddr rtl 0x001080b3#32).extractLsb 14 2 := by
  intro stimulus
  have hcommon :
      ∀ other ∈ [stimulus, stimulus], CommonWord other.imemData := by
    intro other hmem hop
    have hother : other = stimulus := by simpa using hmem
    rw [hother] at hop
    have hne : ControlUnit.opcode 0x00100093#32 ≠ ControlUnit.rtype := by
      decide
    exact absurd hop hne
  obtain ⟨hpc, _, _, _, hports⟩ :=
    cores_agree.1 [stimulus, stimulus] hcommon
  have hword : CommonWord 0x001080b3#32 := fun _ => .inl rfl
  exact ⟨hpc, (hports _ hword).2.2.2⟩

end De1
end RiscvLogism
