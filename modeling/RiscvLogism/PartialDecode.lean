import RiscvLogism.IsaRefinement

/-!
# Words the core does not implement

The control unit has no notion of an illegal instruction.  It selects by
opcode and ignores `funct3` and most of `funct7`, so an unimplemented word
whose opcode has a case is executed as the implemented instruction with the
same opcode and the same operands.  Every other word is a no-operation.
-/

namespace RiscvLogism

/-! ## The implemented word with the same effect -/

namespace Isa

def canonFunct3 (word : Word) : BitVec 3 :=
  if opcode word = 0b0010011#7 then 0b000#3
  else if opcode word = 0b0000011#7 then 0b010#3
  else if opcode word = 0b0100011#7 then 0b010#3
  else if opcode word = 0b1100011#7 then
    if word.getLsbD 12 then 0b001#3 else 0b000#3
  else funct3 word

def canonFunct7 (word : Word) : BitVec 7 :=
  if opcode word = 0b0110011#7 then
    if word.getLsbD 30 &&
        (funct3 word == 0b000#3 || funct3 word == 0b101#3) then
      0b0100000#7
    else 0b0000000#7
  else funct7 word

/-- The word with its function fields replaced by those of the instruction
which the core takes it for. -/
def canon (word : Word) : Word :=
  layout (canonFunct7 word) (rs2 word) (rs1 word) (canonFunct3 word)
    (rd word) (opcode word)

theorem immI_eq_fields (word : Word) :
    immI word = funct7 word ++ rs2 word := by
  unfold immI funct7 rs2 BitVec.extractLsb
  rw [BitVec.extractLsb'_append_extractLsb'_eq_extractLsb' (by omega)]

theorem immS_eq_fields (word : Word) :
    immS word = funct7 word ++ rd word := rfl

theorem immB_eq_fields (word : Word) :
    immB word =
      (funct7 word).extractLsb 6 6 ++ (rd word).extractLsb 0 0 ++
        (funct7 word).extractLsb 5 0 ++ (rd word).extractLsb 4 1 ++
        0b0#1 := by
  unfold immB funct7 rd BitVec.extractLsb
  rw [BitFields.extractLsb'_extractLsb' word 25 6 (by omega),
    BitFields.extractLsb'_extractLsb' word 7 0 (by omega),
    BitFields.extractLsb'_extractLsb' word 25 0 (by omega),
    BitFields.extractLsb'_extractLsb' word 7 1 (by omega)]

theorem regOp_canon (funct3 : BitVec 3) (bit : Bool) :
    regOp funct3
        (if bit && (funct3 == 0b000#3 || funct3 == 0b101#3) then
          0b0100000#7
        else 0b0000000#7) =
      some (funcOp funct3 bit) := by
  revert funct3 bit
  decide

section Canon

variable (word : Word)

@[simp] theorem opcode_canon : opcode (canon word) = opcode word :=
  opcode_layout ..

@[simp] theorem rd_canon : rd (canon word) = rd word := rd_layout ..

@[simp] theorem rs1_canon : rs1 (canon word) = rs1 word := rs1_layout ..

@[simp] theorem rs2_canon : rs2 (canon word) = rs2 word := rs2_layout ..

@[simp] theorem funct3_canon : funct3 (canon word) = canonFunct3 word :=
  funct3_layout ..

@[simp] theorem funct7_canon : funct7 (canon word) = canonFunct7 word :=
  funct7_layout ..

end Canon

section Offsets

variable {word : Word}

theorem funct7_canon_of_ne (hop : opcode word ≠ 0b0110011#7) :
    funct7 (canon word) = funct7 word := by
  rw [funct7_canon, canonFunct7, if_neg hop]

theorem immI_canon (hop : opcode word ≠ 0b0110011#7) :
    immI (canon word) = immI word := by
  rw [immI_eq_fields, immI_eq_fields, funct7_canon_of_ne hop, rs2_canon]

theorem immS_canon (hop : opcode word ≠ 0b0110011#7) :
    immS (canon word) = immS word := by
  rw [immS_eq_fields, immS_eq_fields, funct7_canon_of_ne hop, rd_canon]

theorem immB_canon (hop : opcode word ≠ 0b0110011#7) :
    immB (canon word) = immB word := by
  rw [immB_eq_fields, immB_eq_fields, funct7_canon_of_ne hop, rd_canon]

theorem canon_of_jtype (hop : opcode word = 0b1101111#7) :
    canon word = word := by
  have hfunct3 : canonFunct3 word = funct3 word := by
    simp [canonFunct3, hop]
  have hfunct7 : canonFunct7 word = funct7 word := by
    simp [canonFunct7, hop]
  rw [canon, hfunct3, hfunct7, layout_fields]

end Offsets

end Isa

theorem decode_canon (word : Word) :
    Isa.decode (Isa.canon word) = executedInstr word := by
  unfold Isa.decode executedInstr
  rw [Isa.opcode_canon, Isa.rd_canon, Isa.rs1_canon, Isa.rs2_canon,
    Isa.funct3_canon]
  by_cases hr : Isa.opcode word = 0b0110011#7
  · have hfunct3 : Isa.canonFunct3 word = Isa.funct3 word := by
      simp [Isa.canonFunct3, hr]
    rw [if_pos hr, if_pos hr, hfunct3, Isa.funct7_canon, Isa.canonFunct7,
      if_pos hr, Isa.regOp_canon]
    rfl
  rw [if_neg hr, if_neg hr]
  by_cases hi : Isa.opcode word = 0b0010011#7
  · have hfunct3 : Isa.canonFunct3 word = 0b000#3 := by
      rw [Isa.canonFunct3, if_pos hi]
    rw [if_pos hi, if_pos hi, if_pos hfunct3, Isa.immI_canon hr]
  rw [if_neg hi, if_neg hi]
  by_cases hl : Isa.opcode word = 0b0000011#7
  · have hfunct3 : Isa.canonFunct3 word = 0b010#3 := by
      rw [Isa.canonFunct3, if_neg hi, if_pos hl]
    rw [if_pos hl, if_pos hl, if_pos hfunct3, Isa.immI_canon hr]
  rw [if_neg hl, if_neg hl]
  by_cases hs : Isa.opcode word = 0b0100011#7
  · have hfunct3 : Isa.canonFunct3 word = 0b010#3 := by
      rw [Isa.canonFunct3, if_neg hi, if_neg hl, if_pos hs]
    rw [if_pos hs, if_pos hs, if_pos hfunct3, Isa.immS_canon hr]
  rw [if_neg hs, if_neg hs]
  by_cases hb : Isa.opcode word = 0b1100011#7
  · have hfunct3 :
        Isa.canonFunct3 word =
          if word.getLsbD 12 then 0b001#3 else 0b000#3 := by
      rw [Isa.canonFunct3, if_neg hi, if_neg hl, if_neg hs, if_pos hb]
    rw [if_pos hb, if_pos hb, hfunct3, Isa.immB_canon hr]
    cases hbit : word.getLsbD 12 <;> rfl
  rw [if_neg hb, if_neg hb]
  by_cases hj : Isa.opcode word = 0b1101111#7
  · rw [if_pos hj, if_pos hj, Isa.canon_of_jtype hj]
  rw [if_neg hj, if_neg hj]

theorem executedInstr_isSome {word : Word}
    (hknown : ControlUnit.KnownOpcode (ControlUnit.opcode word)) :
    (executedInstr word).isSome = true := by
  have hopcode : ControlUnit.KnownOpcode (Isa.opcode word) := hknown
  unfold executedInstr
  rcases hopcode with hop | hop | hop | hop | hop | hop
  · rw [hop]; rfl
  · rw [hop]; rfl
  · rw [hop]; rfl
  · rw [hop]; rfl
  · rw [hop]; cases word.getLsbD 12 <;> rfl
  · rw [hop]; rfl

theorem isLink_executedInstr {word : Word} {instr : Isa.Instr}
    (hnot : ¬ Isa.Implemented word)
    (hinstr : executedInstr word = some instr) :
    instr.isLink = false := by
  have hjump : Isa.opcode word ≠ ControlUnit.jtype := by
    intro hop
    apply hnot
    rw [Isa.Implemented, ← Isa.canon_of_jtype hop, decode_canon, hinstr]
    rfl
  unfold executedInstr at hinstr
  split_ifs at hinstr
  all_goals first
    | (obtain rfl := Option.some.inj hinstr; rfl)
    | contradiction

/-! ## The effect of an unimplemented word -/

namespace Bench

/-- One full instruction changes no register and no data word and moves to
the next instruction. -/
def LeavesStateAlone (bench : Bench) (fetchWord word : Word) : Prop :=
  let next := bench.fullInstruction rtl fetchWord word
  next.main.pcAddress = bench.main.pcAddress + 4#32 ∧
    next.main.regfile = bench.main.regfile ∧ next.ram = bench.ram

/-- An unimplemented word is a no-operation if its opcode has no case, and
has the effect of its canonical word otherwise. -/
theorem unimplemented_effect {bench : Bench} {word : Word}
    (hphase : bench.main.executeCycle = false) (hne : word ≠ 0#32)
    (hnot : ¬ Isa.Implemented word) (fetchWord : Word) :
    (¬ ControlUnit.KnownOpcode (ControlUnit.opcode word) →
      bench.LeavesStateAlone fetchWord word) ∧
    (ControlUnit.KnownOpcode (ControlUnit.opcode word) →
      Isa.Implemented (Isa.canon word) ∧
        (bench.fullInstruction rtl fetchWord word).isaState =
          Isa.execWord bench.isaState (Isa.canon word)) := by
  constructor
  · intro hunknown
    unfold LeavesStateAlone
    rw [fullInstruction_eq hphase, executed_unknown bench rtl hne hunknown]
    exact ⟨rfl, rfl, rfl⟩
  · intro hknown
    obtain ⟨instr, hinstr⟩ :=
      Option.isSome_iff_exists.mp (executedInstr_isSome hknown)
    have hdecode : Isa.decode (Isa.canon word) = some instr :=
      (decode_canon word).trans hinstr
    constructor
    · rw [Isa.Implemented, hdecode]
      rfl
    · rw [fullInstruction_eq hphase, Isa.execWord, hdecode]
      exact bench.isaState_executed hinstr
        (isLink_executedInstr hnot hinstr)

theorem unimplemented_effect_afterReset :
    let bench : Bench := { main := Main.afterReset, ram := fun _ => 0#32 }
    (Isa.Implemented (Isa.canon 0x00107093#32) ∧
      (bench.fullInstruction rtl 0#32 0x00107093#32).isaState =
        Isa.execWord bench.isaState (Isa.canon 0x00107093#32)) ∧
      bench.LeavesStateAlone 0#32 0x000010b7#32 := by
  intro bench
  exact ⟨(unimplemented_effect rfl (by decide) (by decide) 0#32).2
      (by decide),
    (unimplemented_effect rfl (by decide) (by decide) 0#32).1
      (by decide)⟩

/-- `ANDI x1, x0, 1` is executed as `ADDI x1, x0, 1`. -/
theorem not_leavesStateAlone_andi :
    (0x00107093#32 : Word) ≠ 0#32 ∧ ¬ Isa.Implemented 0x00107093#32 ∧
      ¬ ({ main := Main.afterReset, ram := fun _ => 0#32 } :
          Bench).LeavesStateAlone 0#32 0x00107093#32 := by
  refine ⟨by decide, by decide, ?_⟩
  rintro ⟨_, hregfile, _⟩
  rw [fullInstruction_eq rfl, executed_itype _ (by decide)] at hregfile
  have hone := congrFun (congrArg RegFile.regs hregfile) 1#5
  have hwrong : (1#32 : Word) = 0#32 := hone
  exact absurd hwrong (by decide)

end Bench
end RiscvLogism
