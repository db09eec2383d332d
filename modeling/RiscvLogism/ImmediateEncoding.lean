import RiscvLogism.InstructionEffect

/-!
# Immediates

RV32I scatters an immediate over the instruction word in one of four layouts.
The circuit gathers it again in `ImmGen.sv`, which learns the layout from three
outputs of `ControlUnit.sv` and not from the opcode.  Encoding and gathering
are inverse to each other.
-/

namespace RiscvLogism
namespace Isa

/-! ## Encoding -/

inductive Format where
  | i
  | s
  | b
  | j
  deriving DecidableEq, Repr

/-- The fields of an instruction word which hold no part of an immediate.  A
format uses those which it has. -/
structure Fields where
  rd : BitVec 5
  rs1 : BitVec 5
  rs2 : BitVec 5
  funct3 : BitVec 3
  deriving DecidableEq, Repr

def Fields.ofWord (word : Word) : Fields where
  rd := Isa.rd word
  rs1 := Isa.rs1 word
  rs2 := Isa.rs2 word
  funct3 := Isa.funct3 word

namespace Format

def ofOpcode (opcode : BitVec 7) : Option Format :=
  if opcode = 0b0010011#7 then some .i
  else if opcode = 0b0000011#7 then some .i
  else if opcode = 0b0100011#7 then some .s
  else if opcode = 0b1100011#7 then some .b
  else if opcode = 0b1101111#7 then some .j
  else none

def width : Format → ℕ
  | .i => 12
  | .s => 12
  | .b => 13
  | .j => 21

/-- The number of low bits of an immediate which are zero and not encoded. -/
def implicitZeros : Format → ℕ
  | .i => 0
  | .s => 0
  | .b => 1
  | .j => 1

def InRange (format : Format) (imm : ℤ) : Prop :=
  -(2 ^ (format.width - 1)) ≤ imm ∧ imm < 2 ^ (format.width - 1) ∧
    2 ^ format.implicitZeros ∣ imm

instance (format : Format) (imm : ℤ) : Decidable (format.InRange imm) :=
  inferInstanceAs (Decidable (_ ∧ _))

def encode (format : Format) (opcode : BitVec 7) (fields : Fields)
    (imm : Word) : Word :=
  match format with
  | .i =>
      imm.extractLsb 11 0 ++ fields.rs1 ++ fields.funct3 ++ fields.rd ++
        opcode
  | .s =>
      imm.extractLsb 11 5 ++ fields.rs2 ++ fields.rs1 ++ fields.funct3 ++
        imm.extractLsb 4 0 ++ opcode
  | .b =>
      imm.extractLsb 12 12 ++ imm.extractLsb 10 5 ++ fields.rs2 ++
        fields.rs1 ++ fields.funct3 ++ imm.extractLsb 4 1 ++
        imm.extractLsb 11 11 ++ opcode
  | .j =>
      imm.extractLsb 20 20 ++ imm.extractLsb 10 1 ++
        imm.extractLsb 11 11 ++ imm.extractLsb 19 12 ++ fields.rd ++ opcode

/-- The immediate of a word in the given format, extended to 32 bits. -/
def immediate (format : Format) (word : Word) : Word :=
  match format with
  | .i => (immI word).signExtend 32
  | .s => (immS word).signExtend 32
  | .b => (immB word).signExtend 32
  | .j => (immJ word).signExtend 32

/-! ## The layouts by slices -/

section Slices

variable (op : BitVec 7) (fields : Fields) (imm word : Word)

theorem encode_i :
    encode .i op fields imm =
      imm.extractLsb' 0 12 ++ fields.rs1 ++ fields.funct3 ++ fields.rd ++
        op := rfl

theorem encode_s :
    encode .s op fields imm =
      imm.extractLsb' 5 7 ++ fields.rs2 ++ fields.rs1 ++ fields.funct3 ++
        imm.extractLsb' 0 5 ++ op := rfl

theorem encode_b :
    encode .b op fields imm =
      imm.extractLsb' 12 1 ++ imm.extractLsb' 5 6 ++ fields.rs2 ++
        fields.rs1 ++ fields.funct3 ++ imm.extractLsb' 1 4 ++
        imm.extractLsb' 11 1 ++ op := rfl

theorem encode_j :
    encode .j op fields imm =
      imm.extractLsb' 20 1 ++ imm.extractLsb' 1 10 ++
        imm.extractLsb' 11 1 ++ imm.extractLsb' 12 8 ++ fields.rd ++ op :=
  rfl

theorem immS_slices :
    immS word = word.extractLsb' 25 7 ++ word.extractLsb' 7 5 := rfl

theorem immB_slices :
    immB word =
      word.extractLsb' 31 1 ++ word.extractLsb' 7 1 ++
        word.extractLsb' 25 6 ++ word.extractLsb' 8 4 ++ 0#1 := rfl

theorem immJ_slices :
    immJ word =
      word.extractLsb' 31 1 ++ word.extractLsb' 12 8 ++
        word.extractLsb' 20 1 ++ word.extractLsb' 21 10 ++ 0#1 := rfl

end Slices

/-! ## Reading back an encoded word -/

section Encoded

variable (op : BitVec 7) (fields : Fields) {imm : Word}

theorem opcode_encode (format : Format) :
    opcode (format.encode op fields imm) = op := by
  cases format with
  | i | s | b | j =>
      exact (BitVec.extractLsb'_append_eq_of_add_le (by omega)).trans
        BitVec.extractLsb'_eq_self

theorem immI_encode :
    immI (encode .i op fields imm) = imm.extractLsb' 0 12 := by
  rw [encode_i]
  unfold immI BitVec.extractLsb
  simp (disch := omega) only [BitVec.extractLsb'_append_eq_of_le]
  exact BitVec.extractLsb'_eq_self

theorem immS_encode :
    immS (encode .s op fields imm) = imm.extractLsb' 0 12 := by
  rw [immS_slices, encode_s]
  simp (disch := omega) only [BitVec.extractLsb'_append_eq_of_le,
    BitVec.extractLsb'_append_eq_of_add_le, Nat.reduceSub,
    BitVec.extractLsb'_eq_self]
  exact BitVec.extractLsb'_append_extractLsb'_eq_extractLsb' rfl

theorem immB_encode (heven : imm.extractLsb' 0 1 = 0#1) :
    immB (encode .b op fields imm) = imm.extractLsb' 0 13 := by
  rw [immB_slices, encode_b]
  simp (disch := omega) only [BitVec.extractLsb'_append_eq_of_le,
    BitVec.extractLsb'_append_eq_of_add_le, Nat.reduceSub,
    BitVec.extractLsb'_eq_self]
  rw [← heven,
    BitVec.extractLsb'_append_extractLsb'_eq_extractLsb' (by omega),
    BitVec.extractLsb'_append_extractLsb'_eq_extractLsb' (by omega),
    BitVec.extractLsb'_append_extractLsb'_eq_extractLsb' (by omega),
    BitVec.extractLsb'_append_extractLsb'_eq_extractLsb' (by omega)]

theorem immJ_encode (heven : imm.extractLsb' 0 1 = 0#1) :
    immJ (encode .j op fields imm) = imm.extractLsb' 0 21 := by
  rw [immJ_slices, encode_j]
  simp (disch := omega) only [BitVec.extractLsb'_append_eq_of_le,
    BitVec.extractLsb'_append_eq_of_add_le, Nat.reduceSub,
    BitVec.extractLsb'_eq_self]
  rw [← heven,
    BitVec.extractLsb'_append_extractLsb'_eq_extractLsb' (by omega),
    BitVec.extractLsb'_append_extractLsb'_eq_extractLsb' (by omega),
    BitVec.extractLsb'_append_extractLsb'_eq_extractLsb' (by omega),
    BitVec.extractLsb'_append_extractLsb'_eq_extractLsb' (by omega)]

end Encoded

/-! ## Encoding the fields of a word -/

section Reencoded

variable (word : Word)

theorem encode_ofWord_i :
    encode .i (opcode word) (.ofWord word) (immediate .i word) = word := by
  rw [encode_i, immediate, immI]
  unfold Fields.ofWord rd rs1 funct3 opcode BitVec.extractLsb
  rw [BitFields.extractLsb'_signExtend _ (by omega) (by omega),
    BitVec.extractLsb'_eq_self,
    BitVec.extractLsb'_append_extractLsb'_eq_extractLsb' (by omega),
    BitVec.extractLsb'_append_extractLsb'_eq_extractLsb' (by omega),
    BitVec.extractLsb'_append_extractLsb'_eq_extractLsb' (by omega),
    BitVec.extractLsb'_append_extractLsb'_eq_extractLsb' (by omega)]
  exact BitVec.extractLsb'_eq_self

theorem encode_ofWord_s :
    encode .s (opcode word) (.ofWord word) (immediate .s word) = word := by
  rw [encode_s, immediate, immS_slices]
  unfold Fields.ofWord rs2 rs1 funct3 opcode BitVec.extractLsb
  simp (disch := omega) only [BitFields.extractLsb'_signExtend,
    BitVec.extractLsb'_append_eq_of_le,
    BitVec.extractLsb'_append_eq_of_add_le, Nat.reduceSub,
    BitVec.extractLsb'_eq_self]
  simp (disch := omega) only [
    BitVec.extractLsb'_append_extractLsb'_eq_extractLsb']
  exact BitVec.extractLsb'_eq_self

theorem encode_ofWord_b :
    encode .b (opcode word) (.ofWord word) (immediate .b word) = word := by
  rw [encode_b, immediate, immB_slices]
  unfold Fields.ofWord rs2 rs1 funct3 opcode BitVec.extractLsb
  simp (disch := omega) only [BitFields.extractLsb'_signExtend,
    BitVec.extractLsb'_append_eq_of_le,
    BitVec.extractLsb'_append_eq_of_add_le, Nat.reduceSub,
    BitVec.extractLsb'_eq_self]
  simp (disch := omega) only [
    BitVec.extractLsb'_append_extractLsb'_eq_extractLsb']
  exact BitVec.extractLsb'_eq_self

theorem encode_ofWord_j :
    encode .j (opcode word) (.ofWord word) (immediate .j word) = word := by
  rw [encode_j, immediate, immJ_slices]
  unfold Fields.ofWord rd opcode BitVec.extractLsb
  simp (disch := omega) only [BitFields.extractLsb'_signExtend,
    BitVec.extractLsb'_append_eq_of_le,
    BitVec.extractLsb'_append_eq_of_add_le, Nat.reduceSub,
    BitVec.extractLsb'_eq_self]
  simp (disch := omega) only [
    BitVec.extractLsb'_append_extractLsb'_eq_extractLsb']
  exact BitVec.extractLsb'_eq_self

end Reencoded

theorem encode_ofWord (format : Format) (word : Word) :
    format.encode (opcode word) (.ofWord word) (format.immediate word) =
      word := by
  cases format with
  | i => exact encode_ofWord_i word
  | s => exact encode_ofWord_s word
  | b => exact encode_ofWord_b word
  | j => exact encode_ofWord_j word

/-! ## Immediates in range -/

theorem toInt_of_inRange {format : Format} {imm : ℤ}
    (hrange : format.InRange imm) : (BitVec.ofInt 32 imm).toInt = imm := by
  obtain ⟨hlow, hhigh, _⟩ := hrange
  have hpow : (2 : ℤ) ^ (format.width - 1) ≤ 2 ^ (32 - 1) := by
    cases format <;> decide
  exact BitVec.toInt_ofInt_eq_self (by omega) (by omega) (by omega)

theorem immediate_encode_eq (format : Format) (op : BitVec 7)
    (fields : Fields) {imm : Word}
    (haligned : BitFields.Aligned format.implicitZeros imm) :
    format.immediate (format.encode op fields imm) =
      (imm.extractLsb' 0 format.width).signExtend 32 := by
  have hlow := (BitFields.aligned_iff_extractLsb' _ _).mp haligned
  cases format with
  | i =>
      rw [immediate, immI_encode]
      rfl
  | s =>
      rw [immediate, immS_encode]
      rfl
  | b =>
      rw [immediate, immB_encode op fields hlow]
      rfl
  | j =>
      rw [immediate, immJ_encode op fields hlow]
      rfl

theorem immediate_encode {format : Format} {imm : ℤ}
    (hrange : format.InRange imm) (op : BitVec 7) (fields : Fields) :
    format.immediate (format.encode op fields (BitVec.ofInt 32 imm)) =
      BitVec.ofInt 32 imm := by
  have htoInt : (BitVec.ofInt 32 imm).toInt = imm :=
    toInt_of_inRange hrange
  have hwidth : 0 < format.width ∧ format.width ≤ 32 := by
    cases format <;> decide
  have hzeros : format.implicitZeros ≤ 32 := by
    cases format <;> decide
  obtain ⟨hlow, hhigh, hdvd⟩ := hrange
  rw [← htoInt] at hlow hhigh hdvd
  have haligned := (BitFields.aligned_iff_dvd_toInt hzeros _).mpr hdvd
  rw [immediate_encode_eq format op fields haligned]
  exact BitFields.signExtend_extractLsb'_zero _ hwidth.1 hwidth.2 hlow hhigh

theorem immediate_inRange (format : Format) (word : Word) :
    format.InRange (format.immediate word).toInt := by
  cases format with
  | i =>
      rw [immediate, BitVec.toInt_signExtend_of_le (by omega)]
      exact ⟨BitVec.le_toInt _, BitVec.toInt_lt, Int.one_dvd _⟩
  | s =>
      rw [immediate, BitVec.toInt_signExtend_of_le (by omega)]
      exact ⟨BitVec.le_toInt _, BitVec.toInt_lt, Int.one_dvd _⟩
  | b =>
      rw [immediate, BitVec.toInt_signExtend_of_le (by omega)]
      have hdvd := BitFields.aligned_append_zero 1 (word.extractLsb 31 31 ++
        word.extractLsb 7 7 ++ word.extractLsb 30 25 ++
        word.extractLsb 11 8)
      exact ⟨BitVec.le_toInt _, BitVec.toInt_lt,
        (BitFields.aligned_iff_dvd_toInt (by decide) _).mp hdvd⟩
  | j =>
      rw [immediate, BitVec.toInt_signExtend_of_le (by omega)]
      have hdvd := BitFields.aligned_append_zero 1 (word.extractLsb 31 31 ++
        word.extractLsb 19 12 ++ word.extractLsb 20 20 ++
        word.extractLsb 30 21)
      exact ⟨BitVec.le_toInt _, BitVec.toInt_lt,
        (BitFields.aligned_iff_dvd_toInt (by decide) _).mp hdvd⟩

end Format
end Isa

/-! ## The immediate generator -/

theorem immOut_of_ofOpcode {format : Isa.Format} {word : Word}
    (hformat : Isa.Format.ofOpcode (Isa.opcode word) = some format) :
    Main.immOut word = format.immediate word := by
  unfold Isa.Format.ofOpcode at hformat
  split_ifs at hformat with hi hl hs hb hj
  · obtain rfl := Option.some.inj hformat
    exact Bench.immOut_itype hi
  · obtain rfl := Option.some.inj hformat
    exact Bench.immOut_loadType hl
  · obtain rfl := Option.some.inj hformat
    exact Bench.immOut_stype hs
  · obtain rfl := Option.some.inj hformat
    exact Bench.immOut_btype hb
  · obtain rfl := Option.some.inj hformat
    exact Bench.immOut_jtype hj

/-- For every implemented opcode with an immediate: the word which encodes an
immediate of its format yields that immediate, and every word is the encoding
of what it yields. -/
theorem immOut_inverts_encoding {opcode : BitVec 7} {format : Isa.Format}
    (hformat : Isa.Format.ofOpcode opcode = some format) :
    (∀ (fields : Isa.Fields) (imm : ℤ), format.InRange imm →
      let word := format.encode opcode fields (BitVec.ofInt 32 imm)
      Main.immOut word = BitVec.ofInt 32 imm ∧
        (Main.immOut word).toInt = imm ∧
        format.encode opcode fields (Main.immOut word) = word) ∧
    (∀ word : Word, Isa.opcode word = opcode →
      format.InRange (Main.immOut word).toInt ∧
        format.encode opcode (.ofWord word) (Main.immOut word) =
          word) := by
  constructor
  · intro fields imm hrange word
    have hop : Isa.opcode word = opcode := Isa.Format.opcode_encode ..
    have hword : Main.immOut word = BitVec.ofInt 32 imm := by
      rw [immOut_of_ofOpcode (hop ▸ hformat)]
      exact Isa.Format.immediate_encode hrange opcode fields
    refine ⟨hword, ?_, ?_⟩
    · rw [hword]
      exact Isa.Format.toInt_of_inRange hrange
    · rw [hword]
  · intro word hop
    subst hop
    rw [immOut_of_ofOpcode hformat]
    exact ⟨format.immediate_inRange word, format.encode_ofWord word⟩

/-- `beq x0, x0, -8`. -/
theorem immOut_inverts_encoding_of_backward_branch :
    Isa.Format.encode .b 0x63#7 ⟨0#5, 0#5, 0#5, 0#3⟩
        (BitVec.ofInt 32 (-8)) = 0xfe000ce3#32 ∧
      (Main.immOut (Isa.Format.encode .b 0x63#7 ⟨0#5, 0#5, 0#5, 0#3⟩
        (BitVec.ofInt 32 (-8)))).toInt = -8 ∧
      Isa.Format.encode .b 0x63#7 (.ofWord 0xfe000ce3#32)
        (Main.immOut 0xfe000ce3#32) = 0xfe000ce3#32 := by
  obtain ⟨hencode, hword⟩ :=
    @immOut_inverts_encoding 0x63#7 .b rfl
  have hvalue := hencode ⟨0#5, 0#5, 0#5, 0#3⟩ (-8) (by decide)
  have hback := hword 0xfe000ce3#32 rfl
  exact ⟨by decide, hvalue.2.1, hback.2⟩

end RiscvLogism
