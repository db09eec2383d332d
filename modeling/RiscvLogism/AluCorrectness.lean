import RiscvLogism.AluModel
import Mathlib.Algebra.Group.Int.Defs
import Mathlib.Algebra.Group.Nat.Defs

/-!
# The operations of the arithmetic unit

The enumerators of `alu_pkg.sv` are named after ten operations on numbers and
on bits.  They are stated here on what the operands stand for, apart from the
adder, and the outputs of `ALU.sv` are shown to be theirs.
-/

namespace RiscvLogism

/-! ## The operations -/

/-- `out` is the result of the operation: sums and differences are taken
modulo `2 ^ 32`, a right shift divides and rounds down. -/
def AluOp.Computes (op : AluOp) (x y out : Word) : Prop :=
  match op with
  | .add => out.toNat = (x.toNat + y.toNat) % 2 ^ 32
  | .sub => (out.toNat : ℤ) = ((x.toNat : ℤ) - y.toNat) % 2 ^ 32
  | .xor => ∀ i < 32, out.getLsbD i = (x.getLsbD i ^^ y.getLsbD i)
  | .or => ∀ i < 32, out.getLsbD i = (x.getLsbD i || y.getLsbD i)
  | .and => ∀ i < 32, out.getLsbD i = (x.getLsbD i && y.getLsbD i)
  | .sll => out.toNat = x.toNat * 2 ^ (y.toNat % 32) % 2 ^ 32
  | .srl => out.toNat = x.toNat / 2 ^ (y.toNat % 32)
  | .sra => out.toInt = x.toInt / 2 ^ (y.toNat % 32)
  | .slt => out.toNat = if x.toInt < y.toInt then 1 else 0
  | .sltu => out.toNat = if x.toNat < y.toNat then 1 else 0

instance (op : AluOp) (x y out : Word) :
    Decidable (op.Computes x y out) :=
  match op with
  | .xor | .or | .and => inferInstanceAs (Decidable (∀ i < 32, _))
  | .add | .sub | .sll | .srl | .sra | .slt | .sltu =>
      inferInstanceAs (Decidable (_ = _))

theorem AluOp.Computes.unique {op : AluOp} {x y out out' : Word}
    (hout : op.Computes x y out) (hout' : op.Computes x y out') :
    out = out' := by
  cases op with
  | add | sll | srl | slt | sltu =>
      apply BitVec.eq_of_toNat_eq
      exact Eq.trans hout (Eq.symm hout')
  | sub =>
      apply BitVec.eq_of_toNat_eq
      have hcast : (out.toNat : ℤ) = out'.toNat :=
        Eq.trans hout (Eq.symm hout')
      exact Int.ofNat_inj.mp hcast
  | xor | or | and =>
      apply BitVec.eq_of_getLsbD_eq
      intro i hi
      exact Eq.trans (hout i hi) (Eq.symm (hout' i hi))
  | sra =>
      apply BitVec.eq_of_toInt_eq
      exact Eq.trans hout (Eq.symm hout')

/-! ## The outputs -/

theorem AluOp.sub_computes (x y : Word) :
    AluOp.sub.Computes x y (x - y) := by
  have hy := y.isLt
  simp only [AluOp.Computes, BitVec.toNat_sub]
  omega

theorem AluOp.denote_computes (op : AluOp) (x y : Word) :
    op.Computes x y (op.denote x y) := by
  cases op with
  | add => exact BitVec.toNat_add x y
  | sub => exact AluOp.sub_computes x y
  | xor =>
      intro i _
      exact BitVec.getLsbD_xor
  | or =>
      intro i _
      exact BitVec.getLsbD_or
  | and =>
      intro i _
      exact BitVec.getLsbD_and
  | sll =>
      simp only [AluOp.Computes, AluOp.denote]
      rw [BitVec.toNat_shiftLeft, Nat.shiftLeft_eq]
  | srl =>
      simp only [AluOp.Computes, AluOp.denote]
      rw [BitVec.toNat_ushiftRight, Nat.shiftRight_eq_div_pow]
  | sra =>
      simp only [AluOp.Computes, AluOp.denote]
      rw [BitVec.toInt_sshiftRight, Int.shiftRight_eq_div_pow]
      norm_cast
  | slt =>
      simp only [AluOp.Computes, AluOp.denote]
      by_cases hless : x.toInt < y.toInt
      · rw [if_pos hless, if_pos hless]
        rfl
      · rw [if_neg hless, if_neg hless]
        rfl
  | sltu =>
      simp only [AluOp.Computes, AluOp.denote]
      by_cases hless : x.toNat < y.toNat
      · rw [if_pos hless, if_pos hless]
        rfl
      · rw [if_neg hless, if_neg hless]
        rfl

theorem alu_aluZero_iff (x y : Word) (aluOps : BitVec 4) :
    (alu x y aluOps).aluZero = true ↔
      (alu x y aluOps).aluOut = 0#32 := by
  rw [alu_aluZero, beq_iff_eq]
  rfl

theorem alu_aluNegative_iff (x y : Word) (aluOps : BitVec 4) :
    (alu x y aluOps).aluNegative = true ↔
      (alu x y aluOps).aluOut.toInt < 0 := by
  have hmsb :
      (alu x y aluOps).aluNegative = (alu x y aluOps).aluOut.msb :=
    (BitVec.msb_eq_getLsbD_last _).symm
  rw [hmsb, BitVec.msb_eq_toInt, decide_eq_true_iff]

/-- Every operation code yields its operation, the two flags describe the
result, and after a subtraction the zero flag compares the operands. -/
theorem alu_computes_all_operations (op : AluOp) (x y : Word) :
    op.Computes x y (alu x y op.code).aluOut ∧
      ((alu x y op.code).aluZero = true ↔
        (alu x y op.code).aluOut = 0#32) ∧
      ((alu x y op.code).aluNegative = true ↔
        (alu x y op.code).aluOut.toInt < 0) ∧
      ((alu x y AluOp.sub.code).aluZero = true ↔ x = y) := by
  refine ⟨?_, alu_aluZero_iff x y op.code, alu_aluNegative_iff x y op.code,
    ?_⟩
  · have hout : (alu x y op.code).aluOut = op.denote x y :=
      Alu.aluOut_code op x y
    rw [hout]
    exact AluOp.denote_computes op x y
  · rw [alu_sub_aluZero, beq_iff_eq]

end RiscvLogism
