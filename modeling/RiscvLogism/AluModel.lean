import RiscvLogism.SharedAdder

/-!
# The arithmetic unit

`ALU.sv` with the operation codes of `alu_pkg.sv`.  Addition, subtraction and
the two comparisons share one 33-bit adder; the remaining operations are
computed directly.  A code which names no operation yields zero.
-/

namespace RiscvLogism

abbrev Word := BitVec 32

inductive AluOp where
  | add
  | sub
  | xor
  | or
  | and
  | sll
  | srl
  | sra
  | slt
  | sltu
  deriving DecidableEq, Repr

def AluOp.code : AluOp → BitVec 4
  | .add => 0b0000#4
  | .sub => 0b1000#4
  | .xor => 0b0100#4
  | .or => 0b0110#4
  | .and => 0b0111#4
  | .sll => 0b0001#4
  | .srl => 0b0101#4
  | .sra => 0b1101#4
  | .slt => 0b0010#4
  | .sltu => 0b0011#4

def AluOp.all : List AluOp :=
  [.add, .sub, .xor, .or, .and, .sll, .srl, .sra, .slt, .sltu]

/-- The enumerator a four-bit code stands for; six codes stand for none. -/
def AluOp.ofCode (code : BitVec 4) : Option AluOp :=
  AluOp.all.find? fun op => op.code == code

@[simp] theorem AluOp.ofCode_code (op : AluOp) :
    AluOp.ofCode op.code = some op := by
  cases op <;> rfl

structure AluOutputs where
  aluZero : Bool
  aluNegative : Bool
  aluOut : Word
  deriving DecidableEq, Repr

namespace Alu

def isSub (aluOps : BitVec 4) : Bool :=
  aluOps == AluOp.sub.code || aluOps == AluOp.slt.code ||
    aluOps == AluOp.sltu.code

def yPrime (y : Word) (aluOps : BitVec 4) : Word :=
  if isSub aluOps then ~~~y else y

/-- The concatenation `{carry_out, result}`. -/
def adder (x y : Word) (aluOps : BitVec 4) : BitVec 33 :=
  x.setWidth 33 + (yPrime y aluOps).setWidth 33 +
    (BitVec.ofBool (isSub aluOps)).setWidth 33

def carryOut (x y : Word) (aluOps : BitVec 4) : Bool :=
  (adder x y aluOps).getLsbD 32

def result (x y : Word) (aluOps : BitVec 4) : Word :=
  (adder x y aluOps).setWidth 32

def negative (x y : Word) (aluOps : BitVec 4) : Bool :=
  (result x y aluOps).getLsbD 31

def overflow (x y : Word) (aluOps : BitVec 4) : Bool :=
  !(x.getLsbD 31 ^^ (yPrime y aluOps).getLsbD 31) &&
    (x.getLsbD 31 ^^ (result x y aluOps).getLsbD 31)

def aluOut (x y : Word) (aluOps : BitVec 4) : Word :=
  match AluOp.ofCode aluOps with
  | some .add => result x y aluOps
  | some .sub => result x y aluOps
  | some .xor => x ^^^ y
  | some .or => x ||| y
  | some .and => x &&& y
  | some .sll => x <<< y.extractLsb 4 0
  | some .srl => x >>> y.extractLsb 4 0
  | some .sra => x.sshiftRight' (y.extractLsb 4 0)
  | some .slt =>
      (0#31 ++
        BitVec.ofBool (negative x y aluOps ^^ overflow x y aluOps) : Word)
  | some .sltu => (0#31 ++ BitVec.ofBool (!carryOut x y aluOps) : Word)
  | none => 0#32

end Alu

def alu (x y : Word) (aluOps : BitVec 4) : AluOutputs where
  aluZero := Alu.aluOut x y aluOps == 0#32
  aluNegative := (Alu.aluOut x y aluOps).getLsbD 31
  aluOut := Alu.aluOut x y aluOps

/-! ## What the operations compute -/

/-- The operation an enumerator is named after, on two's-complement words.
Shifts use the low five bits of the second operand. -/
def AluOp.denote : AluOp → Word → Word → Word
  | .add, x, y => x + y
  | .sub, x, y => x - y
  | .xor, x, y => x ^^^ y
  | .or, x, y => x ||| y
  | .and, x, y => x &&& y
  | .sll, x, y => x <<< (y.toNat % 32)
  | .srl, x, y => x >>> (y.toNat % 32)
  | .sra, x, y => x.sshiftRight (y.toNat % 32)
  | .slt, x, y => if x.toInt < y.toInt then 1#32 else 0#32
  | .sltu, x, y => if x.toNat < y.toNat then 1#32 else 0#32

namespace Alu

theorem adder_of_isSub {aluOps : BitVec 4} (hsub : isSub aluOps = true)
    (x y : Word) :
    adder x y aluOps = SharedAdder.wideSum x (~~~y) true := by
  simp [adder, yPrime, hsub, SharedAdder.wideSum]

theorem adder_of_not_isSub {aluOps : BitVec 4}
    (hsub : isSub aluOps = false) (x y : Word) :
    adder x y aluOps = SharedAdder.wideSum x y false := by
  simp [adder, yPrime, hsub, SharedAdder.wideSum]

theorem result_of_isSub {aluOps : BitVec 4} (hsub : isSub aluOps = true)
    (x y : Word) : result x y aluOps = x - y := by
  rw [result, adder_of_isSub hsub]
  exact SharedAdder.wideSum_sub x y

theorem result_of_not_isSub {aluOps : BitVec 4}
    (hsub : isSub aluOps = false) (x y : Word) :
    result x y aluOps = x + y := by
  rw [result, adder_of_not_isSub hsub]
  exact SharedAdder.wideSum_add x y

theorem not_carryOut_of_isSub {aluOps : BitVec 4}
    (hsub : isSub aluOps = true) (x y : Word) :
    (!carryOut x y aluOps) = x.ult y := by
  rw [carryOut, adder_of_isSub hsub, ← SharedAdder.not_wideSum_msb x y,
    BitVec.msb_eq_getLsbD_last]

theorem negative_xor_overflow_of_isSub {aluOps : BitVec 4}
    (hsub : isSub aluOps = true) (x y : Word) :
    (negative x y aluOps ^^ overflow x y aluOps) = x.slt y := by
  have hsigned := SharedAdder.sign_xor_overflow (by omega) x y
  simp only [BitVec.msb_eq_getLsbD_last] at hsigned
  rw [← hsigned]
  simp only [negative, overflow, result, adder_of_isSub hsub, yPrime, hsub,
    if_true]

theorem shiftAmount_toNat (y : Word) :
    (y.extractLsb 4 0).toNat = y.toNat % 32 := by
  simp [BitVec.extractLsb_toNat]

theorem flagWord (flag : Bool) :
    (0#31 ++ BitVec.ofBool flag : Word) = if flag then 1#32 else 0#32 := by
  cases flag <;> rfl

theorem aluOut_code (op : AluOp) (x y : Word) :
    aluOut x y op.code = op.denote x y := by
  simp only [aluOut, AluOp.ofCode_code]
  cases op with
  | add => exact result_of_not_isSub rfl x y
  | sub => exact result_of_isSub rfl x y
  | xor => rfl
  | or => rfl
  | and => rfl
  | sll =>
      simp only [AluOp.denote]
      rw [BitVec.shiftLeft_eq', shiftAmount_toNat]
  | srl =>
      simp only [AluOp.denote]
      rw [BitVec.ushiftRight_eq', shiftAmount_toNat]
  | sra =>
      simp only [AluOp.denote]
      rw [BitVec.sshiftRight_eq', shiftAmount_toNat]
  | slt =>
      simp only [AluOp.denote]
      rw [negative_xor_overflow_of_isSub rfl, flagWord]
      simp [BitVec.slt]
  | sltu =>
      simp only [AluOp.denote]
      rw [not_carryOut_of_isSub rfl, flagWord]
      simp [BitVec.ult]

end Alu

@[simp] theorem alu_aluZero (x y : Word) (aluOps : BitVec 4) :
    (alu x y aluOps).aluZero = (Alu.aluOut x y aluOps == 0#32) := rfl

theorem alu_sub_aluZero (x y : Word) :
    (alu x y AluOp.sub.code).aluZero = (x == y) := by
  rw [alu_aluZero, Alu.aluOut_code, AluOp.denote, Bool.eq_iff_iff]
  simp [BitVec.sub_eq_iff_eq_add]

end RiscvLogism
