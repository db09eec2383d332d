import Mathlib.Data.Nat.Notation

/-!
# One adder for addition, subtraction and comparison

Arithmetic units often compute `x - y` as `x + ~y + 1` on an adder which is
one bit wider than its operands, and read the two comparisons off the extra
bit and the sign bits.  The facts below hold at every width and name nothing
of a particular unit.
-/

namespace SharedAdder

variable {w : ℕ}

/-- The sum of two zero-extended words and a carry bit, one bit wider than
the words. -/
def wideSum (x y : BitVec w) (carryIn : Bool) : BitVec (w + 1) :=
  x.setWidth (w + 1) + y.setWidth (w + 1) +
    (BitVec.ofBool carryIn).setWidth (w + 1)

theorem wideSum_toNat (x y : BitVec w) (carryIn : Bool) :
    (wideSum x y carryIn).toNat = x.toNat + y.toNat + carryIn.toNat := by
  have hx := x.isLt
  have hy := y.isLt
  have hcarry : carryIn.toNat ≤ 1 := Bool.toNat_le carryIn
  have hpow : 2 ^ (w + 1) = 2 ^ w + 2 ^ w := by
    rw [Nat.pow_succ]
    omega
  have hpos : 1 ≤ 2 ^ w := Nat.one_le_two_pow
  simp only [wideSum, BitVec.toNat_add, BitVec.toNat_setWidth,
    BitVec.toNat_ofBool]
  rw [Nat.mod_eq_of_lt (a := x.toNat) (by omega),
    Nat.mod_eq_of_lt (a := y.toNat) (by omega),
    Nat.mod_eq_of_lt (a := carryIn.toNat) (by omega),
    Nat.mod_eq_of_lt (a := x.toNat + y.toNat) (by omega),
    Nat.mod_eq_of_lt (by omega)]

theorem wideSum_msb (x y : BitVec w) (carryIn : Bool) :
    (wideSum x y carryIn).msb = BitVec.carry w x y carryIn := by
  rw [BitVec.msb_eq_decide, wideSum_toNat, BitVec.carry_width]
  simp

theorem wideSum_setWidth (x y : BitVec w) (carryIn : Bool) :
    (wideSum x y carryIn).setWidth w =
      x + y + (BitVec.ofBool carryIn).setWidth w := by
  apply BitVec.eq_of_toNat_eq
  rw [BitVec.toNat_setWidth, wideSum_toNat]
  simp [BitVec.toNat_add, BitVec.toNat_setWidth]

theorem wideSum_add (x y : BitVec w) :
    (wideSum x y false).setWidth w = x + y := by
  rw [wideSum_setWidth]
  simp

theorem wideSum_sub (x y : BitVec w) :
    (wideSum x (~~~y) true).setWidth w = x - y := by
  have hone : (BitVec.ofBool true).setWidth w = 1#w := by
    apply BitVec.eq_of_toNat_eq
    simp
  rw [wideSum_setWidth, hone, BitVec.sub_eq_add_neg, BitVec.neg_eq_not_add,
    BitVec.add_assoc]

/-- A subtraction without carry out is an unsigned comparison. -/
theorem not_wideSum_msb (x y : BitVec w) :
    (!(wideSum x (~~~y) true).msb) = x.ult y := by
  rw [wideSum_msb, BitVec.ult_eq_not_carry]

/-- The sign of the difference, corrected by the overflow of the signed
subtraction, is the signed comparison. -/
theorem sign_xor_overflow (hw : 0 < w) (x y : BitVec w) :
    let difference := (wideSum x (~~~y) true).setWidth w
    let overflow :=
      !(x.msb ^^ (~~~y).msb) && (x.msb ^^ difference.msb)
    (difference.msb ^^ overflow) = x.slt y := by
  obtain ⟨n, rfl⟩ : ∃ n, w = n + 1 := ⟨w - 1, by omega⟩
  dsimp only
  have hsign :
      ((wideSum x (~~~y) true).setWidth (n + 1)).msb =
        (x.msb ^^ ((~~~y).msb ^^ BitVec.carry n x (~~~y) true)) := by
    rw [wideSum_setWidth]
    simp only [BitVec.msb_eq_getLsbD_last]
    exact BitVec.getLsbD_add_add_bool (by omega) x (~~~y) true
  have hcarry :
      BitVec.carry (n + 1) x (~~~y) true =
        Bool.atLeastTwo x.msb (~~~y).msb (BitVec.carry n x (~~~y) true) := by
    rw [BitVec.carry_succ]
    simp only [BitVec.msb_eq_getLsbD_last, Nat.add_sub_cancel]
  have hnot : (~~~y).msb = !y.msb := by
    simp
  rw [hsign, BitVec.slt_eq_not_carry, hcarry, hnot]
  cases x.msb <;> cases y.msb <;>
    cases BitVec.carry n x (~~~y) true <;> rfl

end SharedAdder
