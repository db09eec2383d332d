import Mathlib.Algebra.Group.Int.Defs
import Mathlib.Algebra.Group.Nat.Defs

/-!
# Bit fields of machine words

Hardware descriptions build words by concatenating slices and extend signed
fields by replicating a sign bit.  These facts hold at every width.
-/

namespace BitFields

variable {w : ℕ}

theorem replicate_msb_append (n : ℕ) (field : BitVec w) :
    (BitVec.ofBool field.msb).replicate n ++ field =
      field.signExtend (1 * n + w) := by
  ext i hi
  simp [BitVec.getElem_append, BitVec.getElem_signExtend, Nat.mod_one]

theorem signExtend_eq_zero_iff {v : ℕ} (hle : w ≤ v) (field : BitVec w) :
    field.signExtend v = 0#v ↔ field = 0#w := by
  constructor
  · intro hzero
    apply BitVec.eq_of_toInt_eq
    have hint := congrArg BitVec.toInt hzero
    rw [BitVec.toInt_signExtend_of_le hle] at hint
    simpa using hint
  · intro hzero
    subst hzero
    apply BitVec.eq_of_toInt_eq
    rw [BitVec.toInt_signExtend_of_le hle]
    simp

theorem add_eq_self_iff (base displacement : BitVec w) :
    base + displacement = base ↔ displacement = 0#w := by
  constructor
  · intro hsame
    have hcancel : base + displacement - base = base - base := by rw [hsame]
    rw [BitVec.add_comm, BitVec.add_sub_cancel, BitVec.sub_self] at hcancel
    exact hcancel
  · intro hzero
    rw [hzero, BitVec.add_zero]

theorem extractLsb'_extractLsb' (word : BitVec w) (outer inner : ℕ)
    {len len' : ℕ} (hle : inner + len ≤ len') :
    (word.extractLsb' outer len').extractLsb' inner len =
      word.extractLsb' (outer + inner) len := by
  apply BitVec.eq_of_getLsbD_eq
  intro i hi
  have hinner : inner + i < len' := by omega
  simp only [BitVec.getLsbD_extractLsb', hi, hinner, decide_true,
    Bool.true_and, Nat.add_assoc]

theorem ofBool_getLsbD (word : BitVec w) (i : ℕ) :
    BitVec.ofBool (word.getLsbD i) = word.extractLsb' i 1 := by
  ext j hj
  have hzero : j = 0 := by omega
  subst hzero
  simp

/-! ## Slices of sign extensions -/

theorem extractLsb'_signExtend {v : ℕ} (field : BitVec w)
    {start len : ℕ} (hfield : start + len ≤ w) (hword : w ≤ v) :
    (field.signExtend v).extractLsb' start len =
      field.extractLsb' start len := by
  apply BitVec.eq_of_getLsbD_eq
  intro i hi
  have hbelow : start + i < w := by omega
  have hbelow' : start + i < v := by omega
  simp only [BitVec.getLsbD_extractLsb', BitVec.getLsbD_signExtend, hbelow,
    hbelow', if_true, decide_true, Bool.true_and]

/-- A word is the sign extension of its low bits when its value is within
their signed range. -/
theorem signExtend_extractLsb'_zero (word : BitVec w) {n : ℕ}
    (hpos : 0 < n) (hle : n ≤ w) (hlow : -(2 ^ (n - 1)) ≤ word.toInt)
    (hhigh : word.toInt < 2 ^ (n - 1)) :
    (word.extractLsb' 0 n).signExtend w = word := by
  have hfield : word.extractLsb' 0 n = BitVec.ofInt n word.toInt := by
    rw [← BitVec.setWidth_eq_extractLsb' hle,
      ← BitVec.signExtend_eq_setWidth_of_le _ hle]
    rfl
  apply BitVec.eq_of_toInt_eq
  rw [BitVec.toInt_signExtend_of_le hle, hfield]
  exact BitVec.toInt_ofInt_eq_self hpos hlow hhigh

/-! ## Alignment -/

/-- The low `k` bits are zero. -/
def Aligned (k : ℕ) (word : BitVec w) : Prop := 2 ^ k ∣ word.toNat

instance (k : ℕ) (word : BitVec w) : Decidable (Aligned k word) :=
  inferInstanceAs (Decidable (_ ∣ _))

theorem aligned_zero (k : ℕ) : Aligned k (0#w) := by
  unfold Aligned
  rw [BitVec.toNat_ofNat, Nat.zero_mod]
  exact Nat.dvd_zero _

theorem Aligned.add {k : ℕ} (hk : k ≤ w) {word word' : BitVec w}
    (hword : Aligned k word) (hword' : Aligned k word') :
    Aligned k (word + word') := by
  have hpow : 2 ^ k ∣ 2 ^ w := Nat.pow_dvd_pow 2 hk
  unfold Aligned
  rw [BitVec.toNat_add]
  exact (Nat.dvd_mod_iff hpow).mpr (Nat.dvd_add hword hword')

theorem aligned_iff_dvd_toInt {k : ℕ} (hk : k ≤ w) (word : BitVec w) :
    Aligned k word ↔ (2 ^ k : ℤ) ∣ word.toInt := by
  have hpow : (2 ^ k : ℤ) ∣ ((2 ^ w : ℕ) : ℤ) := by
    have hnat := Int.natCast_dvd_natCast.mpr (Nat.pow_dvd_pow 2 hk)
    simpa using hnat
  have hcast : Aligned k word ↔ (2 ^ k : ℤ) ∣ (word.toNat : ℤ) := by
    rw [Aligned, ← Int.natCast_dvd_natCast]
    simp
  rw [hcast, BitVec.toInt_eq_toNat_cond]
  by_cases hsmall : 2 * word.toNat < 2 ^ w
  · rw [if_pos hsmall]
  · rw [if_neg hsmall]
    constructor
    · intro hword
      exact Int.dvd_sub hword hpow
    · intro hword
      have hsum := Int.dvd_add hword hpow
      rwa [Int.sub_add_cancel] at hsum

theorem Aligned.signExtend {k v : ℕ} (hk : k ≤ w) (hle : w ≤ v)
    {field : BitVec w} (hfield : Aligned k field) :
    Aligned k (field.signExtend v) := by
  rw [aligned_iff_dvd_toInt (by omega), BitVec.toInt_signExtend_of_le hle]
  exact (aligned_iff_dvd_toInt hk field).mp hfield

theorem aligned_append_zero (k : ℕ) (high : BitVec w) :
    Aligned k (high ++ 0#k) := by
  unfold Aligned
  rw [BitVec.toNat_append, BitVec.toNat_ofNat, Nat.zero_mod, Nat.or_zero,
    Nat.shiftLeft_eq]
  exact Nat.dvd_mul_left _ _

theorem aligned_iff_extractLsb' (k : ℕ) (word : BitVec w) :
    Aligned k word ↔ word.extractLsb' 0 k = 0#k := by
  rw [← BitVec.toNat_inj, BitVec.extractLsb'_toNat, Nat.shiftRight_zero,
    BitVec.toNat_ofNat, Nat.zero_mod]
  exact Nat.dvd_iff_mod_eq_zero

theorem Aligned.ushiftRight_mul {k : ℕ} {word : BitVec w}
    (hword : Aligned k word) : (word >>> k).toNat * 2 ^ k = word.toNat := by
  rw [BitVec.toNat_ushiftRight, Nat.shiftRight_eq_div_pow]
  exact Nat.div_mul_cancel hword

end BitFields
