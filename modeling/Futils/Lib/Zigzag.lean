import Mathlib.Data.Nat.Basic
import Mathlib.Tactic.Ring

/-!
# Zigzag numbers

The zigzag map lists the integers as `0, -1, 1, -2, 2, …`.  Programs compute it on machine words
with shifts and an exclusive or, in registers that may be wider than the word that is encoded: the
two bit-level forms are shown here, for any word of `n` bits in a register of `m ≥ n` bits, to be
the arithmetic maps `zigzag` and `unzigzag`.
-/

namespace Futils.Lib

/-- The place of an integer in the list `0, -1, 1, -2, 2, …`. -/
def zigzag (z : ℤ) : ℕ := if 0 ≤ z then (2 * z).toNat else (-2 * z - 1).toNat

/-- The integer at a place of the list. -/
def unzigzag (n : ℕ) : ℤ := if n % 2 = 0 then (n / 2 : ℕ) else -(((n + 1) / 2 : ℕ) : ℤ)

lemma unzigzag_zigzag (z : ℤ) : unzigzag (zigzag z) = z := by
  unfold unzigzag zigzag
  split_ifs <;> omega

/-- The words of `k + 1` bits have the places below `2 ^ (k + 1)`. -/
lemma zigzag_lt {z : ℤ} {k : ℕ} (h₁ : -2 ^ k ≤ z) (h₂ : z < 2 ^ k) : zigzag z < 2 ^ (k + 1) := by
  have hp : (2 : ℤ) ^ k = ((2 ^ k : ℕ) : ℤ) := by push_cast; rfl
  rw [hp] at h₁ h₂
  rw [Nat.pow_succ]
  unfold zigzag
  split_ifs <;> omega

section Words

variable {n m : ℕ}

/-- The sign of a word, copied to all bits of the register. -/
lemma sshiftRight_signExtend (hn : 0 < n) (h : n ≤ m) (x : BitVec n) :
    (x.signExtend m).sshiftRight (n - 1) = if 0 ≤ x.toInt then 0#m else BitVec.allOnes m := by
  have hlo := BitVec.le_toInt x
  have hhi := BitVec.toInt_lt (x := x)
  have hp : (2 : ℤ) ^ (n - 1) = ((2 ^ (n - 1) : ℕ) : ℤ) := by push_cast; rfl
  apply BitVec.eq_of_toInt_eq
  rw [BitVec.toInt_sshiftRight, BitVec.toInt_signExtend_of_le h, Int.shiftRight_eq_div_pow]
  split_ifs with h0
  · rw [BitVec.toInt_zero]
    exact Int.ediv_eq_zero_of_lt h0 (by rw [← hp]; exact hhi)
  · rw [BitVec.toInt_allOnes, if_pos (by omega)]
    exact Int.ediv_eq_neg_one_of_neg_of_le (by omega) (by rw [← hp]; omega)

lemma setWidth_signExtend (h : n ≤ m) (x : BitVec n) : (x.signExtend m).setWidth n = x := by
  apply BitVec.eq_of_toInt_eq
  rw [← BitVec.signExtend_eq_setWidth_of_le _ h, BitVec.toInt_signExtend,
    BitVec.toInt_signExtend_of_le h, Nat.min_eq_left h, BitVec.toInt_bmod_cancel]

/-- The doubled register, cut to the width of the word, is the doubled word. -/
lemma toNat_shiftLeft_signExtend (h : n ≤ m) (x : BitVec n) :
    ((x.signExtend m <<< 1).setWidth n).toNat = 2 * x.toNat % 2 ^ n := by
  have hx : (x.signExtend m).toNat % 2 ^ n = x.toNat := by
    rw [← BitVec.toNat_setWidth, setWidth_signExtend h]
  rw [BitVec.toNat_setWidth, BitVec.toNat_shiftLeft, Nat.mod_mod_of_dvd _ (Nat.pow_dvd_pow 2 h),
    Nat.shiftLeft_eq, Nat.pow_one, Nat.mul_comm, Nat.mul_mod, hx, Nat.mul_mod 2 x.toNat,
    Nat.mod_eq_of_lt x.isLt]

/-- **The encoding on words**: shift left by one, exclusive or with the sign. -/
theorem toNat_zigzag_word (hn : 0 < n) (h : n ≤ m) (x : BitVec n) :
    (((x.signExtend m <<< 1) ^^^ (x.signExtend m).sshiftRight (n - 1)).setWidth n).toNat =
      zigzag x.toInt := by
  have hd := toNat_shiftLeft_signExtend h x
  have hx := x.isLt
  have hi := BitVec.toInt_eq_toNat_cond x
  rw [sshiftRight_signExtend hn h]
  unfold zigzag
  split_ifs at hi ⊢ with h0 h1 h1
  · rw [BitVec.xor_zero, hd, Nat.mod_eq_of_lt h1]
    omega
  · omega
  · omega
  · have hmod : 2 * x.toNat % 2 ^ n = 2 * x.toNat - 2 ^ n := by
      rw [Nat.mod_eq_sub_mod (by omega), Nat.mod_eq_of_lt (by omega)]
    rw [BitVec.xor_allOnes, BitVec.setWidth_not h, BitVec.toNat_not, hd, hmod]
    omega

/-- **The decoding on words**: shift right by one, exclusive or with minus the low bit. -/
theorem toInt_unzigzag_word (hn : 1 < n) (h : n ≤ m) {a b : BitVec n} {z : ℕ} (hz : z < 2 ^ n)
    (ha : a.toNat = z / 2) (hb : b.toNat = z % 2) :
    ((a.signExtend m ^^^ -(b.signExtend m)).setWidth n).toInt = unzigzag z := by
  have h2 : 2 < 2 ^ n := Nat.lt_of_lt_of_le (by decide) (Nat.pow_le_pow_right (by decide) hn)
  have hai : a.toInt = (z / 2 : ℕ) := by rw [BitVec.toInt_eq_toNat_of_lt (by omega), ha]
  unfold unzigzag
  split_ifs with h0
  · -- the low bit is clear and the word is the half
    have hb0 : b.signExtend m = 0#m := by
      apply BitVec.eq_of_toInt_eq
      rw [BitVec.toInt_signExtend_of_le h, BitVec.toInt_eq_toNat_of_lt (by omega), hb, h0]
      simp
    rw [hb0, BitVec.neg_zero, BitVec.xor_zero, setWidth_signExtend h, hai]
  · -- the low bit is set and the word is the complement of the half
    have hb1 : (b.signExtend m) = 1#m := by
      apply BitVec.eq_of_toInt_eq
      have h2' : 2 < 2 ^ m := Nat.lt_of_lt_of_le h2 (Nat.pow_le_pow_right (by decide) h)
      have h1 : (1#m).toNat = 1 := by
        rw [BitVec.toNat_ofNat]
        exact Nat.mod_eq_of_lt (by omega)
      rw [BitVec.toInt_signExtend_of_le h, BitVec.toInt_eq_toNat_of_lt (by omega),
        BitVec.toInt_eq_toNat_of_lt (by omega), hb, h1]
      omega
    rw [hb1, BitVec.neg_one_eq_allOnes, BitVec.xor_allOnes, BitVec.setWidth_not h,
      setWidth_signExtend h]
    have ht := BitVec.toInt_eq_toNat_cond (~~~a)
    rw [BitVec.toNat_not, if_neg (by omega)] at ht
    omega

end Words

end Futils.Lib
