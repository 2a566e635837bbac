import Mathlib.Data.Nat.Size
import Mathlib.Data.List.GetD
import Mathlib.Logic.Equiv.Fin.Basic
import Mathlib.SetTheory.Cardinal.Finite
import Futils.Lib.LittleEndian

/-!
# Bit lengths and masks

`Nat.size` is the number of bits of a number, and a number of ones has as many as it can: how to smear
the bits of a number to the right, how its length comes from shifts, and how many byte strings have
given low bits.
-/

namespace Futils.Lib

variable {x y i k m n : ℕ}

/-! ### Smearing -/

/-- Bit `i` of `y` is set if one of the `n` bits of `x` from `i` on is. -/
def Smeared (n x y : ℕ) : Prop := ∀ i, y.testBit i = true ↔ ∃ j < n, x.testBit (i + j) = true

lemma smeared_one (x : ℕ) : Smeared 1 x x := by
  intro i
  constructor
  · intro h
    exact ⟨0, Nat.one_pos, h⟩
  · rintro ⟨j, hj, h⟩
    obtain rfl : j = 0 := by omega
    exact h

/-- **A shift by as many bits as are smeared** doubles their number. -/
lemma Smeared.double (h : Smeared n x y) : Smeared (n + n) x (y ||| y >>> n) := by
  intro i
  rw [Nat.testBit_or, Nat.testBit_shiftRight, Bool.or_eq_true, h i, h (n + i)]
  constructor
  · rintro (⟨j, hj, hx⟩ | ⟨j, hj, hx⟩)
    · exact ⟨j, by omega, hx⟩
    · refine ⟨n + j, by omega, ?_⟩
      rwa [← Nat.add_assoc, Nat.add_comm i n]
  · rintro ⟨j, hj, hx⟩
    by_cases hlt : j < n
    · exact Or.inl ⟨j, hlt, hx⟩
    · refine Or.inr ⟨j - n, by omega, ?_⟩
      rwa [show n + i + (j - n) = i + j by omega]

/-- **All bits smeared** are the ones below the highest. -/
lemma Smeared.eq_ones (h : Smeared n x y) (hx : x.size ≤ n) : y = 2 ^ x.size - 1 := by
  refine Nat.eq_of_testBit_eq fun i => ?_
  rw [Nat.testBit_two_pow_sub_one]
  refine Bool.eq_iff_iff.mpr ?_
  rw [h i, decide_eq_true_iff]
  constructor
  · rintro ⟨j, -, hj⟩
    have hle : 2 ^ (i + j) ≤ x := Nat.ge_two_pow_of_testBit hj
    exact (Nat.le_add_right i j).trans_lt (Nat.lt_size.mpr hle)
  · intro hi
    obtain ⟨l, hl⟩ : ∃ l, x.size = l + 1 := Nat.exists_eq_add_one.mpr (by omega)
    have hbit : x.testBit l = true := by
      have hge : 2 ^ l ≤ x := Nat.lt_size.mp (by omega)
      have hlt : x < 2 ^ (l + 1) := hl ▸ Nat.lt_size_self x
      rw [Nat.testBit_eq_decide_div_mod_eq, decide_eq_true_iff]
      have hdiv : x / 2 ^ l = 1 := by
        refine Nat.div_eq_of_lt_le ?_ ?_
        · rwa [Nat.one_mul]
        · rwa [← Nat.pow_succ']
      rw [hdiv]
    refine ⟨l - i, by omega, ?_⟩
    rwa [show i + (l - i) = l by omega]

/-! ### Lengths -/

lemma size_shiftRight (x k : ℕ) : (x >>> k).size = x.size - k := by
  refine le_antisymm ?_ ?_
  · rw [Nat.size_le, Nat.shiftRight_eq_div_pow]
    refine Nat.div_lt_of_lt_mul ?_
    rw [← pow_add]
    exact Nat.size_le.mp (by omega)
  · refine Nat.sub_le_iff_le_add.mpr (Nat.size_le.mpr ?_)
    have hlt := Nat.lt_size_self (x >>> k)
    rw [Nat.shiftRight_eq_div_pow] at hlt
    rw [pow_add, Nat.shiftRight_eq_div_pow]
    exact (Nat.div_lt_iff_lt_mul (Nat.two_pow_pos k)).mp hlt

lemma size_ones (k : ℕ) : (2 ^ k - 1).size = k := by
  refine le_antisymm (Nat.size_le.mpr (Nat.sub_lt (Nat.two_pow_pos k) Nat.one_pos)) ?_
  rcases k with _ | k
  · exact Nat.zero_le _
  · refine Nat.lt_size.mpr ?_
    have := Nat.two_pow_pos k
    rw [Nat.pow_succ]
    omega

/-- A number is more than half of what its bits can hold. -/
lemma two_pow_size_lt (x : ℕ) : 2 ^ x.size < 2 * (x + 1) := by
  rcases hsize : x.size with _ | l
  · omega
  · have hge : 2 ^ l ≤ x := Nat.lt_size.mp (by omega)
    rw [Nat.pow_succ]
    omega

/-- So many bits hold the number, and no fewer. -/
lemma isLeast_size (x : ℕ) : IsLeast {k | x < 2 ^ k} x.size := by
  refine ⟨Nat.lt_size_self x, ?_⟩
  intro k hk
  exact Nat.size_le.mpr hk

/-- So many ones are not below the number, and no fewer. -/
lemma isLeast_ones (x : ℕ) : IsLeast {m | x ≤ m ∧ ∃ k, m = 2 ^ k - 1} (2 ^ x.size - 1) := by
  refine ⟨⟨Nat.le_pred_of_lt (Nat.lt_size_self x), x.size, rfl⟩, ?_⟩
  rintro _ ⟨hle, k, rfl⟩
  have hpos := Nat.two_pow_pos k
  have hsize : x.size ≤ k := Nat.size_le.mpr (by omega)
  exact Nat.sub_le_sub_right (Nat.pow_le_pow_right Nat.two_pos hsize) 1

/-! ### Byte strings with given low bits -/

lemma leNat_lt_of_length {raw : List UInt8} (h : raw.length = n) : leNat raw < 256 ^ n :=
  h ▸ leNat_lt raw

lemma leBytes_leNat_of_length {raw : List UInt8} (h : raw.length = n) :
    leBytes n (leNat raw) = raw := h ▸ leBytes_leNat raw

lemma bytes_pow (h : k ≤ 8 * n) : 256 ^ n = 2 ^ (8 * n - k) * 2 ^ k := by
  rw [← pow_add, Nat.sub_add_cancel h, pow_mul]
  rfl

/-- Byte strings are numbers. -/
def bytesEquiv (n : ℕ) : List.Vector UInt8 n ≃ Fin (256 ^ n) where
  toFun raw := ⟨leNat raw.1, leNat_lt_of_length raw.2⟩
  invFun v := ⟨leBytes n v, length_leBytes n v⟩
  left_inv raw := Subtype.ext (leBytes_leNat_of_length raw.2)
  right_inv v := Fin.ext (leNat_leBytes v.2)

/-- Byte strings are their low bits and the others. -/
def lowBitsEquiv (h : k ≤ 8 * n) :
    List.Vector UInt8 n ≃ Fin (2 ^ (8 * n - k)) × Fin (2 ^ k) :=
  (bytesEquiv n).trans ((finCongr (bytes_pow h)).trans finProdFinEquiv.symm)

lemma lowBitsEquiv_snd (h : k ≤ 8 * n) (raw : List.Vector UInt8 n) :
    ((lowBitsEquiv h raw).2 : ℕ) = leNat raw.1 % 2 ^ k := rfl

lemma card_fin_le (h : m < n) : Nat.card {x : Fin n // (x : ℕ) ≤ m} = m + 1 := by
  have hequiv : {x : Fin n // (x : ℕ) ≤ m} ≃ Fin (m + 1) :=
    ⟨fun x => ⟨x.1, Nat.lt_succ_of_le x.2⟩,
      fun y => ⟨⟨y, (Nat.le_of_lt_succ y.2).trans_lt h⟩, Nat.le_of_lt_succ y.2⟩,
      fun _ => rfl, fun _ => rfl⟩
  rw [Nat.card_congr hequiv, Nat.card_fin]

/-- **How many byte strings have low bits that meet a condition.** -/
lemma card_lowBits (h : k ≤ 8 * n) (P : ℕ → Prop) :
    Nat.card {raw : List.Vector UInt8 n // P (leNat raw.1 % 2 ^ k)} =
      2 ^ (8 * n - k) * Nat.card {x : Fin (2 ^ k) // P x} := by
  have hsplit : {raw : List.Vector UInt8 n // P (leNat raw.1 % 2 ^ k)} ≃
      {v : Fin (2 ^ (8 * n - k)) × Fin (2 ^ k) // P v.2} :=
    (lowBitsEquiv h).subtypeEquiv fun raw => Iff.of_eq (congrArg P (lowBitsEquiv_snd h raw).symm)
  have hprod : {v : Fin (2 ^ (8 * n - k)) × Fin (2 ^ k) // P v.2} ≃
      Fin (2 ^ (8 * n - k)) × {x : Fin (2 ^ k) // P x} :=
    ⟨fun v => (v.1.1, ⟨v.1.2, v.2⟩), fun v => ⟨(v.1, v.2.1), v.2.2⟩, fun _ => rfl, fun _ => rfl⟩
  rw [Nat.card_congr (hsplit.trans hprod), Nat.card_prod, Nat.card_fin]

/-- **How many byte strings have certain high bits.** -/
lemma card_highBits (h : k ≤ 8 * n) (hm : m < 2 ^ (8 * n - k)) :
    Nat.card {raw : List.Vector UInt8 n // leNat raw.1 / 2 ^ k = m} = 2 ^ k := by
  have hsplit : {raw : List.Vector UInt8 n // leNat raw.1 / 2 ^ k = m} ≃
      {v : Fin (2 ^ (8 * n - k)) × Fin (2 ^ k) // (v.1 : ℕ) = m} :=
    (lowBitsEquiv h).subtypeEquiv fun _ => Iff.rfl
  have hlow : {v : Fin (2 ^ (8 * n - k)) × Fin (2 ^ k) // (v.1 : ℕ) = m} ≃ Fin (2 ^ k) :=
    ⟨fun v => v.1.2, fun x => ⟨(⟨m, hm⟩, x), rfl⟩, fun v => Subtype.ext (Prod.ext (Fin.ext v.2.symm) rfl),
      fun _ => rfl⟩
  rw [Nat.card_congr (hsplit.trans hlow), Nat.card_fin]

end Futils.Lib
