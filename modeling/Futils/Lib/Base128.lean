import Mathlib.Algebra.BigOperators.Ring.Finset
import Mathlib.Algebra.Order.BigOperators.Group.Finset
import Mathlib.Data.Fintype.Basic
import Mathlib.Tactic.Ring
import Futils.Lib.Mem

/-!
# Base-128 codes

A number is written as groups of seven bits, least significant group first, one group to a byte;
the high bit of a byte says that another one follows.  `encode n` is the shortest code of `n`,
`payload m k` is the number that the first `k` bytes of a memory spell, and `IsCode m k` says that
these bytes form one code: a code is determined by the memory (`IsCode.unique`), and the memory
that starts with `encode n` starts with the code of that length, which spells `n`.
-/

namespace Futils.Lib.Base128

/-- The byte says that another one follows. -/
def Cont (b : UInt8) : Prop := 128 ≤ b.toNat

instance : DecidablePred Cont := fun b => inferInstanceAs (Decidable (128 ≤ b.toNat))

/-- The number spelled by the seven low bits of the first `k` bytes. -/
def payload (m : Mem UInt8) (k : ℕ) : ℕ := ∑ i ∈ Finset.range k, (m i &&& 0x7f).toNat * 2 ^ (7 * i)

/-- The first `k` bytes of the memory form one code. -/
def IsCode (m : Mem UInt8) (k : ℕ) : Prop :=
  0 < k ∧ (∀ i, i + 1 < k → Cont (m i)) ∧ ¬ Cont (m (k - 1))

/-- The shortest code of a number. -/
def encode (n : ℕ) : List UInt8 :=
  if n < 128 then [n.toUInt8] else (n % 128 + 128).toUInt8 :: encode (n / 128)
termination_by n
decreasing_by omega

/-! ### Single bytes -/

lemma toNat_and_7f (b : UInt8) : (b &&& 0x7f).toNat = b.toNat % 128 := by
  rw [UInt8.toNat_and]
  exact Nat.and_two_pow_sub_one_eq_mod b.toNat 7

lemma and_7f_lt (b : UInt8) : (b &&& 0x7f).toNat < 128 := by
  rw [toNat_and_7f]
  exact Nat.mod_lt _ (by decide)

/-- The test that the programs make of the high bit. -/
lemma and_80_ne_zero_iff (b : UInt8) : b &&& 0x80 ≠ 0 ↔ Cont b := by
  have key : ∀ i : Fin 256, UInt8.ofNat i &&& 0x80 = 0 ↔ i.val < 128 := by decide +kernel
  have := key ⟨b.toNat, b.toNat_lt⟩
  rw [UInt8.ofNat_toNat] at this
  rw [Ne, this, Cont, Nat.not_lt]

lemma toNat_toUInt8 {n : ℕ} (h : n < 256) : n.toUInt8.toNat = n := by
  simp [Nat.mod_eq_of_lt h]

lemma or_80_eq {n : ℕ} (h : n < 128) : n.toUInt8 ||| 0x80 = (n + 128).toUInt8 := by
  apply UInt8.toNat_inj.mp
  rw [UInt8.toNat_or, toNat_toUInt8 (by omega), toNat_toUInt8 (by omega)]
  have := Nat.two_pow_add_eq_or_of_lt (i := 7) h 1
  rw [Nat.or_comm] at this
  simpa [Nat.add_comm] using this.symm

/-! ### Payloads -/

@[simp] lemma payload_zero (m : Mem UInt8) : payload m 0 = 0 := by simp [payload]

lemma payload_succ (m : Mem UInt8) (k : ℕ) :
    payload m (k + 1) = payload m k + (m k &&& 0x7f).toNat * 2 ^ (7 * k) := by
  simp [payload, Finset.sum_range_succ]

/-- The first byte is the lowest group. -/
lemma payload_shift (m : Mem UInt8) (k : ℕ) :
    payload m (k + 1) = (m 0 &&& 0x7f).toNat + 128 * payload (m.shift 1) k := by
  simp only [payload, Finset.sum_range_succ', Finset.mul_sum, Mem.shift]
  rw [Nat.add_comm]
  congr 1
  · simp
  · refine Finset.sum_congr rfl ?_
    intro i _
    rw [Nat.add_comm 1 i, Nat.mul_succ, Nat.pow_add]
    ring

lemma payload_lt (m : Mem UInt8) (k : ℕ) : payload m k < 2 ^ (7 * k) := by
  induction k with
  | zero => simp
  | succ k ih =>
    have hb := Nat.mul_le_mul_right (2 ^ (7 * k)) (Nat.le_of_lt_succ (and_7f_lt (m k)))
    have hp : 2 ^ (7 * (k + 1)) = 128 * 2 ^ (7 * k) := by rw [Nat.mul_succ, Nat.pow_add]; ring
    rw [payload_succ, hp]
    omega

/-! ### One code in a memory -/

/-- The length of a code is determined by the memory. -/
lemma IsCode.unique {m : Mem UInt8} {j k : ℕ} (hj : IsCode m j) (hk : IsCode m k) : j = k := by
  obtain ⟨hj0, hjc, hjl⟩ := hj
  obtain ⟨hk0, hkc, hkl⟩ := hk
  rcases Nat.lt_trichotomy j k with h | h | h
  · exact absurd (hkc (j - 1) (by omega)) hjl
  · exact h
  · exact absurd (hjc (k - 1) (by omega)) hkl

lemma isCode_one {m : Mem UInt8} (h : ¬ Cont (m 0)) : IsCode m 1 :=
  ⟨by decide, fun i hi => absurd hi (by omega), h⟩

lemma IsCode.cons {m : Mem UInt8} {k : ℕ} (h : Cont (m 0)) (hk : IsCode (m.shift 1) k) :
    IsCode m (k + 1) := by
  obtain ⟨h0, hc, hl⟩ := hk
  refine ⟨by omega, ?_, ?_⟩
  · intro i hi
    cases i with
    | zero => exact h
    | succ i =>
      have := hc i (by omega)
      rwa [Mem.shift, Nat.add_comm] at this
  · rw [Mem.shift, show 1 + (k - 1) = k by omega] at hl
    simpa using hl

/-! ### The shortest code -/

lemma encode_of_lt {n : ℕ} (h : n < 128) : encode n = [n.toUInt8] := by
  rw [encode, if_pos h]

lemma encode_of_ge {n : ℕ} (h : ¬ n < 128) :
    encode n = (n % 128 + 128).toUInt8 :: encode (n / 128) := by
  rw [encode, if_neg h]

lemma encode_ne_nil (n : ℕ) : encode n ≠ [] := by
  rw [encode]
  split <;> simp

lemma length_encode_pos (n : ℕ) : 0 < (encode n).length :=
  List.length_pos_iff.mpr (encode_ne_nil n)

/-- A code has at most `k + 1` bytes exactly when the number has at most `7 * (k + 1)` bits. -/
lemma length_encode_le_iff (n k : ℕ) : (encode n).length ≤ k + 1 ↔ n < 2 ^ (7 * (k + 1)) := by
  induction k generalizing n with
  | zero =>
    by_cases h : n < 128
    · simp [encode_of_lt h, h]
    · have := length_encode_pos (n / 128)
      simp only [encode_of_ge h, List.length_cons]
      omega
  | succ k ih =>
    have hp : 2 ^ (7 * (k + 1 + 1)) = 2 ^ (7 * (k + 1)) * 128 := by
      rw [Nat.mul_succ, Nat.pow_add]
    by_cases h : n < 128
    · have h1 : 1 ≤ 2 ^ (7 * (k + 1)) := Nat.one_le_two_pow
      simp only [encode_of_lt h, List.length_singleton]
      omega
    · rw [encode_of_ge h, List.length_cons, Nat.add_le_add_iff_right, ih, hp]
      exact Nat.div_lt_iff_lt_mul (by decide)

/-- **A memory that starts with the shortest code of `n`** starts with a code of its length. -/
lemma isCode_encode (n : ℕ) (rest : List UInt8) (m : Mem UInt8) :
    IsCode (m.store 0 (encode n ++ rest)) (encode n).length := by
  induction n using Nat.strongRecOn generalizing m with
  | ind n ih =>
    by_cases h : n < 128
    · rw [encode_of_lt h]
      apply isCode_one
      rw [Mem.store_apply _ _ (Nat.zero_le _) (by simp)]
      simp only [Cont, List.singleton_append, Nat.sub_zero, List.getElem_cons_zero]
      rw [toNat_toUInt8 (by omega)]
      omega
    · rw [encode_of_ge h, List.length_cons]
      refine IsCode.cons ?_ ?_
      · rw [Mem.store_apply _ _ (Nat.zero_le _) (by simp)]
        simp only [Cont, List.cons_append, Nat.sub_zero, List.getElem_cons_zero]
        rw [toNat_toUInt8 (by omega)]
        omega
      · rw [List.cons_append, Mem.shift_store_cons]
        exact ih (n / 128) (by omega) _

/-- **The shortest code of `n` spells `n`**. -/
lemma payload_encode (n : ℕ) (rest : List UInt8) (m : Mem UInt8) :
    payload (m.store 0 (encode n ++ rest)) (encode n).length = n := by
  induction n using Nat.strongRecOn generalizing m with
  | ind n ih =>
    by_cases h : n < 128
    · rw [encode_of_lt h, List.length_singleton, payload_succ, payload_zero,
        Mem.store_apply _ _ (Nat.zero_le _) (by simp)]
      simp only [List.singleton_append, Nat.sub_zero, List.getElem_cons_zero, toNat_and_7f]
      rw [toNat_toUInt8 (by omega)]
      omega
    · rw [encode_of_ge h, List.length_cons, payload_shift,
        Mem.store_apply _ _ (Nat.zero_le _) (by simp)]
      simp only [List.cons_append, Nat.sub_zero, List.getElem_cons_zero, toNat_and_7f]
      rw [Mem.shift_store_cons, ih (n / 128) (by omega), toNat_toUInt8 (by omega)]
      omega

end Futils.Lib.Base128
