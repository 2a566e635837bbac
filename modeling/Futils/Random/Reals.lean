import Futils.Random.Unbiased
import Mathlib.Algebra.Order.Field.Rat
import Mathlib.Tactic.Positivity

/-!
# Random real numbers (`src/random.c`)

`futils_randomrd` and `futils_randomrf` scale an integer that has as many bits as a mantissa by a power of
two, so that nothing is rounded and the result is a rational number here.
-/

namespace Futils.Random

open Futils.Lib

variable {raw : List UInt8} {n k m : ℕ}

/-- The number that is made of the 7 bytes that `pool_rand56` draws. -/
def futilsRandomrd (raw : List UInt8) : ℚ := (poolRand56 raw >>> 3).toNat * (1 / 2 ^ 53)

/-- The number that is made of the 3 bytes that `pool_rand24` draws. -/
def futilsRandomrf (raw : List UInt8) : ℚ := (poolRand24 raw).toNat * (1 / 2 ^ 24)

/-- The numbers from 0 to 1 with so many bits after the point, without 1. -/
def IsDyadic (bits : ℕ) (x : ℚ) : Prop := ∃ m < 2 ^ bits, x = (m : ℕ) * (1 / 2 ^ bits)

lemma dyadic_inj {bits a b : ℕ} : (a : ℚ) * (1 / 2 ^ bits) = b * (1 / 2 ^ bits) ↔ a = b := by
  have hpos : (1 / 2 ^ bits : ℚ) ≠ 0 := by positivity
  rw [mul_left_inj' hpos, Nat.cast_inj]

lemma futilsRandomrd_eq (h : raw.length = 7) :
    futilsRandomrd raw = (leNat raw / 2 ^ 3 : ℕ) * (1 / 2 ^ 53) := by
  unfold futilsRandomrd poolRand56
  rw [BitVec.toNat_ushiftRight, toNat_gather_zero h (by decide), Nat.shiftRight_eq_div_pow]

lemma futilsRandomrf_eq (h : raw.length = 3) :
    futilsRandomrf raw = (leNat raw / 2 ^ 0 : ℕ) * (1 / 2 ^ 24) := by
  unfold futilsRandomrf poolRand24
  rw [toNat_gather_zero h (by decide), pow_zero, Nat.div_one]

/-- **The high bits of some bytes**, after the point, are any number of so many bits equally often. -/
lemma card_dyadic {f : List UInt8 → ℚ} (h : k ≤ 8 * n)
    (hf : ∀ raw : List UInt8, raw.length = n → f raw = (leNat raw / 2 ^ k : ℕ) * (1 / 2 ^ (8 * n - k))) (x : ℚ) :
    (IsDyadic (8 * n - k) x → Nat.card {raw : List.Vector UInt8 n // f raw.1 = x} = 2 ^ k) ∧
      (¬ IsDyadic (8 * n - k) x → ∀ raw : List UInt8, raw.length = n → f raw ≠ x) := by
  constructor
  · rintro ⟨m, hm, rfl⟩
    have hiff : ∀ raw : List.Vector UInt8 n,
        f raw.1 = (m : ℕ) * (1 / 2 ^ (8 * n - k)) ↔ leNat raw.1 / 2 ^ k = m := by
      intro raw
      rw [hf raw.1 raw.2, dyadic_inj]
    rw [Nat.card_congr (Equiv.subtypeEquivRight hiff), card_highBits h hm]
  · rintro hx raw hraw rfl
    refine hx ⟨leNat raw / 2 ^ k, ?_, hf raw hraw⟩
    have hlt := leNat_lt_of_length hraw
    rw [bytes_pow h] at hlt
    exact Nat.div_lt_of_lt_mul (by rwa [Nat.mul_comm] at hlt)

/-- **Random real numbers are uniform.**  Each multiple of `2 ^ -53` from 0 up to, and without, 1 is returned
by `futils_randomrd` for 8 of the strings of 7 bytes, and each multiple of `2 ^ -24` by `futils_randomrf` for
one of the strings of 3 bytes; no other number is returned. -/
theorem random_reals_uniform (x : ℚ) :
    ((IsDyadic 53 x → Nat.card {raw : List.Vector UInt8 7 // futilsRandomrd raw.1 = x} = 8) ∧
      (¬ IsDyadic 53 x → ∀ raw : List UInt8, raw.length = 7 → futilsRandomrd raw ≠ x)) ∧
    (IsDyadic 24 x → Nat.card {raw : List.Vector UInt8 3 // futilsRandomrf raw.1 = x} = 1) ∧
      (¬ IsDyadic 24 x → ∀ raw : List UInt8, raw.length = 3 → futilsRandomrf raw ≠ x) :=
  ⟨card_dyadic (n := 7) (k := 3) (by decide) (fun _ h => futilsRandomrd_eq h) x,
    card_dyadic (n := 3) (k := 0) (by decide) (fun _ h => futilsRandomrf_eq h) x⟩

end Futils.Random
