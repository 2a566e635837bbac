import Mathlib.Data.Nat.Basic
import Mathlib.Tactic.Ring

/-!
# Little-endian words

The bytes of an unsigned word in memory, least significant byte first.
-/

namespace Futils.Lib

/-- The `k` bytes of the word `n`. -/
def leBytes : ℕ → ℕ → List UInt8
  | 0, _ => []
  | k + 1, n => n.toUInt8 :: leBytes k (n / 256)

/-- The word with the given bytes. -/
def leNat : List UInt8 → ℕ
  | [] => 0
  | b :: bs => b.toNat + 256 * leNat bs

@[simp] lemma length_leBytes (k n : ℕ) : (leBytes k n).length = k := by
  induction k generalizing n with
  | zero => rfl
  | succ k ih => simp [leBytes, ih]

/-- **A word that fits its bytes is read back.** -/
lemma leNat_leBytes {k n : ℕ} (h : n < 256 ^ k) : leNat (leBytes k n) = n := by
  induction k generalizing n with
  | zero => simp [leBytes, leNat]; omega
  | succ k ih =>
    have hd : n / 256 < 256 ^ k := Nat.div_lt_of_lt_mul (by rw [Nat.mul_comm, ← Nat.pow_succ]; exact h)
    have hb : n.toUInt8.toNat = n % 256 := by simp
    rw [leBytes, leNat, ih hd, hb]
    omega

/-- **The bytes of a word are its bytes.** -/
lemma leBytes_leNat (bs : List UInt8) : leBytes bs.length (leNat bs) = bs := by
  induction bs with
  | nil => rfl
  | cons b bs ih =>
    have hb := b.toNat_lt
    have hdiv : (b.toNat + 256 * leNat bs) / 256 = leNat bs := by omega
    have hbyte : (b.toNat + 256 * leNat bs).toUInt8 = b := by
      apply UInt8.toNat_inj.mp
      rw [Nat.toUInt8_eq, UInt8.toNat_ofNat']
      omega
    rw [List.length_cons, leNat, leBytes, hdiv, ih, hbyte]

lemma leNat_lt (bs : List UInt8) : leNat bs < 256 ^ bs.length := by
  induction bs with
  | nil => simp [leNat]
  | cons b bs ih =>
    have hb := b.toNat_lt
    rw [leNat, List.length_cons, Nat.pow_succ]
    omega

end Futils.Lib
