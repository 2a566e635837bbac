import Mathlib.Algebra.Order.Ring.Nat
import Mathlib.Algebra.Order.Monoid.Unbundled.Pow
import Mathlib.Tactic.Ring
import Futils.Lib.CString

/-!
# Decimal numbers of a fixed width

`dec k n` has the last `k` decimal digits of `n`, with zeros in front.  Every text of digits is one of
these, and so is a number that is printed with enough zeros.
-/

namespace Futils.Lib

def IsDigit (c : UInt8) : Prop := 48 ≤ c.toNat ∧ c.toNat ≤ 57

/-- The last digit of a number. -/
def lastDigit (n : ℕ) : UInt8 := UInt8.ofNat (48 + n % 10)

def dec : ℕ → ℕ → List UInt8
  | 0, _ => []
  | k + 1, n => dec k (n / 10) ++ [lastDigit n]

def digitValue (c : UInt8) : ℕ := c.toNat - 48

/-- The value of decimal digits that follow the digits of `n`. -/
def appendDigits (n : ℕ) (f : List UInt8) : ℕ := f.foldl (fun v c => 10 * v + digitValue c) n

def decValue (f : List UInt8) : ℕ := appendDigits 0 f

variable {k n : ℕ} {c : UInt8} {f : List UInt8}

/-! ### One digit -/

lemma toNat_lastDigit (n : ℕ) : (lastDigit n).toNat = 48 + n % 10 := by
  unfold lastDigit
  rw [UInt8.toNat_ofNat']
  omega

lemma isDigit_lastDigit (n : ℕ) : IsDigit (lastDigit n) := by
  unfold IsDigit
  rw [toNat_lastDigit]
  omega

lemma digitValue_lastDigit (n : ℕ) : digitValue (lastDigit n) = n % 10 := by
  unfold digitValue
  rw [toNat_lastDigit, Nat.add_sub_cancel_left]

lemma IsDigit.digitValue_lt (h : IsDigit c) : digitValue c < 10 := by
  unfold IsDigit at h
  unfold digitValue
  omega

lemma IsDigit.lastDigit_digitValue (h : IsDigit c) (n : ℕ) :
    lastDigit (10 * n + digitValue c) = c := by
  unfold IsDigit at h
  unfold digitValue
  apply UInt8.toNat_inj.mp
  rw [toNat_lastDigit]
  omega

lemma ch_digitChar (h : n < 10) : ch (Nat.digitChar n) = lastDigit n := by
  unfold ch lastDigit
  rw [Nat.toNat_digitChar_of_lt_ten h, Nat.mod_eq_of_lt h, Nat.toUInt8]

/-! ### Many digits -/

@[simp] lemma length_dec (k n : ℕ) : (dec k n).length = k := by
  induction k generalizing n with
  | zero => rfl
  | succ k ih => rw [dec, List.length_append, ih, List.length_singleton]

lemma isDigit_of_mem_dec (h : c ∈ dec k n) : IsDigit c := by
  induction k generalizing n with
  | zero => cases h
  | succ k ih =>
    rw [dec, List.mem_append, List.mem_singleton] at h
    rcases h with h | rfl
    · exact ih h
    · exact isDigit_lastDigit n

lemma decValue_concat (f : List UInt8) (c : UInt8) :
    decValue (f ++ [c]) = 10 * decValue f + digitValue c := by
  unfold decValue appendDigits
  rw [List.foldl_append, List.foldl_cons, List.foldl_nil]

lemma decValue_dec (h : n < 10 ^ k) : decValue (dec k n) = n := by
  induction k generalizing n with
  | zero =>
    rw [pow_zero, Nat.lt_one_iff] at h
    rw [h]
    rfl
  | succ k ih =>
    have hdiv : n / 10 < 10 ^ k := by
      rw [pow_succ] at h
      exact Nat.div_lt_of_lt_mul (by omega)
    rw [dec, decValue_concat, ih hdiv, digitValue_lastDigit]
    omega

lemma decValue_lt (h : ∀ c ∈ f, IsDigit c) : decValue f < 10 ^ f.length := by
  induction f using List.reverseRecOn with
  | nil => exact Nat.one_pos
  | append_singleton f c ih =>
    have hf := ih fun x hx => h x (List.mem_append_left _ hx)
    have hc := (h c (List.mem_append_right _ List.mem_cons_self)).digitValue_lt
    rw [decValue_concat, List.length_append, List.length_singleton, pow_succ]
    omega

/-- **A text of digits** is a number of the width of the text. -/
theorem dec_decValue (h : ∀ c ∈ f, IsDigit c) : dec f.length (decValue f) = f := by
  induction f using List.reverseRecOn with
  | nil => rfl
  | append_singleton f c ih =>
    have hf := ih fun x hx => h x (List.mem_append_left _ hx)
    have hc := h c (List.mem_append_right _ List.mem_cons_self)
    have hdiv : (10 * decValue f + digitValue c) / 10 = decValue f := by
      have := hc.digitValue_lt
      omega
    rw [decValue_concat, List.length_append, List.length_singleton, dec, hdiv, hf,
      hc.lastDigit_digitValue]

/-! ### Printing -/

lemma dec_of_lt_ten (h : n < 10) (k : ℕ) :
    dec (k + 1) n = List.replicate k (ch '0') ++ [lastDigit n] := by
  induction k generalizing n with
  | zero => rfl
  | succ k ih =>
    rw [dec, Nat.div_eq_of_lt h, ih (by omega), List.replicate_succ']
    rfl

/-- **A number that is printed** with zeros in front has the digits of `dec`. -/
theorem replicate_toDigits (hk : 0 < k) (h : n < 10 ^ k) :
    List.replicate (k - (chars (Nat.toDigits 10 n)).length) (ch '0') ++ chars (Nat.toDigits 10 n) =
      dec k n := by
  induction k generalizing n with
  | zero => cases hk
  | succ k ih =>
    by_cases hn : n < 10
    · rw [Nat.toDigits_of_lt_base hn, dec_of_lt_ten hn]
      unfold chars
      rw [List.map_singleton, List.length_singleton, Nat.add_sub_cancel, ch_digitChar hn]
    · have hdiv : n / 10 < 10 ^ k := by
        rw [pow_succ] at h
        exact Nat.div_lt_of_lt_mul (by omega)
      have hk : 0 < k := by
        rcases Nat.eq_zero_or_pos k with rfl | hk
        · rw [pow_zero] at hdiv
          omega
        · exact hk
      have hdigits : chars (Nat.toDigits 10 n) = chars (Nat.toDigits 10 (n / 10)) ++ [lastDigit n] := by
        unfold chars
        rw [Nat.toDigits_of_base_le (by omega) (by omega), List.map_append, List.map_singleton,
          ch_digitChar (by omega)]
        unfold lastDigit
        rw [Nat.mod_mod]
      rw [hdigits, dec, ← ih hk hdiv, List.length_append, List.length_singleton,
        Nat.add_sub_add_right, List.append_assoc]

end Futils.Lib
