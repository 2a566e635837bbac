import Mathlib.Tactic.Linarith
import Mathlib.Tactic.Ring

/-!
# Numbers in wholes and parts

A number `q * B + r` is kept as `q` wholes of `B` and a part `r`.  When the parts come from one interval of
length `B`, the wholes and the parts are determined, and their lexicographic order is that of the numbers.
A number is added to such a pair by one truncated division and one carry or borrow.
-/

namespace Futils.Lib

variable {B q q' r r' d a : ℤ}

/-! ### Order -/

/-- More wholes are more, whatever the parts. -/
lemma value_lt_of_lt (hB : 0 < B) (hr : r < a + B) (hr' : a ≤ r') (h : q < q') :
    q * B + r < q' * B + r' := by
  have hmul : (q + 1) * B ≤ q' * B := Int.mul_le_mul_of_nonneg_right h hB.le
  rw [Int.add_mul, Int.one_mul] at hmul
  omega

/-- **The lexicographic order** is the order of the numbers. -/
theorem value_lt_iff (hB : 0 < B) (hr : a ≤ r ∧ r < a + B) (hr' : a ≤ r' ∧ r' < a + B) :
    q * B + r < q' * B + r' ↔ q < q' ∨ q = q' ∧ r < r' := by
  rcases lt_trichotomy q q' with h | rfl | h
  · have hlt := value_lt_of_lt hB hr.2 hr'.1 h
    exact iff_of_true hlt (.inl h)
  · simp
  · have hlt := value_lt_of_lt hB hr'.2 hr.1 h
    refine iff_of_false hlt.not_gt ?_
    rintro (hq | ⟨rfl, -⟩)
    · exact hq.not_gt h
    · exact lt_irrefl _ h

/-- The number determines the wholes and the part. -/
theorem value_eq_iff (hB : 0 < B) (hr : a ≤ r ∧ r < a + B) (hr' : a ≤ r' ∧ r' < a + B) :
    q * B + r = q' * B + r' ↔ q = q' ∧ r = r' := by
  rcases lt_trichotomy q q' with h | rfl | h
  · have hlt := value_lt_of_lt hB hr.2 hr'.1 h
    exact iff_of_false hlt.ne fun heq => h.ne heq.1
  · simp
  · have hlt := value_lt_of_lt hB hr'.2 hr.1 h
    exact iff_of_false hlt.ne' fun heq => h.ne' heq.1

/-! ### Addition -/

/-- One carry or borrow. -/
def carry (B q r : ℤ) : ℤ × ℤ :=
  if B ≤ r then (q + 1, r - B) else if r < 0 then (q - 1, r + B) else (q, r)

/-- The number stays. -/
lemma carry_value (B q r : ℤ) : (carry B q r).1 * B + (carry B q r).2 = q * B + r := by
  unfold carry
  split_ifs <;> ring

/-- One is enough. -/
lemma carry_part (hlo : -B ≤ r) (hhi : r < 2 * B) : 0 ≤ (carry B q r).2 ∧ (carry B q r).2 < B := by
  unfold carry
  split_ifs <;> constructor <;> omega

/-- The part before the carry. -/
lemma part_bounds (hB : 0 < B) (hr : 0 ≤ r) (hr' : r < B) (d : ℤ) :
    -B ≤ r + d.tmod B ∧ r + d.tmod B < 2 * B := by
  have hlo := Int.lt_tmod_of_pos d hB
  have hhi := Int.tmod_lt_of_pos d hB
  omega

/-- **Addition**: the truncated quotient is added to the wholes and the remainder to the part. -/
theorem carry_add (q r d : ℤ) :
    (carry B (q + d.tdiv B) (r + d.tmod B)).1 * B + (carry B (q + d.tdiv B) (r + d.tmod B)).2 =
      q * B + r + d := by
  have hdiv := Int.tdiv_mul_add_tmod d B
  rw [carry_value, Int.add_mul]
  omega

/-- The wholes before the carry lie between those before the addition and those after it. -/
lemma whole_between (hB : 0 < B) (hr : 0 ≤ r) (hr' : r < B) (q d : ℤ) :
    min q (carry B (q + d.tdiv B) (r + d.tmod B)).1 ≤ q + d.tdiv B ∧
      q + d.tdiv B ≤ max q (carry B (q + d.tdiv B) (r + d.tmod B)).1 := by
  unfold carry
  rcases le_total 0 d with hd | hd
  · have hquot : 0 ≤ d.tdiv B := Int.tdiv_nonneg hd hB.le
    have hrem : 0 ≤ d.tmod B := Int.tmod_nonneg B hd
    split_ifs <;> omega
  · have hneg : 0 ≤ -d := Int.neg_nonneg_of_nonpos hd
    have hquot : 0 ≤ (-d).tdiv B := Int.tdiv_nonneg hneg hB.le
    have hrem : 0 ≤ (-d).tmod B := Int.tmod_nonneg B hneg
    rw [Int.neg_tdiv] at hquot
    rw [Int.neg_tmod] at hrem
    split_ifs <;> omega

end Futils.Lib
