import Futils.Timetools.Diff

/-!
# Signed differences and ranges

The conversion to microseconds takes back what the subtraction borrows, also where the seconds are negative:
the product wraps and the sum wraps back.  `time_timespec_diff_in_range` subtracts and converts as
`time_timespec_diff_us` does, but returns early for equal times.
-/

namespace Futils.Timetools

open Futils.Lib

variable {t t1 t2 : Timespec}

/-! ### Microseconds -/

/-- The microseconds of a time, modulo the size of the type. -/
lemma timeTimespecToUs_eq (us : UInt64) (h : 0 ≤ t.tvNsec.toInt) :
    ∃ n : UInt64, timeTimespecToUs (some t) (some us) = (0, some n) ∧
      (n.toNat : ℤ) = t.ns / 1000 % 18446744073709551616 := by
  have hsec := toNat_toUInt64 t.tvSec
  have hnsec := toNat_toUInt64 t.tvNsec
  have hsec1 := t.tvSec.le_toInt
  have hnsec1 := t.tvNsec.toInt_lt
  refine ⟨_, rfl, ?_⟩
  rw [UInt64.toNat_add, UInt64.toNat_mul, UInt64.toNat_div]
  simp only [UInt64.reduceToNat, Timespec.ns]
  omega

/-- A duration in microseconds that fits in 64 bits. -/
def UsFits (t1 t2 : Timespec) : Prop := (t1.ns - t2.ns).natAbs / 1000 < 18446744073709551616

instance : Decidable (UsFits t1 t2) := inferInstanceAs (Decidable (_ < _))

lemma UsFits.symm (h : UsFits t1 t2) : UsFits t2 t1 := by
  unfold UsFits at *
  omega

/-- Times that are in order can be subtracted when the duration fits. -/
lemma exists_diff (h1 : t1.Normal) (h2 : t2.Normal) (hle : t1.ns ≤ t2.ns) (hfits : UsFits t1 t2) :
    ∃ d, timeTimespecDiff (some t1) (some t2) (some ⟨0, 0⟩) = some (0, some d) ∧
      d.ns = (t1.ns - t2.ns).natAbs ∧ 1 ≤ d.tvNsec.toInt := by
  have hsec : Fits (t2.tvSec.toInt - t1.tvSec.toInt) := by
    obtain ⟨h10, h11⟩ := h1
    obtain ⟨h20, h21⟩ := h2
    unfold UsFits at hfits
    unfold Timespec.ns at hle hfits
    unfold Fits
    omega
  obtain ⟨d, hd, hdiff⟩ := timeTimespecDiff_spec ⟨0, 0⟩ h1 h2 hle hsec
  refine ⟨d, hd, ?_, hdiff.pos⟩
  rw [hdiff.exact]
  omega

/-- The difference in the order in which it is not negative. -/
lemma orderedDiff_eq (h1 : t1.Normal) (h2 : t2.Normal) (hfits : UsFits t1 t2) :
    ∃ d, orderedDiff (some t1) (some t2) = some (0, some d) ∧ d.ns = (t1.ns - t2.ns).natAbs ∧
      1 ≤ d.tvNsec.toInt := by
  unfold orderedDiff
  simp only [cmp_eq_one h1 h2]
  by_cases hpos : 0 < t1.ns - t2.ns
  · obtain ⟨d, hd, hns, hnsec⟩ := exists_diff h2 h1 (by omega) hfits.symm
    rw [if_pos hpos]
    refine ⟨d, hd, ?_, hnsec⟩
    omega
  · obtain ⟨d, hd, hns, hnsec⟩ := exists_diff h1 h2 (by omega) hfits
    rw [if_neg hpos]
    exact ⟨d, hd, hns, hnsec⟩

/-- And its microseconds. -/
lemma orderedUs_eq (us : UInt64) (h1 : t1.Normal) (h2 : t2.Normal) (hfits : UsFits t1 t2) :
    ∃ d n, orderedDiff (some t1) (some t2) = some (0, some d) ∧
      timeTimespecToUs (some d) (some us) = (0, some n) ∧ n.toNat = (t1.ns - t2.ns).natAbs / 1000 := by
  obtain ⟨d, hd, hns, hpos⟩ := orderedDiff_eq h1 h2 hfits
  obtain ⟨n, hn, hnat⟩ := timeTimespecToUs_eq us (t := d) (by omega)
  unfold UsFits at hfits
  refine ⟨d, n, hd, hn, ?_⟩
  rw [hns] at hnat
  omega

/-! ### `time_timespec_diff_us` -/

/-- The duration and the sign, whatever was in the variables. -/
lemma timeTimespecDiffUs_eq (us : UInt64) (sign : ℤ) (h1 : t1.Normal) (h2 : t2.Normal) (hfits : UsFits t1 t2) :
    ∃ n : UInt64, timeTimespecDiffUs (some t1) (some t2) (some us) (some sign) =
        some (0, some n, some (if 0 < t1.ns - t2.ns then 1 else -1)) ∧
      n.toNat = (t1.ns - t2.ns).natAbs / 1000 := by
  obtain ⟨d, n, hd, hn, hnat⟩ := orderedUs_eq us h1 h2 hfits
  refine ⟨n, ?_, hnat⟩
  unfold timeTimespecDiffUs
  rw [hd, Option.bind_eq_bind, Option.bind_some]
  simp only [hn, cmp_eq_one h1 h2, lt_irrefl, if_false, Option.map_some]

/-- **The signed difference is exact**: the microseconds of the nanoseconds, truncated toward zero. -/
theorem timeTimespecDiffUs_exact (us : UInt64) (sign : ℤ) (h1 : t1.Normal) (h2 : t2.Normal)
    (hfits : UsFits t1 t2) :
    ∃ (duration : UInt64) (s : ℤ),
      timeTimespecDiffUs (some t1) (some t2) (some us) (some sign) = some (0, some duration, some s) ∧
        s * duration.toNat = (t1.ns - t2.ns).tdiv 1000 := by
  obtain ⟨n, hn, hnat⟩ := timeTimespecDiffUs_eq us sign h1 h2 hfits
  refine ⟨n, _, hn, ?_⟩
  rw [hnat]
  split_ifs with hpos
  · rw [Int.tdiv_eq_ediv_of_nonneg hpos.le, one_mul]
    omega
  · have hneg : t1.ns - t2.ns = -(t2.ns - t1.ns) := by omega
    rw [hneg, Int.neg_tdiv, Int.tdiv_eq_ediv_of_nonneg (by omega)]
    omega

/-- With equal nanoseconds, and with equal times. -/
theorem timeTimespecDiffUs_exact_seven :
    (∃ (duration : UInt64) (s : ℤ),
      timeTimespecDiffUs (some ⟨3, 7⟩) (some ⟨5, 7⟩) (some 0) (some 0) = some (0, some duration, some s) ∧
        s * duration.toNat = -2000000) ∧
    ∃ (duration : UInt64) (s : ℤ),
      timeTimespecDiffUs (some ⟨5, 7⟩) (some ⟨5, 7⟩) (some 9) (some 0) = some (0, some duration, some s) ∧
        s * duration.toNat = 0 :=
  ⟨timeTimespecDiffUs_exact 0 0 (by decide) (by decide) (by decide),
    timeTimespecDiffUs_exact 9 0 (by decide) (by decide) (by decide)⟩

/-! ### `time_timespec_diff_in_range` -/

/-- The range test stores the duration that `time_timespec_diff_us` reports, and compares it with the range. -/
def RangeAgrees (t1 t2 : Timespec) (rangeUs : UInt64) : Prop :=
  ∀ (out us : UInt64) (sign : ℤ), ∃ (duration : UInt64) (s : ℤ),
    timeTimespecDiffUs (some t1) (some t2) (some us) (some sign) = some (0, some duration, some s) ∧
      timeTimespecDiffInRange (some t1) (some t2) rangeUs (some out) =
        some (if duration < rangeUs then 1 else 0, some duration)

lemma rangeAgrees_of_ne (rangeUs : UInt64) (h1 : t1.Normal) (h2 : t2.Normal) (hfits : UsFits t1 t2)
    (hne : t1 ≠ t2) : RangeAgrees t1 t2 rangeUs := by
  intro out us sign
  obtain ⟨n, hn, hnat⟩ := timeTimespecDiffUs_eq us sign h1 h2 hfits
  obtain ⟨d, n', hd, hn', hnat'⟩ := orderedUs_eq 0 h1 h2 hfits
  obtain rfl : n = n' := UInt64.toNat_inj.mp (hnat.trans hnat'.symm)
  refine ⟨n, _, hn, ?_⟩
  unfold timeTimespecDiffInRange
  rw [if_neg (by simp), if_neg (mt (cmp_eq_zero h1 h2).mp hne), hd, Option.bind_eq_bind, Option.bind_some]
  simp only [hn', lt_irrefl, if_false, Option.getD_some, Option.map_some]

/-- Equal times are in every range, and nothing is stored. -/
lemma not_rangeAgrees_self (t : Timespec) (rangeUs : UInt64) : ¬ RangeAgrees t t rangeUs := by
  intro h
  have hearly : ∀ out, timeTimespecDiffInRange (some t) (some t) rangeUs (some out) = some (1, some out) := by
    intro out
    have hcmp : timeTimespecCmp (some t) (some t) = 0 := by simp [timeTimespecCmp]
    unfold timeTimespecDiffInRange
    rw [if_neg (by simp), if_pos hcmp]
  obtain ⟨d, s, hd, hr⟩ := h 0 0 0
  obtain ⟨d', s', hd', hr'⟩ := h 1 0 0
  rw [hearly] at hr hr'
  simp only [hd, Option.some.injEq, Prod.mk.injEq] at hd' hr hr'
  rw [← hr.2, ← hr'.2] at hd'
  exact absurd hd'.2.1 (by decide)

/-- **The range test agrees with the difference**, in either order, exactly when the times differ. -/
theorem timeTimespecDiffInRange_iff (rangeUs : UInt64) (h1 : t1.Normal) (h2 : t2.Normal)
    (hfits : UsFits t1 t2) :
    RangeAgrees t1 t2 rangeUs ∧ RangeAgrees t2 t1 rangeUs ↔ t1 ≠ t2 := by
  constructor
  · rintro ⟨h, -⟩ rfl
    exact not_rangeAgrees_self t1 rangeUs h
  · intro hne
    exact ⟨rangeAgrees_of_ne rangeUs h1 h2 hfits hne, rangeAgrees_of_ne rangeUs h2 h1 hfits.symm hne.symm⟩

theorem timeTimespecDiffInRange_iff_seven : RangeAgrees ⟨3, 7⟩ ⟨5, 7⟩ 9 ∧ RangeAgrees ⟨5, 7⟩ ⟨3, 7⟩ 9 :=
  (timeTimespecDiffInRange_iff 9 (by decide) (by decide) (by decide)).mpr (by decide)

/-- Equal times are in the empty range, and what was stored before stays; the difference is zero. -/
theorem timeTimespecDiffInRange_equal :
    timeTimespecDiffInRange (some ⟨5, 7⟩) (some ⟨5, 7⟩) 0 (some 42) = some (1, some 42) ∧
      timeTimespecDiffUs (some ⟨5, 7⟩) (some ⟨5, 7⟩) (some 42) (some 0) = some (0, some 0, some (-1)) ∧
      ¬ RangeAgrees ⟨5, 7⟩ ⟨5, 7⟩ 0 :=
  ⟨by decide, by decide, not_rangeAgrees_self _ _⟩

end Futils.Timetools
