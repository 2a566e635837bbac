import Futils.Lib.Gregorian
import Futils.Systime.Local
import Mathlib.Tactic.Ring

/-!
# The epoch of a date and a time

`tm_mkepoch_local` counts the days of the Gregorian calendar, by years that start in March.
-/

namespace Futils.Systime

open Futils.Lib

/-! ### Machine integers -/

lemma toNat_ofInt {x : ℤ} (h₀ : 0 ≤ x) (h : x < 2 ^ 32) : (UInt32.ofInt x).toNat = x.toNat := by
  unfold UInt32.ofInt
  rw [Int.emod_eq_of_lt h₀ h, UInt32.toNat_ofNat']
  omega

lemma ofInt_natCast (n : ℕ) : UInt64.ofInt n = UInt64.ofNat n := by
  refine UInt64.toNat_inj.mp ?_
  unfold UInt64.ofInt
  rw [UInt64.toNat_ofNat', UInt64.toNat_ofNat']
  omega

lemma ofNat_toNat32 (x : UInt32) : x.toUInt64 = UInt64.ofInt x.toNat := by
  rw [ofInt_natCast]
  refine UInt64.toNat_inj.mp ?_
  rw [UInt64.toNat_ofNat', UInt32.toNat_toUInt64, Nat.mod_eq_of_lt]
  have := x.toNat_lt
  omega

/-- A number that fits is widened. -/
lemma toUInt64_ofInt {x : ℤ} (h₀ : 0 ≤ x) (h : x < 2 ^ 32) :
    (UInt32.ofInt x).toUInt64 = UInt64.ofInt x := by
  rw [ofNat_toNat32, toNat_ofInt h₀ h, Int.toNat_of_nonneg h₀]

lemma ofInt_sub (x y : ℤ) : UInt64.ofInt (x - y) = UInt64.ofInt x - UInt64.ofInt y := by
  rw [Int.sub_eq_add_neg, UInt64.ofInt_add, UInt64.ofInt_neg, UInt64.sub_eq_add_neg]

/-! ### Years that start in March -/

/-- The days of the years before year `y`, both of them starting in March. -/
def marchDays (y : ℕ) : ℕ := y / 4 - y / 100 + y / 400 + 365 * y

lemma marchDays_eq {y : ℕ} (hy : y < 11767034) :
    (UInt32.ofInt y / 4 - UInt32.ofInt y / 100 + UInt32.ofInt y / 400).toUInt64 +
        (UInt32.ofInt y * 365).toUInt64 = UInt64.ofInt (marchDays y) := by
  have hnat : (UInt32.ofInt y).toNat = y := toNat_ofInt (by omega) (by omega)
  have hleaps : (UInt32.ofInt y / 4 - UInt32.ofInt y / 100 + UInt32.ofInt y / 400).toNat =
      y / 4 - y / 100 + y / 400 := by
    rw [UInt32.toNat_add, UInt32.toNat_sub_of_le _ _ ?_, UInt32.toNat_div, UInt32.toNat_div,
      UInt32.toNat_div, hnat]
    · change (y / 4 - y / 100 + y / 400) % 2 ^ 32 = _
      omega
    · rw [UInt32.le_iff_toNat_le, UInt32.toNat_div, UInt32.toNat_div, hnat]
      change y / 100 ≤ y / 4
      omega
  have hyears : (UInt32.ofInt y * 365).toNat = 365 * y := by
    rw [UInt32.toNat_mul, hnat]
    change y * 365 % 2 ^ 32 = _
    omega
  rw [ofNat_toNat32, ofNat_toNat32, hleaps, hyears, ← UInt64.ofInt_add]
  rfl

/-- The year and the month in years that start in March, from a month of a usual year. -/
def marchYear (y m : ℕ) : ℕ := if m ≤ 2 then y - 1 else y

def marchMonth (m : ℕ) : ℕ := if m ≤ 2 then m + 10 else m - 2

/-- What the table has for a month. -/
def marchMonthDays (m : ℕ) : ℕ := 367 * m / 12

lemma cumulative_eq {m : ℕ} (hm : m ≤ 12) (behind : Mem UInt64) :
    cumulativeNbDayPerMonth.getD m (behind m) = UInt64.ofInt (marchMonthDays m) := by
  have hall : ∀ m ≤ 12, cumulativeNbDayPerMonth[m]? = some (UInt64.ofInt (marchMonthDays m)) := by
    decide
  rw [List.getD_eq_getElem?_getD, hall m hm, Option.getD_some]

lemma shift_month {y m : ℕ} (hm : 1 ≤ m) (hm' : m ≤ 12) (hy : 1 ≤ y) :
    (if (UInt32.ofInt m - 2).toInt32.toInt ≤ 0 then
        (UInt32.ofInt m - 2 + 12, UInt32.ofInt y - 1)
      else (UInt32.ofInt m - 2, UInt32.ofInt y)) =
    (UInt32.ofInt (marchMonth m), UInt32.ofInt (marchYear y m)) := by
  have hall : ∀ m : ℕ, m ≤ 12 → 1 ≤ m →
      ((UInt32.ofInt m - 2).toInt32.toInt ≤ 0 ↔ m ≤ 2) ∧
      (m ≤ 2 → UInt32.ofInt m - 2 + 12 = UInt32.ofInt (marchMonth m)) ∧
      (¬ m ≤ 2 → UInt32.ofInt m - 2 = UInt32.ofInt (marchMonth m)) := by decide
  obtain ⟨hneg, hlow, hhigh⟩ := hall m hm' hm
  by_cases h : m ≤ 2
  · have hcast : ((y - 1 : ℕ) : ℤ) = y + -1 := by omega
    rw [if_pos (hneg.mpr h), hlow h, marchYear, if_pos h, hcast, UInt32.ofInt_add,
      UInt32.sub_eq_add_neg]
    rfl
  · rw [if_neg (mt hneg.mp h), hhigh h, marchYear, if_neg h]

/-- The days before a month, from those of the table. -/
lemma daysBeforeMonth_eq {y m : ℕ} (hm : 1 ≤ m) (hm' : m ≤ 12) :
    daysBeforeMonth y m =
      if m ≤ 2 then 31 * (m - 1)
      else 29 + (if IsLeap y then 1 else 0) + marchMonthDays (m - 2) := by
  have hcases : m = 1 ∨ m = 2 ∨ m = 3 ∨ m = 4 ∨ m = 5 ∨ m = 6 ∨ m = 7 ∨ m = 8 ∨ m = 9 ∨ m = 10 ∨
    m = 11 ∨ m = 12 := by omega
  by_cases h : IsLeap y <;>
    rcases hcases with rfl | rfl | rfl | rfl | rfl | rfl | rfl | rfl | rfl | rfl | rfl | rfl <;>
    simp [daysBeforeMonth, daysInMonth, marchMonthDays, h]

/-- **The days are those of the calendar.** -/
lemma march_dayNumber {y m d : ℕ} (hm : 1 ≤ m) (hm' : m ≤ 12) (hy : 1 ≤ y) :
    (marchDays (marchYear y m) + marchMonthDays (marchMonth m) + d : ℕ) - (719499 : ℤ) =
      dayNumber y m d := by
  have hyear := daysBeforeYear_eq y
  unfold dayNumber marchDays marchYear marchMonth
  rw [daysBeforeYear_1970, daysBeforeMonth_eq hm hm']
  by_cases h : m ≤ 2
  · have hdays : marchMonthDays (m + 10) = 336 + 31 * (m - 1) := by
      unfold marchMonthDays
      omega
    rw [if_pos h, if_pos h, if_pos h, hdays]
    omega
  · rw [if_neg h, if_neg h, if_neg h]
    by_cases hleap : IsLeap y
    · rw [if_pos hleap]
      unfold IsLeap at hleap
      omega
    · rw [if_neg hleap]
      have hcommon := mod_of_not_isLeap hleap
      omega

/-- **The epoch** of a date and a time of day, as long as the days of the years have 32 bits. -/
theorem tmMkepochLocal_of_date (behind : Mem UInt64) {y m d : ℕ} {hour min sec : ℕ} (hdate : IsDate y m d)
    (hy : 1 ≤ y) (hy' : y < 11767034) (hh : hour < 2 ^ 32) (hmin : min < 2 ^ 32) (hs : sec < 2 ^ 32)
    (wday gmtoff : ℤ) :
    tmMkepochLocal behind ⟨sec, min, hour, d, m - 1, y - 1900, wday⟩ gmtoff =
      (UInt64.ofInt (86400 * dayNumber y m d + 3600 * hour + 60 * min + sec - gmtoff),
        marchMonth m) := by
  have hd := hdate.day_le_31
  have hm := hdate.month_pos
  have hm' := hdate.month_le
  have hmonth : marchMonth m ≤ 12 := by
    unfold marchMonth
    split_ifs <;> omega
  have hyear : marchYear y m < 11767034 := by
    unfold marchYear
    split_ifs <;> omega
  have hindex : (UInt32.ofInt (marchMonth m)).toNat = marchMonth m :=
    toNat_ofInt (by omega) (by omega)
  have hdays : 86400 * dayNumber y m d + 3600 * hour + 60 * min + sec - gmtoff =
      (((marchDays (marchYear y m) + marchMonthDays (marchMonth m) + d - 719499 : ℤ) * 24 + hour) *
        60 + min) * 60 + sec - gmtoff := by
    rw [← march_dayNumber hm hm' hy]
    push_cast
    ring
  have h24 : (24 : UInt64) = UInt64.ofInt 24 := rfl
  have h60 : (60 : UInt64) = UInt64.ofInt 60 := rfl
  have hbase : nbDay1970 = UInt64.ofInt 719499 := rfl
  unfold tmMkepochLocal
  simp only [Int.sub_add_cancel, shift_month hm hm' hy, hindex]
  rw [marchDays_eq hyear, cumulative_eq hmonth, toUInt64_ofInt (x := d) (by omega) (by omega),
    toUInt64_ofInt (x := hour) (by omega) (by omega), toUInt64_ofInt (x := min) (by omega) (by omega),
    toUInt64_ofInt (x := sec) (by omega) (by omega), hdays, hbase, h24, h60]
  simp only [← UInt64.ofInt_add, ← UInt64.ofInt_mul, ← ofInt_sub]

/-- The years that can be written. -/
theorem tmMkepochLocal_eq (behind : Mem UInt64) {y m d : ℕ} {hour min sec : ℕ} (hdate : IsDate y m d)
    (hy : 1 ≤ y) (hy' : y < 10000) (hh : hour < 2 ^ 32) (hmin : min < 2 ^ 32) (hs : sec < 2 ^ 32)
    (wday gmtoff : ℤ) :
    tmMkepochLocal behind ⟨sec, min, hour, d, m - 1, y - 1900, wday⟩ gmtoff =
      (UInt64.ofInt (86400 * dayNumber y m d + 3600 * hour + 60 * min + sec - gmtoff),
        marchMonth m) :=
  tmMkepochLocal_of_date behind hdate hy (hy'.trans (by decide)) hh hmin hs wday gmtoff

end Futils.Systime
