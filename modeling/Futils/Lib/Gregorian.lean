import Mathlib.Order.Monotone.Basic
import Mathlib.Data.Nat.Init

/-!
# The Gregorian calendar

The proleptic calendar from year 0 on.  Days are counted from 1970-01-01 by adding up the years and the
months before a date; `daysBeforeYear_eq` is the closed form.
-/

namespace Futils.Lib

def IsLeap (y : ℕ) : Prop := y % 4 = 0 ∧ y % 100 ≠ 0 ∨ y % 400 = 0

instance (y : ℕ) : Decidable (IsLeap y) := inferInstanceAs (Decidable (_ ∨ _))

def daysInMonth (y m : ℕ) : ℕ :=
  if m = 2 then if IsLeap y then 29 else 28
  else if m = 4 ∨ m = 6 ∨ m = 9 ∨ m = 11 then 30
  else 31

/-- The days of the months of the year before month `m`. -/
def daysBeforeMonth (y : ℕ) : ℕ → ℕ
  | 0 => 0
  | 1 => 0
  | m + 2 => daysBeforeMonth y (m + 1) + daysInMonth y (m + 1)

/-- The days of the years before `y`. -/
def daysBeforeYear : ℕ → ℕ
  | 0 => 0
  | y + 1 => daysBeforeYear y + daysBeforeMonth y 13

/-- The days from 1970-01-01 to a date. -/
def dayNumber (y m d : ℕ) : ℤ :=
  (daysBeforeYear y + daysBeforeMonth y m + d : ℕ) - (daysBeforeYear 1970 + 1 : ℕ)

/-- The numbers are those of a day. -/
structure IsDate (y m d : ℕ) : Prop where
  month_pos : 1 ≤ m
  month_le : m ≤ 12
  day_pos : 1 ≤ d
  day_le : d ≤ daysInMonth y m

variable {y m d : ℕ}

lemma mod_of_not_isLeap (h : ¬ IsLeap y) : (0 < y % 4 ∨ y % 100 = 0) ∧ 0 < y % 400 := by
  unfold IsLeap at h
  omega

lemma daysBeforeMonth_end (y : ℕ) : daysBeforeMonth y 13 = if IsLeap y then 366 else 365 := by
  by_cases h : IsLeap y <;> simp [daysBeforeMonth, daysInMonth, h]

/-- The days of the years, with the leap years among them counted by the rule. -/
lemma daysBeforeYear_eq (y : ℕ) :
    daysBeforeYear y + (y + 99) / 100 = 365 * y + (y + 3) / 4 + (y + 399) / 400 := by
  induction y with
  | zero => rfl
  | succ y ih =>
    rw [daysBeforeYear, daysBeforeMonth_end]
    by_cases h : IsLeap y
    · rw [if_pos h]
      unfold IsLeap at h
      omega
    · rw [if_neg h]
      have hcommon := mod_of_not_isLeap h
      omega

lemma daysBeforeYear_1970 : daysBeforeYear 1970 = 719528 := by
  have := daysBeforeYear_eq 1970
  omega

lemma IsDate.day_le_31 (h : IsDate y m d) : d ≤ 31 := by
  refine h.day_le.trans ?_
  unfold daysInMonth
  split_ifs <;> omega

lemma daysBeforeMonth_succ (h : 1 ≤ m) :
    daysBeforeMonth y (m + 1) = daysBeforeMonth y m + daysInMonth y m := by
  cases m with
  | zero => cases h
  | succ m => rfl

lemma daysBeforeMonth_mono (y : ℕ) : Monotone (daysBeforeMonth y) := by
  refine monotone_nat_of_le_succ fun m => ?_
  cases m with
  | zero => exact le_rfl
  | succ m =>
    rw [daysBeforeMonth_succ (Nat.succ_pos m)]
    exact Nat.le_add_right _ _

/-- A date comes before the next year. -/
lemma IsDate.le_end (h : IsDate y m d) : daysBeforeMonth y m + d ≤ daysBeforeMonth y 13 := by
  have hnext := daysBeforeMonth_succ (y := y) h.month_pos
  have hmono : daysBeforeMonth y (m + 1) ≤ daysBeforeMonth y 13 :=
    daysBeforeMonth_mono y (Nat.succ_le_succ h.month_le)
  have := h.day_le
  omega

/-! ### Dates of days -/

lemma daysInMonth_pos (y m : ℕ) : 1 ≤ daysInMonth y m := by
  unfold daysInMonth
  split_ifs <;> omega

/-- The date of a day; days are counted from 1 January of year 0. -/
def dateOfDay : ℕ → ℕ × ℕ × ℕ
  | 0 => (0, 1, 1)
  | n + 1 =>
    let (y, m, d) := dateOfDay n
    if d < daysInMonth y m then (y, m, d + 1)
    else if m < 12 then (y, m + 1, 1)
    else (y + 1, 1, 1)

/-- Every day has a date. -/
lemma dateOfDay_spec {n : ℕ} (hn : dateOfDay n = (y, m, d)) :
    IsDate y m d ∧ daysBeforeYear y + daysBeforeMonth y m + d = n + 1 := by
  induction n generalizing y m d with
  | zero =>
    cases hn
    exact ⟨⟨le_rfl, by decide, le_rfl, daysInMonth_pos 0 1⟩, rfl⟩
  | succ n ih =>
    rcases hprev : dateOfDay n with ⟨y₀, m₀, d₀⟩
    obtain ⟨h, hdays⟩ := ih hprev
    have hday := h.day_le
    have hm := h.month_pos
    have hm' := h.month_le
    have hnext := daysBeforeMonth_succ (y := y₀) hm
    rw [dateOfDay, hprev] at hn
    dsimp only at hn
    split_ifs at hn with hd hlast
    · cases hn
      exact ⟨⟨hm, hm', Nat.succ_pos _, hd⟩, by omega⟩
    · cases hn
      exact ⟨⟨Nat.succ_pos _, hlast, le_rfl, daysInMonth_pos _ _⟩, by omega⟩
    · cases hn
      have hdec : m₀ = 12 := by omega
      subst hdec
      change daysBeforeMonth y₀ 13 = _ at hnext
      refine ⟨⟨le_rfl, by decide, le_rfl, daysInMonth_pos _ _⟩, ?_⟩
      change daysBeforeYear y₀ + daysBeforeMonth y₀ 13 + 0 + 1 = _
      omega

/-- The day of a date; the inverse of `dayNumber`. -/
def dateOfNumber (x : ℤ) : ℕ × ℕ × ℕ := dateOfDay (x + daysBeforeYear 1970).toNat

lemma dateOfNumber_spec {x : ℤ} (hx : -719528 ≤ x) (h : dateOfNumber x = (y, m, d)) :
    IsDate y m d ∧ dayNumber y m d = x := by
  unfold dateOfNumber at h
  rw [daysBeforeYear_1970] at h
  obtain ⟨hdate, hdays⟩ := dateOfDay_spec h
  refine ⟨hdate, ?_⟩
  unfold dayNumber
  rw [daysBeforeYear_1970]
  omega

lemma daysBeforeYear_mono : Monotone daysBeforeYear :=
  monotone_nat_of_le_succ fun _ => Nat.le_add_right _ _

variable {y' m' d' : ℕ}

lemma IsDate.dayNumber_lt_of_year (h : IsDate y m d) (h' : IsDate y' m' d') (hy : y < y') :
    dayNumber y m d < dayNumber y' m' d' := by
  have hend := h.le_end
  have hmono : daysBeforeYear (y + 1) ≤ daysBeforeYear y' := daysBeforeYear_mono hy
  have hday := h'.day_pos
  have hyear : daysBeforeYear (y + 1) = daysBeforeYear y + daysBeforeMonth y 13 := rfl
  unfold dayNumber
  omega

/-- A date before the first day of year `y'` has an earlier year. -/
lemma IsDate.year_lt (h : IsDate y m d) (hlt : dayNumber y m d < dayNumber y' 1 1) : y < y' := by
  by_contra hle
  have hmono := daysBeforeYear_mono (not_lt.mp hle)
  have hday := h.day_pos
  have hjan : daysBeforeMonth y' 1 = 0 := rfl
  unfold dayNumber at hlt
  omega

lemma IsDate.dayNumber_lt_of_month (h : IsDate y m d) (h' : IsDate y m' d') (hm : m < m') :
    dayNumber y m d < dayNumber y m' d' := by
  have hday := h.day_le
  have hday' := h'.day_pos
  have hmono : daysBeforeMonth y (m + 1) ≤ daysBeforeMonth y m' := daysBeforeMonth_mono y hm
  rw [daysBeforeMonth_succ h.month_pos] at hmono
  unfold dayNumber
  omega

/-- A day has only one date. -/
theorem IsDate.unique (h : IsDate y m d) (h' : IsDate y' m' d')
    (heq : dayNumber y m d = dayNumber y' m' d') : (y, m, d) = (y', m', d') := by
  have hy : y = y' := by
    rcases Nat.lt_trichotomy y y' with hlt | heq' | hlt
    · exact absurd heq (h.dayNumber_lt_of_year h' hlt).ne
    · exact heq'
    · exact absurd heq.symm (h'.dayNumber_lt_of_year h hlt).ne
  subst hy
  have hm : m = m' := by
    rcases Nat.lt_trichotomy m m' with hlt | heq' | hlt
    · exact absurd heq (h.dayNumber_lt_of_month h' hlt).ne
    · exact heq'
    · exact absurd heq.symm (h'.dayNumber_lt_of_month h hlt).ne
  subst hm
  have hd : d = d' := by
    unfold dayNumber at heq
    omega
  rw [hd]

/-- **The date of the day of a date** is that date. -/
theorem dateOfNumber_dayNumber (h : IsDate y m d) : dateOfNumber (dayNumber y m d) = (y, m, d) := by
  have hx : -719528 ≤ dayNumber y m d := by
    have := h.day_pos
    unfold dayNumber
    rw [daysBeforeYear_1970]
    omega
  rcases hdate : dateOfNumber (dayNumber y m d) with ⟨y₀, m₀, d₀⟩
  obtain ⟨h₀, heq⟩ := dateOfNumber_spec hx hdate
  exact h₀.unique h heq

end Futils.Lib
