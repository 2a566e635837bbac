import Futils.Lib.Checked
import Futils.Systime.Format

/-!
# Broken-down local times

`time_local_to_tm` and `time_local_from_tm` are inverse to each other, for every offset, up to the last year
of which the days can be counted in 32 bits.
-/

namespace Futils.Systime

open Futils.Lib

variable {y m d hour min sec : ℕ} {x : ℤ} {gmtimeR : ℤ → Option Tm}

/-- `struct tm` with `tm_gmtoff`. -/
structure LocalTm where
  tm : Tm
  gmtoff : Int64
  deriving DecidableEq

/-- The return value and `*tm`, with the `gmtime_r` of the system. -/
def timeLocalToTm (gmtimeR : ℤ → Option Tm) (epochSec : UInt64) (utcOffsetSec : Int32) (tm : Option LocalTm) :
    ℤ × Option LocalTm :=
  match tm with
  | none => (-EINVAL, none)
  | some _ =>
    match gmtimeR (epochSec + UInt64.ofInt utcOffsetSec.toInt).toInt64.toInt with
    | none => (-EOVERFLOW, tm)
    | some t => (0, some ⟨t, utcOffsetSec.toInt64⟩)

/-- The return value, `*epoch_sec` and `*utc_offset_sec`. -/
def timeLocalFromTm (behind : Mem UInt64) (tm : Option LocalTm) (epochSec : Option UInt64)
    (utcOffsetSec : Option Int32) : ℤ × Option UInt64 × Option Int32 :=
  match tm with
  | none => (-EINVAL, epochSec, utcOffsetSec)
  | some t =>
    if epochSec = none ∧ utcOffsetSec = none then (-EINVAL, epochSec, utcOffsetSec)
    else
      let gmtoff := t.gmtoff.toInt32
      (0, epochSec.map fun _ => (tmMkepochLocal behind t.tm gmtoff.toInt).1, utcOffsetSec.map fun _ => gmtoff)

/-! ### The calendar of the system, up to a later year -/

/-- The second of a date and a time of day. -/
def secondOf (y m d hour min sec : ℕ) : ℤ := 86400 * dayNumber y m d + 3600 * hour + 60 * min + sec

/-- A date of a year whose days can be counted in 32 bits, and a time of day. -/
structure IsTime (y m d hour min sec : ℕ) : Prop where
  date : IsDate y m d
  year_pos : 1 ≤ y
  year_lt : y < 11767034
  hour_le : hour ≤ 23
  min_le : min ≤ 59
  sec_le : sec ≤ 59

def tmOfTime (y m d hour min sec : ℕ) : Tm :=
  ⟨sec, min, hour, d, m - 1, y - 1900, (dayNumber y m d + 4) % 7⟩

/-- `gmtime_r` converts to the Gregorian calendar. -/
def CalendarGmtime (gmtimeR : ℤ → Option Tm) : Prop :=
  ∀ y m d hour min sec, IsTime y m d hour min sec →
    gmtimeR (secondOf y m d hour min sec) = some (tmOfTime y m d hour min sec)

lemma calendarGmtime_gmtime : CalendarGmtime gmtime := by
  rintro y m d hour min sec ⟨hdate, -, -, hhour, hmin, hsec⟩
  have hday : secondOf y m d hour min sec / 86400 = dayNumber y m d := by
    unfold secondOf
    omega
  rw [gmtime_eq (hday ▸ dateOfNumber_dayNumber hdate), hday]
  unfold tmOfTime secondOf
  simp only [Option.some_inj, Tm.mk.injEq, and_true]
  omega

lemma dayNumber_limit : dayNumber 11767034 1 1 = 4297101388 := by
  generalize hy : 11767034 = y
  have hyears := daysBeforeYear_eq y
  have hjan : daysBeforeMonth y 1 = 0 := rfl
  unfold dayNumber
  rw [daysBeforeYear_1970, hjan]
  omega

lemma year_pos_of_dayNumber (hdate : IsDate y m d) (h : -700000 ≤ dayNumber y m d) : 1 ≤ y := by
  have hend := hdate.le_end
  have hleap := daysBeforeMonth_end y
  have hyears := daysBeforeYear_eq y
  unfold dayNumber at h
  rw [daysBeforeYear_1970] at h
  split_ifs at hleap <;> omega

lemma IsTime.second_lt (h : IsTime y m d hour min sec) :
    -719528 * 86400 ≤ secondOf y m d hour min sec ∧
      secondOf y m d hour min sec < 4297101388 * 86400 := by
  obtain ⟨hdate, hpos, hlt, hhour, hmin, hsec⟩ := h
  have hjan : IsDate 11767034 1 1 := ⟨le_rfl, by decide, le_rfl, daysInMonth_pos 11767034 1⟩
  have hday := hdate.dayNumber_lt_of_year hjan hlt
  have hday₁ := hdate.day_pos
  rw [dayNumber_limit] at hday
  have hlow : -719528 ≤ dayNumber y m d := by
    unfold dayNumber
    rw [daysBeforeYear_1970]
    omega
  unfold secondOf
  omega

/-- Every second from some time before 1970 on has a date and a time of day. -/
lemma exists_isTime (hx : -700000 ≤ x / 86400) (hx' : x / 86400 < dayNumber 11767034 1 1) :
    ∃ y m d hour min sec, IsTime y m d hour min sec ∧ secondOf y m d hour min sec = x := by
  rcases hdate : dateOfNumber (x / 86400) with ⟨y, m, d⟩
  obtain ⟨h, hnumber⟩ := dateOfNumber_spec (by omega) hdate
  rw [← hnumber] at hx hx'
  have hyear : y < 11767034 := h.year_lt hx'
  refine ⟨y, m, d, (x % 86400).toNat / 3600, (x % 86400).toNat / 60 % 60, (x % 86400).toNat % 60,
    ⟨h, year_pos_of_dayNumber h hx, hyear, by omega, by omega, by omega⟩, ?_⟩
  unfold secondOf
  rw [hnumber]
  omega

/-! ### There and back -/

/-- A second is kept in an unsigned integer, also one before 1970. -/
lemma toInt_ofInt64 (h₀ : -2 ^ 63 ≤ x) (h : x < 2 ^ 63) : (UInt64.ofInt x).toInt64.toInt = x := by
  change (UInt64.ofInt x).toBitVec.toInt = x
  have hnat : (UInt64.ofInt x).toNat = (x % 2 ^ 64).toNat := by
    unfold UInt64.ofInt
    rw [UInt64.toNat_ofNat']
    omega
  rw [BitVec.toInt_eq_toNat_cond]
  change (if 2 * (UInt64.ofInt x).toNat < 2 ^ 64 then ((UInt64.ofInt x).toNat : ℤ)
    else (UInt64.ofInt x).toNat - (2 ^ 64 : ℕ)) = _
  rw [hnat]
  split_ifs <;> omega

/-- The epoch of a time. -/
lemma timeLocalFromTm_eq (behind : Mem UInt64) (h : IsTime y m d hour min sec) (off : Int32) (e₀ : UInt64)
    (off₀ : Int32) :
    timeLocalFromTm behind (some ⟨tmOfTime y m d hour min sec, off.toInt64⟩) (some e₀) (some off₀) =
      (0, some (UInt64.ofInt (secondOf y m d hour min sec - off.toInt)), some off) := by
  have hhour := h.hour_le
  have hmin := h.min_le
  have hsec := h.sec_le
  have hepoch : (tmMkepochLocal behind (tmOfTime y m d hour min sec) off.toInt).1 =
      UInt64.ofInt (secondOf y m d hour min sec - off.toInt) := by
    unfold tmOfTime secondOf
    rw [tmMkepochLocal_of_date behind h.date h.year_pos h.year_lt (by omega) (by omega) (by omega)]
  simp [timeLocalFromTm, hepoch]

/-- The time of an epoch. -/
lemma timeLocalToTm_eq (hgm : CalendarGmtime gmtimeR) (h : IsTime y m d hour min sec) (off : Int32)
    (t₀ : LocalTm) :
    timeLocalToTm gmtimeR (UInt64.ofInt (secondOf y m d hour min sec - off.toInt)) off (some t₀) =
      (0, some ⟨tmOfTime y m d hour min sec, off.toInt64⟩) := by
  obtain ⟨hlow, hhigh⟩ := h.second_lt
  have hsum : UInt64.ofInt (secondOf y m d hour min sec - off.toInt) + UInt64.ofInt off.toInt =
      UInt64.ofInt (secondOf y m d hour min sec) := by
    rw [← UInt64.ofInt_add, Int.sub_add_cancel]
  have hlocal := toInt_ofInt64 (x := secondOf y m d hour min sec) (by omega) (by omega)
  unfold timeLocalToTm
  simp only [hsum, hlocal, hgm y m d hour min sec h]

/-- **An epoch and an offset** are converted to a time, and the time to them; and a time, with its day of
the week, to an epoch and an offset, and these to the time. -/
theorem timeLocal_tm_roundTrip (behind : Mem UInt64) (hgm : CalendarGmtime gmtimeR) :
    (∀ (epochSec : UInt64) (off : Int32) (t₀ : LocalTm) (e₀ : UInt64) (off₀ : Int32),
      (epochSec.toNat + off.toInt) / 86400 < dayNumber 11767034 1 1 →
        ∃ t, timeLocalToTm gmtimeR epochSec off (some t₀) = (0, some t) ∧
          timeLocalFromTm behind (some t) (some e₀) (some off₀) = (0, some epochSec, some off)) ∧
    ∀ (y m d hour min sec : ℕ) (off : Int32) (t₀ : LocalTm) (e₀ : UInt64) (off₀ : Int32),
      IsTime y m d hour min sec →
        ∃ epochSec, timeLocalFromTm behind (some ⟨tmOfTime y m d hour min sec, off.toInt64⟩) (some e₀)
            (some off₀) = (0, some epochSec, some off) ∧
          timeLocalToTm gmtimeR epochSec off (some t₀) =
            (0, some ⟨tmOfTime y m d hour min sec, off.toInt64⟩) := by
  constructor
  · intro epochSec off t₀ e₀ off₀ hyear
    have hoff := off.le_toInt
    obtain ⟨y, m, d, hour, min, sec, htime, hsecond⟩ :=
      exists_isTime (x := epochSec.toNat + off.toInt) (by omega) hyear
    have hepoch : UInt64.ofInt (secondOf y m d hour min sec - off.toInt) = epochSec := by
      rw [hsecond, Int.add_sub_cancel, ofInt_natCast, UInt64.ofNat_toNat]
    refine ⟨⟨tmOfTime y m d hour min sec, off.toInt64⟩, ?_, ?_⟩
    · rw [← hepoch]
      exact timeLocalToTm_eq hgm htime off t₀
    · rw [timeLocalFromTm_eq behind htime off e₀ off₀, hepoch]
  · intro y m d hour min sec off t₀ e₀ off₀ htime
    exact ⟨_, timeLocalFromTm_eq behind htime off e₀ off₀, timeLocalToTm_eq hgm htime off t₀⟩

/-- A quarter of an hour before 1970, in a zone that is ahead. -/
theorem timeLocal_tm_roundTrip_1969 :
    ∃ epochSec, timeLocalFromTm (fun _ => 0) (some ⟨tmOfTime 1969 12 31 23 45 0, (3600 : Int32).toInt64⟩)
        (some 0) (some 0) = (0, some epochSec, some 3600) ∧
      timeLocalToTm gmtime epochSec 3600 (some ⟨⟨0, 0, 0, 0, 0, 0, 0⟩, 0⟩) =
        (0, some ⟨tmOfTime 1969 12 31 23 45 0, (3600 : Int32).toInt64⟩) :=
  (timeLocal_tm_roundTrip (fun _ => 0) calendarGmtime_gmtime).2 1969 12 31 23 45 0 3600
    ⟨⟨0, 0, 0, 0, 0, 0, 0⟩, 0⟩ 0 0
    ⟨⟨by decide, by decide, by decide, by decide⟩, by decide, by decide, by decide, by decide, by decide⟩

end Futils.Systime
