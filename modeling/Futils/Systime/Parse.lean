import Futils.Systime.Epoch
import Futils.Systime.Local
import Futils.Systime.Spelled

/-!
# Parsing the documented texts

Every spelling of a local time is parsed to its epoch and its offset.
-/

namespace Futils.Systime

open Futils.Lib

variable {t : Date} {named : Bool} {cut : DateCut}

/-! ### Values -/

lemma DateCut.Spells.mday_eq (h : cut.Spells named t) : parseNum cut.mday = (0, (t.mday : ℤ)) := by
  have hday := t.isDate.day_le_31
  rcases h.mday with hmday | ⟨hlt, hmday⟩
  · rw [hmday]
    exact parseNum_two (by omega)
  · rw [hmday]
    exact parseNum_dec hlt

lemma DateCut.Spells.readable (h : cut.Spells named t) : cut.Readable named := by
  have hmonth := t.isDate.month_le
  have hname := (monName_spec t.isDate.month_pos hmonth).1
  refine ⟨?_, ?_, readable_iff.mpr (congrArg Prod.fst h.mday_eq)⟩
  · rw [h.year]
    exact readable_iff.mpr (congrArg Prod.fst (parseNum_dec (k := 3) t.year_lt))
  · rw [h.mon]
    cases named with
    | true =>
      rw [if_pos rfl, if_pos rfl, List.take_of_length_le (length_of_mem_monStr hname).le]
      exact hname
    | false => exact readable_two (by omega)

/-- The numbers that are read are those that were written. -/
lemma DateCut.Spells.values (h : cut.Spells named t) :
    fieldValue cut.year = t.year ∧ cut.monValue named = t.mon ∧ fieldValue cut.mday = t.mday := by
  have hmonth := t.isDate.month_le
  obtain ⟨hmem, hindex⟩ := monName_spec t.isDate.month_pos hmonth
  refine ⟨?_, ?_, congrArg Prod.snd h.mday_eq⟩
  · rw [h.year]
    exact congrArg Prod.snd (parseNum_dec t.year_lt)
  · unfold DateCut.monValue
    rw [h.mon]
    cases named with
    | true =>
      rw [if_pos rfl, if_pos rfl, List.take_of_length_le (length_of_mem_monStr hmem).le]
      omega
    | false => exact fieldValue_two (by omega)

lemma DateCut.Spells.set_eq (h : cut.Spells named t) (tm : Tm) :
    cut.set named tm = { tm with year := t.year, mon := t.mon, mday := t.mday } := by
  obtain ⟨hyear, hmon, hmday⟩ := h.values
  unfold DateCut.set
  rw [hyear, hmon, hmday]

lemma TimeCut.Spells.readable {cut : TimeCut} {t : Clock} {o : Offset} (h : cut.Spells t o) :
    cut.Readable := by
  have hhour := t.hour_le
  have hmin := t.min_le
  have hsec := t.sec_le
  have hzoneHour := o.hour_le
  have hzoneMin := o.min_le
  constructor
  · rw [h.clock]
    exact readable_two (by omega)
  · rw [h.clock]
    exact readable_two (by omega)
  · rw [h.clock]
    exact readable_two (by omega)
  · rw [h.zone.hour]
    exact readable_two (by omega)
  · rw [h.zone.min]
    exact readable_two (by omega)

lemma TimeCut.Spells.values {cut : TimeCut} {t : Clock} {o : Offset} (h : cut.Spells t o) :
    fieldValue cut.clock.hour = t.hour ∧ fieldValue cut.clock.min = t.min ∧
      fieldValue cut.clock.sec = t.sec := by
  have hhour := t.hour_le
  have hmin := t.min_le
  have hsec := t.sec_le
  rw [h.clock]
  exact ⟨fieldValue_two (by omega), fieldValue_two (by omega),
    fieldValue_two (by omega)⟩

lemma TimeCut.Spells.set_eq {cut : TimeCut} {t : Clock} {o : Offset} (h : cut.Spells t o) (tm : Tm) :
    cut.clock.set tm = { tm with hour := t.hour, min := t.min, sec := t.sec } := by
  obtain ⟨hhour, hmin, hsec⟩ := h.values
  unfold ClockCut.set
  rw [hhour, hmin, hsec]

/-! ### Spellings -/

/-- **A spelling** is parsed to the numbers that it was written from. -/
theorem parseDateTime_of_text {s : Mem UInt8} {n : ℕ} {p : Spelling} {t : LocalTime}
    (hfits : p.Fits t) (h : s.load 0 n = p.text t) (tm : Tm) (gmtoff : ℤ) :
    parseDateTime s n tm gmtoff =
      (0, ⟨t.clock.sec, t.clock.min, t.clock.hour, t.date.mday, t.date.mon, t.date.year, tm.wday⟩,
        t.offset.sec) := by
  obtain ⟨d, cut, hdate, htime, -, -, -, hspells, hcut⟩ := cut_of_text (r := (s, n)) hfits h
  rw [parseDateTime_of_taken ⟨hdate, htime, hspells.readable, hcut.readable⟩, hspells.set_eq,
    hcut.set_eq, hcut.zone.gmtoff]

/-- **Every spelling of a local time** is parsed to the instant that it stands for. -/
theorem timeLocalParse_spelled (behind : Mem UInt64) (tm : Tm) (gmtoff : ℤ) (t : LocalTime)
    (p : Spelling) (s : CString) (hyear : 1 ≤ t.date.year) (hfits : p.Fits t)
    (h : s.text = p.text t) :
    timeLocalParse behind tm gmtoff s =
      (0, some ⟨UInt64.ofInt t.epoch, t.offset.sec, marchMonth t.date.mon⟩) := by
  have hhour : t.clock.hour < 2 ^ 32 := t.clock.hour_le.trans_lt (by decide)
  have hmin : t.clock.min < 2 ^ 32 := t.clock.min_le.trans_lt (by decide)
  have hsec : t.clock.sec < 2 ^ 32 := t.clock.sec_le.trans_lt (by decide)
  unfold timeLocalParse
  rw [parseDateTime_of_text hfits h]
  unfold localOf LocalTime.epoch instant
  simp only [tmMkepochLocal_eq behind t.date.isDate hyear t.date.year_lt hhour hmin hsec]
  rfl

/-- The last second of a leap day. -/
def leapDay : LocalTime where
  date := ⟨2000, 2, 29, by decide, by decide, by decide, by decide, by decide⟩
  clock := ⟨23, 59, 59, by decide, by decide, by decide⟩
  offset := ⟨true, 9, 30, by decide, by decide⟩

lemma leapDay_epoch : leapDay.epoch = 951902999 := by
  have hday : dayNumber 2000 2 29 = 11016 := by
    have hyear := daysBeforeYear_eq 2000
    have hmonth : daysBeforeMonth 2000 2 = 31 := rfl
    unfold dayNumber
    rw [daysBeforeYear_1970, hmonth]
    omega
  have hoffset : leapDay.offset.sec = -34200 := rfl
  unfold LocalTime.epoch instant
  rw [hoffset]
  unfold leapDay
  dsimp only
  rw [hday]
  rfl

/-- `2000-02-29 23:59:59 -0930` -/
theorem timeLocalParse_spelled_leapDay :
    timeLocalParse (fun _ => 0) timeCtxInit.tm 0
        (CString.stored (fun _ => 0) (chars ['2', '0', '0', '0', '-', '0', '2', '-', '2', '9', ' ', '2', '3', ':',
          '5', '9', ':', '5', '9', ' ', '-', '0', '9', '3', '0']) (by decide)) =
      (0, some ⟨951902999, -34200, 12⟩) := by
  have h := timeLocalParse_spelled (fun _ => 0) timeCtxInit.tm 0 leapDay
    ⟨.iso8601 .long, [ch ' '], ⟨.long, true, .offset .short⟩⟩ _ (by decide)
    ⟨trivial, Or.inr rfl, trivial⟩ ((CString.text_stored (fun _ => 0) (chars ['2', '0', '0', '0', '-', '0', '2',
      '-', '2', '9', ' ', '2', '3', ':', '5', '9', ':', '5', '9', ' ', '-', '0', '9', '3', '0'])
      (by decide)).trans (by decide))
  rwa [leapDay_epoch] at h

end Futils.Systime
