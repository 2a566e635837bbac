import Futils.Systime.Num

/-!
# What the parsers take

A parser takes a string if it can cut the fields out of it and each field is readable.  The lemmas say this
once for each parser, together with what is then in its variables.
-/

namespace Futils.Systime

open Futils.Lib

/-- The parser returns one of its errors. -/
def Rejected (ret : ℤ) : Prop := ret = -EINVAL ∨ ret = -ENOENT

lemma Rejected.neg {ret : ℤ} (h : Rejected ret) : ret < 0 := by
  rcases h with rfl | rfl <;> decide

variable {s : Mem UInt8} {n : ℕ}

/-! ### Dates -/

/-- The fields of a date are readable; in `named`, the month is the name of one. -/
structure DateCut.Readable (named : Bool) (cut : DateCut) : Prop where
  year : Systime.Readable cut.year
  mon : if named then cut.mon.take 3 ∈ monStr else Systime.Readable cut.mon
  mday : Systime.Readable cut.mday

def DateCut.monValue (named : Bool) (cut : DateCut) : ℤ :=
  if named then monStr.idxOf (cut.mon.take 3) + 1 else fieldValue cut.mon

/-- What the parsers write. -/
def DateCut.set (named : Bool) (cut : DateCut) (tm : Tm) : Tm :=
  { tm with year := fieldValue cut.year, mon := cut.monValue named, mday := fieldValue cut.mday }

lemma parseDate_of_cut {cut : DateCut} (h : cutDate s n = some cut) (hr : cut.Readable false)
    (tm : Tm) : parseDate s n tm = (0, cut.set false tm) := by
  have hmon : Readable cut.mon := hr.mon
  unfold parseDate
  simp only [h, parseNum_of_readable hr.year, parseNum_of_readable hmon,
    parseNum_of_readable hr.mday]
  rfl

/-- **`parse_date`** takes the readable cuts and no others. -/
lemma parseDate_cases (s : Mem UInt8) (n : ℕ) (tm : Tm) :
    (∃ cut, cutDate s n = some cut ∧ cut.Readable false) ∨
      Rejected (parseDate s n tm).1 ∧ ∀ cut, cutDate s n = some cut → ¬ cut.Readable false := by
  cases h : cutDate s n with
  | none =>
    refine Or.inr ⟨?_, fun cut hcut => by cases hcut⟩
    unfold parseDate
    rw [h]
    exact Or.inl rfl
  | some cut =>
    by_cases hr : cut.Readable false
    · exact Or.inl ⟨cut, rfl, hr⟩
    · refine Or.inr ⟨?_, ?_⟩
      · unfold parseDate
        simp only [h]
        by_cases hyear : Readable cut.year
        · by_cases hmon : Readable cut.mon
          · have hmday : ¬ Readable cut.mday := fun hmday => hr ⟨hyear, hmon, hmday⟩
            rw [parseNum_of_readable hyear, parseNum_of_readable hmon]
            exact Or.inl (parseNum_of_not_readable hmday)
          · rw [parseNum_of_readable hyear, parseNum_of_not_readable hmon]
            exact Or.inl rfl
        · rw [parseNum_of_not_readable hyear]
          exact Or.inl rfl
      · rintro cut' hcut'
        rwa [← Option.some_inj.mp hcut']

lemma parseDateRfc1123_of_cut {cut : DateCut} {offset : ℕ}
    (h : cutDateRfc1123 s = some (cut, offset)) (hr : cut.Readable true) (tm : Tm) :
    parseDateRfc1123 s tm = ((offset : ℤ), cut.set true tm) := by
  have hmon : cut.mon.take 3 ∈ monStr := hr.mon
  unfold parseDateRfc1123 parseMon
  simp only [h, parseNum_of_readable hr.year, parseNum_of_readable hr.mday, if_pos hmon]
  rfl

/-- **`parse_date_rfc1123`** does, too. -/
lemma parseDateRfc1123_cases (s : Mem UInt8) (tm : Tm) :
    (∃ r, cutDateRfc1123 s = some r ∧ r.1.Readable true) ∨
      Rejected (parseDateRfc1123 s tm).1 ∧
        ∀ r, cutDateRfc1123 s = some r → ¬ r.1.Readable true := by
  cases h : cutDateRfc1123 s with
  | none =>
    refine Or.inr ⟨?_, fun r hr => by cases hr⟩
    unfold parseDateRfc1123
    rw [h]
    exact Or.inl rfl
  | some r =>
    obtain ⟨cut, offset⟩ := r
    by_cases hr : cut.Readable true
    · exact Or.inl ⟨_, rfl, hr⟩
    · refine Or.inr ⟨?_, ?_⟩
      · unfold parseDateRfc1123 parseMon
        simp only [h]
        by_cases hyear : Readable cut.year
        · by_cases hmon : cut.mon.take 3 ∈ monStr
          · have hmday : ¬ Readable cut.mday := fun hmday => hr ⟨hyear, hmon, hmday⟩
            rw [parseNum_of_readable hyear, if_pos hmon, parseNum_of_not_readable hmday]
            exact Or.inl rfl
          · rw [parseNum_of_readable hyear, if_neg hmon]
            exact Or.inr rfl
        · rw [parseNum_of_not_readable hyear]
          exact Or.inl rfl
      · rintro r' hr'
        rwa [← Option.some_inj.mp hr']

/-- `parse_date` writes to the date only, -/
lemma parseDate_frame (s : Mem UInt8) (n : ℕ) (tm : Tm) :
    (parseDate s n tm).2.hour = tm.hour ∧ (parseDate s n tm).2.min = tm.min ∧
      (parseDate s n tm).2.sec = tm.sec := by
  unfold parseDate
  dsimp only
  split
  · exact ⟨rfl, rfl, rfl⟩
  · split_ifs <;> exact ⟨rfl, rfl, rfl⟩

/-- and what it returns does not depend on what was there before. -/
lemma parseDate_ret (s : Mem UInt8) (n : ℕ) (tm tm' : Tm) :
    (parseDate s n tm).1 = (parseDate s n tm').1 := by
  unfold parseDate
  dsimp only
  split
  · rfl
  · split_ifs <;> rfl

/-! ### Times -/

structure TimeCut where
  clock : ClockCut
  zone : ZoneCut

/-- The fields of a time. -/
def cutTime (r : Rest) : Option TimeCut :=
  match cutClock (r.skip (ch 'T')) with
  | none => none
  | some (clock, rest) => (cutZone (rest.skip (ch ' '))).map fun zone => ⟨clock, zone⟩

structure TimeCut.Readable (cut : TimeCut) : Prop where
  hour : Systime.Readable cut.clock.hour
  min : Systime.Readable cut.clock.min
  sec : Systime.Readable cut.clock.sec
  zoneHour : Systime.Readable cut.zone.hour
  zoneMin : Systime.Readable cut.zone.min

/-- What is written to `*gmtoff`. -/
def ZoneCut.gmtoff (cut : ZoneCut) : ℤ :=
  (fieldValue cut.hour * 60 + fieldValue cut.min) * 60 * cut.sign

def ClockCut.set (cut : ClockCut) (tm : Tm) : Tm :=
  { tm with hour := fieldValue cut.hour, min := fieldValue cut.min, sec := fieldValue cut.sec }

lemma parseTime_of_cut {cut : TimeCut} (h : cutTime (s, n) = some cut) (hr : cut.Readable) (tm : Tm)
    (gmtoff : ℤ) : parseTime s n tm gmtoff = (0, cut.clock.set tm, cut.zone.gmtoff) := by
  unfold cutTime at h
  unfold parseTime
  cases hclock : cutClock (Rest.skip (ch 'T') (s, n)) with
  | none => rw [hclock] at h; cases h
  | some r =>
    rw [hclock] at h
    obtain ⟨zone, hzone, rfl⟩ := Option.map_eq_some_iff.mp h
    simp only [hzone, parseNum_of_readable hr.hour, parseNum_of_readable hr.min,
      parseNum_of_readable hr.sec, parseNum_of_readable hr.zoneHour,
      parseNum_of_readable hr.zoneMin]
    rfl

/-- **`parse_time`** takes the readable cuts and no others. -/
lemma parseTime_cases (s : Mem UInt8) (n : ℕ) (tm : Tm) (gmtoff : ℤ) :
    (∃ cut, cutTime (s, n) = some cut ∧ cut.Readable) ∨
      Rejected (parseTime s n tm gmtoff).1 ∧ ∀ cut, cutTime (s, n) = some cut → ¬ cut.Readable := by
  by_cases hcut : ∃ cut, cutTime (s, n) = some cut ∧ cut.Readable
  · exact Or.inl hcut
  refine Or.inr ⟨?_, fun cut h hr => hcut ⟨cut, h, hr⟩⟩
  unfold cutTime at hcut
  unfold parseTime
  cases hclock : cutClock (Rest.skip (ch 'T') (s, n)) with
  | none => exact Or.inl rfl
  | some r =>
    simp only [hclock, Option.map_eq_some_iff] at hcut ⊢
    by_cases hhour : Readable r.1.hour
    swap
    · rw [parseNum_of_not_readable hhour]
      exact Or.inl rfl
    by_cases hmin : Readable r.1.min
    swap
    · rw [parseNum_of_readable hhour, parseNum_of_not_readable hmin]
      exact Or.inl rfl
    by_cases hsec : Readable r.1.sec
    swap
    · rw [parseNum_of_readable hhour, parseNum_of_readable hmin, parseNum_of_not_readable hsec]
      exact Or.inl rfl
    rw [parseNum_of_readable hhour, parseNum_of_readable hmin, parseNum_of_readable hsec]
    cases hzone : cutZone (r.2.skip (ch ' ')) with
    | none => exact Or.inl rfl
    | some zone =>
      by_cases hzoneHour : Readable zone.hour
      swap
      · simp only [parseNum_of_not_readable hzoneHour]
        exact Or.inl rfl
      have hzoneMin : ¬ Readable zone.min := by
        intro hzoneMin
        exact hcut ⟨⟨r.1, zone⟩, ⟨zone, hzone, rfl⟩, hhour, hmin, hsec, hzoneHour, hzoneMin⟩
      simp only [parseNum_of_readable hzoneHour, parseNum_of_not_readable hzoneMin]
      exact Or.inl rfl

/-- `parse_time` writes to the time and the offset only. -/
lemma parseTime_frame (s : Mem UInt8) (n : ℕ) (tm : Tm) (gmtoff : ℤ) :
    (parseTime s n tm gmtoff).2.1.year = tm.year ∧ (parseTime s n tm gmtoff).2.1.mon = tm.mon ∧
      (parseTime s n tm gmtoff).2.1.mday = tm.mday := by
  unfold parseTime
  dsimp only
  split
  · exact ⟨rfl, rfl, rfl⟩
  · split_ifs
    · exact ⟨rfl, rfl, rfl⟩
    · exact ⟨rfl, rfl, rfl⟩
    · exact ⟨rfl, rfl, rfl⟩
    · split
      · exact ⟨rfl, rfl, rfl⟩
      · split_ifs <;> exact ⟨rfl, rfl, rfl⟩

lemma parseTime_ret (s : Mem UInt8) (n : ℕ) (tm tm' : Tm) (gmtoff gmtoff' : ℤ) :
    (parseTime s n tm gmtoff).1 = (parseTime s n tm' gmtoff').1 := by
  unfold parseTime
  dsimp only
  split
  · rfl
  · split_ifs
    · rfl
    · rfl
    · rfl
    · split
      · rfl
      · split_ifs <;> rfl

/-! ### Dates and times -/

/-- The characters of an RFC 1123 date at which `parse_date_rfc1123` does not look. -/
def gapsRfc1123 (s : Mem UInt8) : List UInt8 :=
  if isdigit (s 5) then [s 4, s (cutMday s 5).2, s ((cutMday s 5).2 + 4)]
  else [s 4, s 8, s (cutMday s 9).2]

/-- The date of a date and a time, and what comes after it. -/
structure LeadingDate where
  named : Bool
  date : DateCut
  gaps : List UInt8
  rest : Rest

def cutDateTimeDate (s : Mem UInt8) (n : ℕ) : Option LeadingDate :=
  if n ≥ 16 ∧ parseWday s ≠ -ENOENT then
    (cutDateRfc1123 s).map fun r => ⟨true, r.1, gapsRfc1123 s, (s.shift r.2, n - r.2)⟩
  else if n ≥ 10 ∧ (s 10 = ch 'T' ∨ s 10 = ch ' ' ∨ s 10 = 0) then
    (cutDate s 10).map fun cut => ⟨false, cut, [], (s.shift 10, n - 10)⟩
  else if n ≥ 8 ∧ (s 8 = ch 'T' ∨ s 8 = ch ' ' ∨ s 8 = 0) then
    (cutDate s 8).map fun cut => ⟨false, cut, [], (s.shift 8, n - 8)⟩
  else none

lemma parseDateTimeDate_of_cut {c : LeadingDate} (h : cutDateTimeDate s n = some c)
    (hr : c.date.Readable c.named) (tm : Tm) :
    parseDateTimeDate s n tm = (0, c.date.set c.named tm, c.rest) := by
  unfold cutDateTimeDate at h
  unfold parseDateTimeDate
  split_ifs at h ⊢ with hrfc hlong hshort
  · obtain ⟨⟨cut, offset⟩, hcut, rfl⟩ := Option.map_eq_some_iff.mp h
    rw [parseDateRfc1123_of_cut hcut hr]
    rfl
  · obtain ⟨cut, hcut, rfl⟩ := Option.map_eq_some_iff.mp h
    rw [parseDate_of_cut hcut hr]
    rfl
  · obtain ⟨cut, hcut, rfl⟩ := Option.map_eq_some_iff.mp h
    rw [parseDate_of_cut hcut hr]
    rfl

lemma parseDate_leading (s : Mem UInt8) (k : ℕ) (tm : Tm) (gaps : List UInt8) (rest : Rest) :
    (∃ c, ((cutDate s k).map fun cut => (⟨false, cut, gaps, rest⟩ : LeadingDate)) = some c ∧
        c.date.Readable c.named) ∨
      Rejected (parseDate s k tm).1 ∧
        ∀ c, ((cutDate s k).map fun cut => (⟨false, cut, gaps, rest⟩ : LeadingDate)) = some c →
          ¬ c.date.Readable c.named := by
  rcases parseDate_cases s k tm with ⟨cut, hcut, hread⟩ | ⟨hrej, hno⟩
  · exact Or.inl ⟨_, by rw [hcut]; rfl, hread⟩
  · refine Or.inr ⟨hrej, ?_⟩
    rintro c hc
    obtain ⟨cut, hcut, rfl⟩ := Option.map_eq_some_iff.mp hc
    exact hno cut hcut

lemma parseDateTimeDate_cases (s : Mem UInt8) (n : ℕ) (tm : Tm) :
    (∃ c, cutDateTimeDate s n = some c ∧ c.date.Readable c.named) ∨
      Rejected (parseDateTimeDate s n tm).1 ∧
        ∀ c, cutDateTimeDate s n = some c → ¬ c.date.Readable c.named := by
  unfold cutDateTimeDate parseDateTimeDate
  split_ifs with hrfc hlong hshort
  · rcases parseDateRfc1123_cases s tm with ⟨r, hr, hread⟩ | ⟨hrej, hno⟩
    · exact Or.inl ⟨_, by rw [hr]; rfl, hread⟩
    · refine Or.inr ⟨?_, ?_⟩
      · rw [if_pos hrej.neg]
        exact hrej
      · rintro c hc
        obtain ⟨r, hr, rfl⟩ := Option.map_eq_some_iff.mp hc
        exact hno r hr
  · refine (parseDate_leading s 10 tm [] _).imp_right fun h => ⟨?_, h.2⟩
    rw [if_pos h.1.neg]
    exact h.1
  · refine (parseDate_leading s 8 tm [] _).imp_right fun h => ⟨?_, h.2⟩
    rw [if_pos h.1.neg]
    exact h.1
  · exact Or.inr ⟨Or.inl rfl, fun c hc => by cases hc⟩

/-- The string is cut into a date and a time, all of whose fields are readable. -/
structure Taken (s : Mem UInt8) (n : ℕ) (c : LeadingDate) (cut : TimeCut) : Prop where
  date : cutDateTimeDate s n = some c
  time : cutTime (c.rest.skip (ch ' ')) = some cut
  dateReadable : c.date.Readable c.named
  timeReadable : cut.Readable

lemma parseDateTime_of_taken {c : LeadingDate} {cut : TimeCut} (h : Taken s n c cut) (tm : Tm)
    (gmtoff : ℤ) :
    parseDateTime s n tm gmtoff =
      (0, cut.clock.set (c.date.set c.named tm), cut.zone.gmtoff) := by
  unfold parseDateTime
  rw [parseDateTimeDate_of_cut h.date h.dateReadable]
  exact parseTime_of_cut h.time h.timeReadable _ _

/-- **`parse_date_time`** takes the strings that are cut into readable fields and no others. -/
theorem parseDateTime_cases (s : Mem UInt8) (n : ℕ) (tm : Tm) (gmtoff : ℤ) :
    (∃ c cut, Taken s n c cut) ∨
      Rejected (parseDateTime s n tm gmtoff).1 ∧ ∀ c cut, ¬ Taken s n c cut := by
  rcases parseDateTimeDate_cases s n tm with ⟨c, hc, hread⟩ | ⟨hrej, hno⟩
  · rcases parseTime_cases (c.rest.skip (ch ' ')).1 (c.rest.skip (ch ' ')).2
      (c.date.set c.named tm) gmtoff with ⟨cut, hcut, hcutread⟩ | ⟨hrej, hno⟩
    · exact Or.inl ⟨c, cut, hc, hcut, hread, hcutread⟩
    · refine Or.inr ⟨?_, ?_⟩
      · unfold parseDateTime
        rw [parseDateTimeDate_of_cut hc hread]
        exact hrej
      · rintro c' cut ⟨hc', hcut, -, hcutread⟩
        rw [hc, Option.some_inj] at hc'
        exact hno cut (hc' ▸ hcut) hcutread
  · refine Or.inr ⟨?_, fun c cut h => hno c h.date h.dateReadable⟩
    unfold parseDateTime
    rw [if_pos hrej.neg]
    exact hrej

end Futils.Systime
