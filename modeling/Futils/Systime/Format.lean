import Futils.Systime.Parse
import Mathlib.Data.Int.Basic

/-!
# Formatting a local time and parsing it

The three formats are spellings, so what is printed is parsed to the local time that it was printed from.
-/

namespace Futils.Systime

open Futils.Lib

/-! ### The calendar of the system -/

/-- The broken-down time of a date and a time of day; 1970-01-01 was a Thursday. -/
def tmOf (d : Date) (c : Clock) : Tm where
  sec := c.sec
  min := c.min
  hour := c.hour
  mday := d.mday
  mon := d.mon - 1
  year := d.year - 1900
  wday := (dayNumber d.year d.mon d.mday + 4) % 7

/-- `gmtime_r` converts to the Gregorian calendar. -/
def ExactGmtime (gmtimeR : ℤ → Option Tm) : Prop :=
  ∀ d c, c.sec ≤ 59 → gmtimeR (instant d c) = some (tmOf d c)

/-- Every second up to the end of year 9999 has a date and a time of day. -/
lemma exists_instant {x : ℤ} (hx : -719528 ≤ x / 86400) (hx' : x / 86400 < dayNumber 10000 1 1) :
    ∃ d c, c.sec ≤ 59 ∧ instant d c = x := by
  rcases hdate : dateOfNumber (x / 86400) with ⟨y, m, d⟩
  obtain ⟨h, hnumber⟩ := dateOfNumber_spec hx hdate
  have hlt : dayNumber y m d < dayNumber 10000 1 1 := by
    rw [hnumber]
    exact hx'
  have hyear : y < 10000 := h.year_lt hlt
  refine ⟨⟨y, m, d, hyear, h⟩, ⟨(x % 86400).toNat / 3600, (x % 86400).toNat / 60 % 60,
    (x % 86400).toNat % 60, by omega, by omega, by omega⟩, ?_, ?_⟩
  · dsimp only
    omega
  · unfold instant
    dsimp only
    rw [hnumber]
    omega

/-! ### Printing -/

lemma printU_eq {w k n : ℕ} (hw : w = k + 1 ∨ w ≤ k + 1 ∧ 10 ^ k ≤ n) (h : n < 10 ^ (k + 1))
    (hlt : n < 2 ^ 32) : printU w n = dec (k + 1) n := by
  have hnat : (UInt32.ofInt n).toNat = n := toNat_ofInt (by omega) (by omega)
  have hlen : w - (chars (Nat.toDigits 10 n)).length = k + 1 - (chars (Nat.toDigits 10 n)).length := by
    rcases hw with rfl | ⟨hle, hn⟩
    · rfl
    · have hdigits : k + 1 ≤ (Nat.toDigits 10 n).length := by
        by_contra hlt
        have hpos : 0 < (Nat.toDigits 10 n).length := Nat.length_toDigits_pos
        have hle : (Nat.toDigits 10 n).length ≤ k := by omega
        have := (Nat.length_toDigits_le_iff (by omega) (hpos.trans_le hle)).mp hle
        omega
      have hlength : (chars (Nat.toDigits 10 n)).length = (Nat.toDigits 10 n).length :=
        List.length_map _
      omega
  unfold printU
  dsimp only
  rw [hnat, hlen]
  exact replicate_toDigits (Nat.succ_pos k) h

/-! ### Formats -/

/-- The offset of a number of seconds. -/
def Offset.ofSec (off : ℤ) (h : off.natAbs < 360000) : Offset where
  west := decide (off < 0)
  hour := off.natAbs / 3600
  min := off.natAbs / 60 % 60
  hour_le := by omega
  min_le := by omega

lemma Offset.sec_ofSec {off : ℤ} (h : off.natAbs < 360000) (hdvd : 60 ∣ off) :
    (ofSec off h).sec = off := by
  unfold sec sign ofSec
  dsimp only
  by_cases hneg : off < 0
  · rw [decide_eq_true hneg, if_pos rfl]
    omega
  · rw [decide_eq_false hneg, if_neg Bool.false_ne_true]
    omega

/-- The spelling that `time_local_format` chooses. -/
def TimeFmt.spelling (fmt : TimeFmt) (d : Date) (off : ℤ) : Spelling :=
  match fmt with
  | .iso8601Short => ⟨.iso8601 .short, [ch 'T'], ⟨.short, false, .offset .short⟩⟩
  | .iso8601Long => ⟨.iso8601 .long, [ch 'T'], ⟨.long, false, .offset .long⟩⟩
  | .rfc1123 =>
    ⟨.rfc1123 (wdayStr.getD ((dayNumber d.year d.mon d.mday + 4) % 7).toNat []) true
      (if d.mday < 10 then 1 else 2), [ch ' '],
      ⟨.long, true, if off = 0 then .gmt else .offset .short⟩⟩

variable {d : Date} {c : Clock} {off : ℤ}

lemma TimeFmt.spelling_fits (fmt : TimeFmt) (d : Date) (c : Clock) (h : off.natAbs < 360000) :
    (fmt.spelling d off).Fits ⟨d, c, Offset.ofSec off h⟩ := by
  cases fmt with
  | iso8601Short => exact ⟨trivial, Or.inl rfl, trivial⟩
  | iso8601Long => exact ⟨trivial, Or.inl rfl, trivial⟩
  | rfc1123 =>
    refine ⟨⟨?_, ?_⟩, Or.inr (Or.inl rfl), ?_⟩
    · have hall : ∀ i < 7, wdayStr.getD i [] ∈ wdayStr := by decide
      exact hall _ (by omega)
    · dsimp only
      split_ifs with hday
      · exact Or.inl ⟨rfl, hday⟩
      · exact Or.inr rfl
    · by_cases hoff : off = 0
      · subst hoff
        exact ⟨rfl, rfl⟩
      · unfold spelling
        dsimp only
        rw [if_neg hoff]
        trivial

lemma printU_two {n : ℕ} (h : n < 100) : printU 2 n = dec 2 n :=
  printU_eq (Or.inl rfl) h (by omega)

/-- The fields of the offset are printed with two digits each. -/
lemma printU_offset (h : off.natAbs < 360000) :
    printU 2 (((if off < 0 then -1 else 1) * off).tdiv (60 * 60)) = dec 2 (Offset.ofSec off h).hour ∧
      printU 2 ((((if off < 0 then -1 else 1) * off).tdiv 60).tmod 60) =
        dec 2 (Offset.ofSec off h).min := by
  have habs : (if off < 0 then -1 else 1) * off = (off.natAbs : ℤ) := by
    split_ifs <;> omega
  have hhour : (off.natAbs : ℤ).tdiv (60 * 60) = (off.natAbs / 3600 : ℕ) := (Int.ofNat_tdiv _ _).symm
  have hmin : ((off.natAbs : ℤ).tdiv 60).tmod 60 = (off.natAbs / 60 % 60 : ℕ) := by
    rw [Int.ofNat_tmod, Int.ofNat_tdiv]
    rfl
  rw [habs, hhour, hmin]
  exact ⟨printU_two (by omega), printU_two (by omega)⟩

lemma sign_eq (h : off.natAbs < 360000) :
    (if (if off < 0 then (-1 : ℤ) else 1) < 0 then ch '-' else ch '+') =
      if (Offset.ofSec off h).west then ch '-' else ch '+' := by
  unfold Offset.ofSec
  dsimp only
  by_cases hneg : off < 0
  · rw [if_pos hneg, decide_eq_true hneg]
    rfl
  · rw [if_neg hneg, decide_eq_false hneg]
    rfl

/-- **What is printed** is a spelling of the local time. -/
theorem formatText_eq (fmt : TimeFmt) (h : off.natAbs < 360000) (hyear : 1000 ≤ d.year) :
    formatText fmt (tmOf d c) off =
      (fmt.spelling d off).text ⟨d, c, Offset.ofSec off h⟩ := by
  have hmonth := d.isDate.month_le
  have hday := d.isDate.day_le_31
  have hhour := c.hour_le
  have hmin := c.min_le
  have hsec := c.sec_le
  have hyear' := d.year_lt
  obtain ⟨hoffHour, hoffMin⟩ := printU_offset h
  have hy : (tmOf d c).year + 1900 = d.year := Int.sub_add_cancel _ _
  have hm : (tmOf d c).mon + 1 = d.mon := Int.sub_add_cancel _ _
  have hmon : printU 2 d.mon = dec 2 d.mon := printU_two (by omega)
  have hclock : printU 2 (tmOf d c).hour = dec 2 c.hour ∧ printU 2 (tmOf d c).min = dec 2 c.min ∧
      printU 2 (tmOf d c).sec = dec 2 c.sec :=
    ⟨printU_two (by omega), printU_two (by omega), printU_two (by omega)⟩
  obtain ⟨hhour, hmin, hsec⟩ := hclock
  unfold formatText Spelling.text TimeFmt.spelling
  simp only [sign_eq h, hoffHour, hoffMin, hy, hm, hhour, hmin, hsec]
  cases fmt with
  | iso8601Short | iso8601Long =>
    have hmday : printU 2 (tmOf d c).mday = dec 2 d.mday := printU_two (by omega)
    have hyear : printU 4 d.year = dec 4 d.year :=
      printU_eq (Or.inl rfl) d.year_lt (by omega)
    simp only [hmday, hyear, hmon]
    simp [DateForm.text, Form.dateText, TimeForm.text, Form.clockText, ZoneForm.text]
  | rfc1123 =>
    have hmday : printU 1 (tmOf d c).mday = dec (if d.mday < 10 then 1 else 2) d.mday := by
      split_ifs with hone
      · exact printU_eq (Or.inl rfl) hone (by omega)
      · exact printU_eq (Or.inr ⟨by omega, by omega⟩) (by omega) (by omega)
    have hyear : printU 1 d.year = dec 4 d.year :=
      printU_eq (Or.inr ⟨by omega, hyear⟩) d.year_lt (by omega)
    have hname : monStr.getD (tmOf d c).mon.toNat [] = monName d.mon := by
      unfold monName
      congr 1
      exact Int.toNat_sub _ 1
    simp only [hmday, hyear, hname]
    by_cases hoff : off = 0
    · simp [DateForm.text, TimeForm.text, Form.clockText, ZoneForm.text, hoff, tmOf]
    · simp [DateForm.text, TimeForm.text, Form.clockText, ZoneForm.text, hoff, tmOf]

/-! ### The string -/

lemma zero_not_mem_dec (k n : ℕ) : 0 ∉ dec k n :=
  fun h => ne_of_isDigit (isDigit_of_mem_dec h) rfl rfl

lemma zero_not_mem_append {l l' : List UInt8} (h : 0 ∉ l) (h' : 0 ∉ l') : 0 ∉ l ++ l' := by
  rw [List.mem_append, not_or]
  exact ⟨h, h'⟩

lemma Form.zero_not_mem_dateText (form : Form) (t : Date) : 0 ∉ form.dateText t := by
  have hdash : (0 : UInt8) ∉ [ch '-'] := by decide
  cases form with
  | short =>
    apply zero_not_mem_append
    · exact zero_not_mem_append (zero_not_mem_dec _ _) (zero_not_mem_dec _ _)
    · exact zero_not_mem_dec _ _
  | long =>
    apply zero_not_mem_append
    · apply zero_not_mem_append
      · apply zero_not_mem_append
        · exact zero_not_mem_append (zero_not_mem_dec _ _) hdash
        · exact zero_not_mem_dec _ _
      · exact hdash
    · exact zero_not_mem_dec _ _

lemma DateForm.zero_not_mem {f : DateForm} {t : Date} (h : f.Fits t) : 0 ∉ f.text t := by
  cases f with
  | iso8601 form => exact form.zero_not_mem_dateText t
  | rfc1123 wday dayFirst width =>
    have hspace : (0 : UInt8) ∉ [ch ' '] := by decide
    have hcomma : (0 : UInt8) ∉ [ch ',', ch ' '] := by decide
    have hnames : ∀ l ∈ wdayStr ++ monStr, 0 ∉ l := by decide
    have hwday := hnames wday (List.mem_append_left _ h.1)
    have hmon := hnames (monName t.mon)
      (List.mem_append_right _ (monName_spec t.isDate.month_pos t.isDate.month_le).1)
    have hmday := zero_not_mem_dec width t.mday
    have hmiddle : 0 ∉ if dayFirst then dec width t.mday ++ [ch ' '] ++ monName t.mon
        else monName t.mon ++ [ch ' '] ++ dec width t.mday := by
      split_ifs
      · exact zero_not_mem_append (zero_not_mem_append hmday hspace) hmon
      · exact zero_not_mem_append (zero_not_mem_append hmon hspace) hmday
    apply zero_not_mem_append
    · apply zero_not_mem_append
      · exact zero_not_mem_append (zero_not_mem_append hwday hcomma) hmiddle
      · exact hspace
    · exact zero_not_mem_dec _ _

lemma Form.zero_not_mem_clockText (form : Form) (t : Clock) : 0 ∉ form.clockText t := by
  have hcolon : (0 : UInt8) ∉ [ch ':'] := by decide
  cases form with
  | short =>
    apply zero_not_mem_append
    · exact zero_not_mem_append (zero_not_mem_dec _ _) (zero_not_mem_dec _ _)
    · exact zero_not_mem_dec _ _
  | long =>
    apply zero_not_mem_append
    · apply zero_not_mem_append
      · apply zero_not_mem_append
        · exact zero_not_mem_append (zero_not_mem_dec _ _) hcolon
        · exact zero_not_mem_dec _ _
      · exact hcolon
    · exact zero_not_mem_dec _ _

lemma ZoneForm.zero_not_mem (form : ZoneForm) (o : Offset) : 0 ∉ form.text o := by
  have hnames : ∀ l ∈ zoneNames, 0 ∉ l := by decide
  have hcolon : (0 : UInt8) ∉ [ch ':'] := by decide
  have hsign : 0 ∉ [if o.west then ch '-' else ch '+'] := by cases o.west <;> decide
  have hhour : 0 ∉ [if o.west then ch '-' else ch '+'] ++ dec 2 o.hour :=
    zero_not_mem_append hsign (zero_not_mem_dec _ _)
  cases form with
  | offset form =>
    cases form with
    | short => exact zero_not_mem_append hhour (zero_not_mem_dec _ _)
    | long => exact zero_not_mem_append (zero_not_mem_append hhour hcolon) (zero_not_mem_dec _ _)
  | z => exact hnames (chars ['Z']) (by decide)
  | ut => exact hnames (chars ['U', 'T']) (by decide)
  | utc => exact hnames (chars ['U', 'T', 'C']) (by decide)
  | gmt => exact hnames (chars ['G', 'M', 'T']) (by decide)

/-- A text has no zero. -/
lemma Spelling.zero_not_mem {p : Spelling} {t : LocalTime} (h : p.Fits t) : 0 ∉ p.text t := by
  have hsep : 0 ∉ p.sep := by
    rcases h.sep.mem with hsep | hsep | hsep | hsep <;> rw [hsep] <;> decide
  have hspace : 0 ∉ if p.time.space then [ch ' '] else [] := by cases p.time.space <;> decide
  apply zero_not_mem_append
  · exact zero_not_mem_append (DateForm.zero_not_mem h.date) hsep
  · apply zero_not_mem_append
    · exact zero_not_mem_append (Form.zero_not_mem_clockText _ _) hspace
    · exact ZoneForm.zero_not_mem _ _

/-- The sum of the epoch and the offset is that of the integers. -/
lemma toInt_add_ofInt (e : UInt64) (off : ℤ) (h₀ : -2 ^ 63 ≤ e.toNat + off) (h : e.toNat + off < 2 ^ 63) :
    (e + UInt64.ofInt off).toInt64.toInt = e.toNat + off := by
  have hsum : e + UInt64.ofInt off = UInt64.ofInt (e.toNat + off) := by
    rw [UInt64.ofInt_add, ofInt_natCast, UInt64.ofNat_toNat]
  have hnat : (UInt64.ofInt (e.toNat + off)).toNat = ((e.toNat + off) % 2 ^ 64).toNat := by
    unfold UInt64.ofInt
    rw [UInt64.toNat_ofNat']
    omega
  rw [hsum]
  generalize UInt64.ofInt (e.toNat + off) = x at hnat ⊢
  change x.toBitVec.toInt = _
  rw [BitVec.toInt_eq_toNat_cond]
  change (if 2 * x.toNat < 2 ^ 64 then (x.toNat : ℤ) else x.toNat - (2 ^ 64 : ℕ)) = _
  rw [hnat]
  split_ifs <;> omega

/-- No local time that is asked for is before 1969. -/
lemma year_of_instant (h : -359940 ≤ instant d c) : 1000 ≤ d.year := by
  have hend := d.isDate.le_end
  have hleap := daysBeforeMonth_end d.year
  have hyears := daysBeforeYear_eq d.year
  have hhour := c.hour_le
  have hmin := c.min_le
  have hsec := c.sec_le
  unfold instant dayNumber at h
  rw [daysBeforeYear_1970] at h
  split_ifs at hleap <;> omega

lemma dayNumber_10000 : dayNumber 10000 1 1 = 2932897 := by
  have hyears := daysBeforeYear_eq 10000
  have hjan : daysBeforeMonth 10000 1 = 0 := rfl
  unfold dayNumber
  rw [daysBeforeYear_1970, hjan]
  omega

/-- **What is formatted is parsed** to the epoch and the offset that it was formatted from, up to the
last local second of the year 9999. -/
theorem timeLocalParse_format (behind : Mem UInt64) (tm : Tm) (gmtoff : ℤ)
    (gmtimeR : ℤ → Option Tm) (fmt : TimeFmt) (epochSec : UInt64) (off : ℤ) (buf : Mem UInt8) (n : ℕ)
    (hexact : ExactGmtime gmtimeR) (hdvd : 60 ∣ off) (hoff : off.natAbs ≤ 359940)
    (hyear : (epochSec.toNat + off) / 86400 < dayNumber 10000 1 1)
    (hn : ∀ tm, gmtimeR (epochSec.toNat + off) = some tm → (formatText fmt tm off).length < n) :
    ∃ (s : CString) (index : ℕ), timeLocalFormat gmtimeR epochSec off fmt buf n = (0, s.mem) ∧
      timeLocalParse behind tm gmtoff s = (0, some ⟨epochSec, off, index⟩) := by
  have hlow : -359940 ≤ (epochSec.toNat : ℤ) + off := by omega
  have hlt : off.natAbs < 360000 := by omega
  obtain ⟨d, c, hsec, hinstant⟩ := exists_instant (x := epochSec.toNat + off) (by omega) hyear
  rw [dayNumber_10000] at hyear
  have hlocal := toInt_add_ofInt epochSec off (by omega) (by omega)
  have hgm : gmtimeR (epochSec.toNat + off) = some (tmOf d c) := hinstant ▸ hexact d c hsec
  have hlen := hn _ hgm
  have hyear' : 1000 ≤ d.year := year_of_instant (hinstant ▸ hlow)
  have hfits := fmt.spelling_fits d c hlt
  have hyear₁ : 1 ≤ d.year := by omega
  have htext := formatText_eq (c := c) fmt hlt hyear'
  have hne : 0 ∉ formatText fmt (tmOf d c) off := by
    rw [htext]
    exact Spelling.zero_not_mem hfits
  have hoffset := Offset.sec_ofSec hlt hdvd
  have hepoch : UInt64.ofInt (LocalTime.epoch ⟨d, c, Offset.ofSec off hlt⟩) = epochSec := by
    unfold LocalTime.epoch
    rw [hoffset, hinstant, Int.add_sub_cancel, ofInt_natCast, UInt64.ofNat_toNat]
  refine ⟨CString.stored buf _ hne, marchMonth d.mon, ?_, ?_⟩
  · unfold timeLocalFormat
    rw [if_neg (by omega), hlocal, hgm]
    simp only [List.take_of_length_le (Nat.le_sub_one_of_lt hlen)]
    rfl
  · rw [timeLocalParse_spelled behind tm gmtoff _ _ _ hyear₁ hfits
      ((CString.text_stored buf _ hne).trans htext), hepoch, hoffset]

/-! ### A local time in 1969 -/

/-- A `gmtime_r` that goes through the calendar day by day. -/
def gmtime (x : ℤ) : Option Tm :=
  let (y, m, d) := dateOfNumber (x / 86400)
  some ⟨x % 60, x / 60 % 60, x % 86400 / 3600, d, m - 1, y - 1900, (x / 86400 + 4) % 7⟩

lemma gmtime_eq {x : ℤ} {y m d : ℕ} (h : dateOfNumber (x / 86400) = (y, m, d)) :
    gmtime x =
      some ⟨x % 60, x / 60 % 60, x % 86400 / 3600, d, m - 1, y - 1900, (x / 86400 + 4) % 7⟩ := by
  unfold gmtime
  rw [h]

lemma exactGmtime_gmtime : ExactGmtime gmtime := by
  intro d c hsec
  have hhour := c.hour_le
  have hmin := c.min_le
  have hday : instant d c / 86400 = dayNumber d.year d.mon d.mday := by
    unfold instant
    omega
  rw [gmtime_eq (hday ▸ dateOfNumber_dayNumber d.isDate), hday]
  unfold tmOf instant
  simp only [Option.some_inj, Tm.mk.injEq, and_true]
  omega

lemma dayNumber_lastMinute : dayNumber 1969 12 31 = -1 := by
  have hyears := daysBeforeYear_eq 1969
  have hmonth : daysBeforeMonth 1969 12 = 334 := rfl
  unfold dayNumber
  rw [daysBeforeYear_1970, hmonth]
  omega

/-- A minute before 1970-01-01 00:00:00. -/
lemma gmtime_lastMinute : gmtime (-60) = some ⟨0, 59, 23, 31, 11, 69, 3⟩ := by
  have hdate : IsDate 1969 12 31 := ⟨by decide, le_rfl, by decide, le_rfl⟩
  have hexact := exactGmtime_gmtime ⟨1969, 12, 31, by decide, hdate⟩
    ⟨23, 59, 0, le_rfl, le_rfl, Nat.zero_le _⟩ (Nat.zero_le _)
  unfold instant tmOf at hexact
  dsimp only at hexact
  rw [dayNumber_lastMinute] at hexact
  exact hexact

/-- `Wed, 31 Dec 1969 23:59:00 -0001` -/
theorem timeLocalParse_format_lastMinute :
    ∃ (s : CString) (index : ℕ),
      timeLocalFormat gmtime 0 (-60) .rfc1123 (fun _ => 0) 64 = (0, s.mem) ∧
        timeLocalParse (fun _ => 0) timeCtxInit.tm 0 s = (0, some ⟨0, -60, index⟩) := by
  apply timeLocalParse_format
  · exact exactGmtime_gmtime
  · decide
  · decide
  · rw [dayNumber_10000]
    decide
  · intro tm htm
    have heq : tm = ⟨0, 59, 23, 31, 11, 69, 3⟩ := Option.some_inj.mp (htm.symm.trans gmtime_lastMinute)
    rw [heq]
    decide +kernel

end Futils.Systime
