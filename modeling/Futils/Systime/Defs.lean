import Futils.Errno
import Futils.Lib.CString

/-!
# Date and time texts (`src/systimetools.c`)

A string is read through a pointer into memory and its length.  The parsers cut the characters of the
numbers out of it before they convert them, which `cutDate` and its like are for; what they write
through their pointers they write into `Tm`.
-/

namespace Futils.Systime

open Futils.Lib

/-- `struct tm`, as far as it is used. -/
structure Tm where
  sec : ℤ
  min : ℤ
  hour : ℤ
  mday : ℤ
  mon : ℤ
  year : ℤ
  wday : ℤ
  deriving DecidableEq

def wdayStr : List (List UInt8) :=
  [chars ['S', 'u', 'n'], chars ['M', 'o', 'n'], chars ['T', 'u', 'e'], chars ['W', 'e', 'd'],
    chars ['T', 'h', 'u'], chars ['F', 'r', 'i'], chars ['S', 'a', 't']]

def monStr : List (List UInt8) :=
  [chars ['J', 'a', 'n'], chars ['F', 'e', 'b'], chars ['M', 'a', 'r'], chars ['A', 'p', 'r'],
    chars ['M', 'a', 'y'], chars ['J', 'u', 'n'], chars ['J', 'u', 'l'], chars ['A', 'u', 'g'],
    chars ['S', 'e', 'p'], chars ['O', 'c', 't'], chars ['N', 'o', 'v'], chars ['D', 'e', 'c']]

/-! ### Numbers -/

def isspace (c : UInt8) : Bool := c = 32 || (9 ≤ c && c ≤ 13)

def isdigit (c : UInt8) : Bool := 48 ≤ c && c ≤ 57

/-- The digits of a number: its value, and what comes after them. -/
def strtolDigits : ℤ → List UInt8 → ℤ × List UInt8
  | v, [] => (v, [])
  | v, c :: cs => if isdigit c then strtolDigits (10 * v + (c.toNat - 48 : ℕ)) cs else (v, c :: cs)

/-- `strtol` in base 10: the value, and the text at `*end`. -/
def strtol (s : List UInt8) : ℤ × List UInt8 :=
  let t := s.dropWhile isspace
  let u := if t.head? = some (ch '-') ∨ t.head? = some (ch '+') then t.tail else t
  if u.head?.all fun c => !isdigit c then (0, s)
  else
    let r := strtolDigits 0 u
    (if t.head? = some (ch '-') then -r.1 else r.1, r.2)

/-- The return value and `*num`, for an array of characters that is ended by a zero. -/
def parseNum (s : List UInt8) : ℤ × ℤ :=
  let r := strtol (s.takeWhile fun c => c ≠ 0)
  (if r.2 = [] then 0 else -EINVAL, r.1)

def parseWday (s : Mem UInt8) : ℤ := if s.load 0 3 ∈ wdayStr then 0 else -ENOENT

/-- The return value and `*num`, which was `num`. -/
def parseMon (s : List UInt8) (num : ℤ) : ℤ × ℤ :=
  if s.take 3 ∈ monStr then (0, monStr.idxOf (s.take 3) + 1) else (-ENOENT, num)

/-! ### Dates -/

/-- `year_s`, `mon_s` and `mday_s`, without their terminating zeros. -/
structure DateCut where
  year : List UInt8
  mon : List UInt8
  mday : List UInt8

def cutDate (s : Mem UInt8) (n : ℕ) : Option DateCut :=
  if n = 10 ∧ s 4 = ch '-' ∧ s 7 = ch '-' then some ⟨s.load 0 4, s.load 5 2, s.load 8 2⟩
  else if n = 8 then some ⟨s.load 0 4, s.load 4 2, s.load 6 2⟩
  else none

def parseDate (s : Mem UInt8) (n : ℕ) (tm : Tm) : ℤ × Tm :=
  match cutDate s n with
  | none => (-EINVAL, tm)
  | some cut =>
    let year := parseNum cut.year
    let tm := { tm with year := year.2 }
    if year.1 < 0 then (year.1, tm)
    else
      let mon := parseNum cut.mon
      let tm := { tm with mon := mon.2 }
      if mon.1 < 0 then (mon.1, tm)
      else
        let mday := parseNum cut.mday
        (mday.1, { tm with mday := mday.2 })

/-- `mday_s` from `offset` on, and the offset after it. -/
def cutMday (s : Mem UInt8) (offset : ℕ) : List UInt8 × ℕ :=
  if s (offset + 1) = ch ' ' then ([s offset], offset + 1)
  else ([s offset, s (offset + 1)], offset + 2)

/-- The fields, and the offset after them. -/
def cutDateRfc1123 (s : Mem UInt8) : Option (DateCut × ℕ) :=
  if s 3 ≠ ch ',' then none
  else if isdigit (s 5) then
    let mday := cutMday s 5
    let mon := mday.2 + 1
    let year := mon + 3 + 1
    some (⟨s.load year 4, s.load mon 3, mday.1⟩, year + 4)
  else
    let mday := cutMday s 9
    let year := mday.2 + 1
    some (⟨s.load year 4, s.load 5 3, mday.1⟩, year + 4)

def parseDateRfc1123 (s : Mem UInt8) (tm : Tm) : ℤ × Tm :=
  match cutDateRfc1123 s with
  | none => (-EINVAL, tm)
  | some (cut, offset) =>
    let year := parseNum cut.year
    let tm := { tm with year := year.2 }
    if year.1 < 0 then (year.1, tm)
    else
      let mon := parseMon cut.mon tm.mon
      let tm := { tm with mon := mon.2 }
      if mon.1 < 0 then (mon.1, tm)
      else
        let mday := parseNum cut.mday
        let tm := { tm with mday := mday.2 }
        if mday.1 < 0 then (mday.1, tm) else (offset, tm)

/-! ### Times -/

/-- The rest of a string: where it is, and how long it is. -/
abbrev Rest := Mem UInt8 × ℕ

/-- A character `c` at the front is skipped. -/
def Rest.skip (c : UInt8) (r : Rest) : Rest :=
  if 0 < r.2 ∧ r.1 0 = c then (r.1.shift 1, r.2 - 1) else r

/-- `hour_s`, `min_s` and `sec_s`. -/
structure ClockCut where
  hour : List UInt8
  min : List UInt8
  sec : List UInt8

/-- The fields of the time of day, and what comes after them. -/
def cutClock (r : Rest) : Option (ClockCut × Rest) :=
  if r.2 ≥ 8 ∧ r.1 2 = ch ':' ∧ r.1 5 = ch ':' then
    some (⟨r.1.load 0 2, r.1.load 3 2, r.1.load 6 2⟩, (r.1.shift 8, r.2 - 8))
  else if r.2 ≥ 6 then some (⟨r.1.load 0 2, r.1.load 2 2, r.1.load 4 2⟩, (r.1.shift 6, r.2 - 6))
  else none

/-- `gmtoff_sign`, `gmtoff_hour_s` and `gmtoff_min_s`. -/
structure ZoneCut where
  sign : ℤ
  hour : List UInt8
  min : List UInt8

/-- What is taken for a name of UTC. -/
def zeroZone : ZoneCut := ⟨1, chars ['0', '0'], chars ['0', '0']⟩

def cutZone (r : Rest) : Option ZoneCut :=
  let s := r.1
  let n := r.2
  let sign : ℤ := if s 0 = ch '-' then -1 else 1
  if n = 6 ∧ (s 0 = ch '-' ∨ s 0 = ch '+') ∧ s 3 = ch ':' then
    some ⟨sign, s.load 1 2, s.load 4 2⟩
  else if n = 5 ∧ (s 0 = ch '-' ∨ s 0 = ch '+') then some ⟨sign, s.load 1 2, s.load 3 2⟩
  else if n = 1 ∧ s 0 = ch 'Z' then some zeroZone
  else if n = 3 ∧ s 0 = ch 'G' ∧ s 1 = ch 'M' ∧ s 2 = ch 'T' then some zeroZone
  else if n = 2 ∧ s 0 = ch 'U' ∧ s 1 = ch 'T' then some zeroZone
  else if n = 3 ∧ s 0 = ch 'U' ∧ s 1 = ch 'T' ∧ s 2 = ch 'C' then some zeroZone
  else none

/-- The return value, and what is then in `*hour`, `*min` and `*sec` and in `*gmtoff`. -/
def parseTime (s : Mem UInt8) (n : ℕ) (tm : Tm) (gmtoff : ℤ) : ℤ × Tm × ℤ :=
  match cutClock (Rest.skip (ch 'T') (s, n)) with
  | none => (-EINVAL, tm, gmtoff)
  | some (cut, rest) =>
    let hour := parseNum cut.hour
    let tm := { tm with hour := hour.2 }
    if hour.1 < 0 then (hour.1, tm, gmtoff)
    else
      let min := parseNum cut.min
      let tm := { tm with min := min.2 }
      if min.1 < 0 then (min.1, tm, gmtoff)
      else
        let sec := parseNum cut.sec
        let tm := { tm with sec := sec.2 }
        if sec.1 < 0 then (sec.1, tm, gmtoff)
        else
          match cutZone (rest.skip (ch ' ')) with
          | none => (-EINVAL, tm, gmtoff)
          | some zone =>
            let gmtoffHour := parseNum zone.hour
            if gmtoffHour.1 < 0 then (gmtoffHour.1, tm, gmtoff)
            else
              let gmtoffMin := parseNum zone.min
              if gmtoffMin.1 < 0 then (gmtoffMin.1, tm, gmtoff)
              else (0, tm, (gmtoffHour.2 * 60 + gmtoffMin.2) * 60 * zone.sign)

/-- `parse_date_time` up to the date: the return value, the date, and the rest of the string. -/
def parseDateTimeDate (s : Mem UInt8) (n : ℕ) (tm : Tm) : ℤ × Tm × Rest :=
  if n ≥ 16 ∧ parseWday s ≠ -ENOENT then
    let r := parseDateRfc1123 s tm
    if r.1 < 0 then (r.1, r.2, (s, n)) else (0, r.2, (s.shift r.1.toNat, n - r.1.toNat))
  else if n ≥ 10 ∧ (s 10 = ch 'T' ∨ s 10 = ch ' ' ∨ s 10 = 0) then
    let r := parseDate s 10 tm
    if r.1 < 0 then (r.1, r.2, (s, n)) else (0, r.2, (s.shift 10, n - 10))
  else if n ≥ 8 ∧ (s 8 = ch 'T' ∨ s 8 = ch ' ' ∨ s 8 = 0) then
    let r := parseDate s 8 tm
    if r.1 < 0 then (r.1, r.2, (s, n)) else (0, r.2, (s.shift 8, n - 8))
  else (-EINVAL, tm, (s, n))

def parseDateTime (s : Mem UInt8) (n : ℕ) (tm : Tm) (gmtoff : ℤ) : ℤ × Tm × ℤ :=
  let date := parseDateTimeDate s n tm
  if date.1 < 0 then (date.1, date.2.1, gmtoff)
  else
    let rest := date.2.2.skip (ch ' ')
    parseTime rest.1 rest.2 date.2.1 gmtoff

end Futils.Systime
