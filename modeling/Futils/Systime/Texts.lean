import Futils.Lib.Decimal
import Futils.Lib.Gregorian
import Futils.Systime.Defs

/-!
# The documented texts of a local time

The formats of the comments in `src/systimetools.c`, as texts that are written from numbers.  A
`LocalTime` has a date of the calendar and a time of a day; a `Spelling` is the choice of a format.
-/

namespace Futils.Systime

open Futils.Lib

/-! ### Local times -/

structure Date where
  year : ℕ
  mon : ℕ
  mday : ℕ
  year_lt : year < 10000
  isDate : IsDate year mon mday

/-- A time of a day, of which the last minute may have a leap second. -/
structure Clock where
  hour : ℕ
  min : ℕ
  sec : ℕ
  hour_le : hour ≤ 23
  min_le : min ≤ 59
  sec_le : sec ≤ 60

/-- An offset from UTC. -/
structure Offset where
  west : Bool
  hour : ℕ
  min : ℕ
  hour_le : hour ≤ 99
  min_le : min ≤ 59

def Offset.sign (o : Offset) : ℤ := if o.west then -1 else 1

/-- The offset in seconds. -/
def Offset.sec (o : Offset) : ℤ := o.sign * (3600 * o.hour + 60 * o.min)

structure LocalTime where
  date : Date
  clock : Clock
  offset : Offset

/-- The seconds from 1970-01-01 00:00:00 to a date and a time of day. -/
def instant (d : Date) (c : Clock) : ℤ :=
  86400 * dayNumber d.year d.mon d.mday + 3600 * c.hour + 60 * c.min + c.sec

/-- The seconds from 1970-01-01 00:00:00 UTC. -/
def LocalTime.epoch (t : LocalTime) : ℤ := instant t.date t.clock - t.offset.sec

/-! ### Formats -/

inductive Form
  | short
  | long
  deriving DecidableEq

/-- `YYYYMMDD` and `YYYY-MM-DD`. -/
def Form.dateText : Form → Date → List UInt8
  | .short, t => dec 4 t.year ++ dec 2 t.mon ++ dec 2 t.mday
  | .long, t => dec 4 t.year ++ [ch '-'] ++ dec 2 t.mon ++ [ch '-'] ++ dec 2 t.mday

/-- `hhmmss` and `hh:mm:ss`. -/
def Form.clockText : Form → Clock → List UInt8
  | .short, t => dec 2 t.hour ++ dec 2 t.min ++ dec 2 t.sec
  | .long, t => dec 2 t.hour ++ [ch ':'] ++ dec 2 t.min ++ [ch ':'] ++ dec 2 t.sec

inductive ZoneForm
  | offset (form : Form)
  | z
  | ut
  | utc
  | gmt
  deriving DecidableEq

/-- `+zzzz` and `+zz:zz`, or a name. -/
def ZoneForm.text : ZoneForm → Offset → List UInt8
  | .offset .short, o => [if o.west then ch '-' else ch '+'] ++ dec 2 o.hour ++ dec 2 o.min
  | .offset .long, o =>
    [if o.west then ch '-' else ch '+'] ++ dec 2 o.hour ++ [ch ':'] ++ dec 2 o.min
  | .z, _ => chars ['Z']
  | .ut, _ => chars ['U', 'T']
  | .utc, _ => chars ['U', 'T', 'C']
  | .gmt, _ => chars ['G', 'M', 'T']

/-- Only UTC has names. -/
def ZoneForm.Fits : ZoneForm → Offset → Prop
  | .offset _, _ => True
  | _, o => o.hour = 0 ∧ o.min = 0

/-- The format of a time, and whether there is a space before the zone. -/
structure TimeForm where
  clock : Form
  space : Bool
  zone : ZoneForm

def TimeForm.text (f : TimeForm) (t : Clock) (o : Offset) : List UInt8 :=
  f.clock.clockText t ++ (if f.space then [ch ' '] else []) ++ f.zone.text o

/-- `rfc1123` is with the name of the day, whether the day comes before the month, and how many digits
it has. -/
inductive DateForm
  | iso8601 (form : Form)
  | rfc1123 (wday : List UInt8) (dayFirst : Bool) (width : ℕ)

/-- The name of month `m`, which are counted from 1. -/
def monName (m : ℕ) : List UInt8 := monStr.getD (m - 1) []

/-- The formats of a date: `aaa, DD bbb YYYY` and `aaa, bbb DD YYYY` besides those of ISO 8601. -/
def DateForm.text : DateForm → Date → List UInt8
  | .iso8601 form, t => form.dateText t
  | .rfc1123 wday dayFirst width, t =>
    wday ++ [ch ',', ch ' '] ++
      (if dayFirst then dec width t.mday ++ [ch ' '] ++ monName t.mon
        else monName t.mon ++ [ch ' '] ++ dec width t.mday) ++
      [ch ' '] ++ dec 4 t.year

def DateForm.Fits : DateForm → Date → Prop
  | .iso8601 _, _ => True
  | .rfc1123 wday _ width, t => wday ∈ wdayStr ∧ (width = 1 ∧ t.mday < 10 ∨ width = 2)

/-- `sep` is between the date and the time. -/
structure Spelling where
  date : DateForm
  sep : List UInt8
  time : TimeForm

def Spelling.text (p : Spelling) (t : LocalTime) : List UInt8 :=
  p.date.text t.date ++ p.sep ++ p.time.text t.clock t.offset

/-- What may be between the date and the time. -/
def DateForm.Separates : DateForm → List UInt8 → Prop
  | .iso8601 _, sep => sep = [ch 'T'] ∨ sep = [ch ' ']
  | .rfc1123 .., sep => sep = [] ∨ sep = [ch ' '] ∨ sep = [ch 'T'] ∨ sep = [ch ' ', ch 'T']

/-- The format is one for the local time. -/
structure Spelling.Fits (p : Spelling) (t : LocalTime) : Prop where
  date : p.date.Fits t.date
  sep : p.date.Separates p.sep
  zone : p.time.zone.Fits t.offset

end Futils.Systime
