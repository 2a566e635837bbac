import Futils.Systime.Defs

/-!
# Local times (`src/systimetools.c`)

The time contexts, the epoch of a local time, and the texts of one.  `behind` is the memory from the start
of the month table on, of which the table is only the beginning: the table is on the stack, so that one
call finds something else there than the next.  Pointers that are passed are never `NULL`.
-/

namespace Futils.Systime

open Futils.Lib

/-! ### The epoch -/

def nbDay1970 : UInt64 := 719499

def cumulativeNbDayPerMonth : List UInt64 :=
  [0, 30, 61, 91, 122, 152, 183, 214, 244, 275, 305, 336, 367]

/-- The epoch, and the index at which the table of the months is read. -/
def tmMkepochLocal (behind : Mem UInt64) (tm : Tm) (gmtoff : ℤ) : UInt64 × ℕ :=
  let year := UInt32.ofInt (tm.year + 1900)
  let month := UInt32.ofInt (tm.mon + 1)
  let day := UInt32.ofInt tm.mday
  let hour := UInt32.ofInt tm.hour
  let min := UInt32.ofInt tm.min
  let sec := UInt32.ofInt tm.sec
  let month := month - 2
  let (month, year) := if month.toInt32.toInt ≤ 0 then (month + 12, year - 1) else (month, year)
  let index := month.toNat
  let time := (year / 4 - year / 100 + year / 400).toUInt64
  let time := time + (year * 365).toUInt64
  let time := time + cumulativeNbDayPerMonth.getD index (behind index)
  let time := time + day.toUInt64
  let time := time - nbDay1970
  let time := time * 24 + hour.toUInt64
  let time := time * 60 + min.toUInt64
  let time := time * 60 + sec.toUInt64
  (time - UInt64.ofInt gmtoff, index)

/-! ### Time contexts -/

/-- `struct time_ctx`; `fields` are its two bits. -/
structure TimeCtx where
  date : Bool
  hour : Bool
  tm : Tm
  gmtoff : ℤ

def timeCtxInit : TimeCtx := ⟨false, false, ⟨0, 0, 0, 0, 0, 0, 0⟩, 0⟩

/-- What the setters return once they have set a field. -/
def TimeCtx.complete (ctx : TimeCtx) : ℤ := if ctx.date ∧ ctx.hour then 0 else -EINPROGRESS

def timeCtxSetDate (ctx : TimeCtx) (strDate : CString) : ℤ × TimeCtx :=
  if ctx.date then (-EEXIST, ctx)
  else
    let r := parseDate strDate.mem strDate.strlen ctx.tm
    if r.1 < 0 then (r.1, { ctx with tm := r.2 })
    else
      let ctx := { ctx with
        tm := { r.2 with year := r.2.year - 1900, mon := r.2.mon - 1 }
        date := true }
      (ctx.complete, ctx)

def timeCtxSetHour (ctx : TimeCtx) (strHour : CString) : ℤ × TimeCtx :=
  if ctx.hour then (-EEXIST, ctx)
  else
    let r := parseTime strHour.mem strHour.strlen ctx.tm ctx.gmtoff
    if r.1 < 0 then (r.1, { ctx with tm := r.2.1, gmtoff := r.2.2 })
    else
      let ctx := { ctx with tm := r.2.1, gmtoff := r.2.2, hour := true }
      (ctx.complete, ctx)

def timeCtxSetTime (ctx : TimeCtx) (strTime : CString) : ℤ × TimeCtx :=
  if ctx.date ∨ ctx.hour then (-EEXIST, ctx)
  else
    let r := parseDateTime strTime.mem strTime.strlen ctx.tm ctx.gmtoff
    if r.1 < 0 then (r.1, { ctx with tm := r.2.1, gmtoff := r.2.2 })
    else
      (0, { ctx with
        tm := { r.2.1 with year := r.2.1.year - 1900, mon := r.2.1.mon - 1 }
        gmtoff := r.2.2
        date := true
        hour := true })

/-- What `time_ctx_get_local` and `time_local_parse` return: the epoch and the offset, and besides the
index into the table of the months. -/
structure Local where
  epochSec : UInt64
  utcOffsetSec : ℤ
  index : ℕ

/-- The local time of broken-down time. -/
def localOf (behind : Mem UInt64) (tm : Tm) (gmtoff : ℤ) : Local :=
  let r := tmMkepochLocal behind tm gmtoff
  ⟨r.1, gmtoff, r.2⟩

def timeCtxGetLocal (behind : Mem UInt64) (ctx : TimeCtx) : ℤ × Option Local :=
  if ctx.date ∧ ctx.hour then (0, some (localOf behind ctx.tm ctx.gmtoff)) else (-EINPROGRESS, none)

/-! ### Texts -/

/-- `tm` and `gmtoff` are what is in memory that is not initialised. -/
def timeLocalParse (behind : Mem UInt64) (tm : Tm) (gmtoff : ℤ) (s : CString) : ℤ × Option Local :=
  let r := parseDateTime s.mem s.strlen tm gmtoff
  if r.1 < 0 then (r.1, none)
  else
    (0, some (localOf behind { r.2.1 with year := r.2.1.year - 1900, mon := r.2.1.mon - 1 } r.2.2))

/-- `%u`, with at least `width` digits. -/
def printU (width : ℕ) (x : ℤ) : List UInt8 :=
  let s := chars (Nat.toDigits 10 (UInt32.ofInt x).toNat)
  List.replicate (width - s.length) (ch '0') ++ s

/-- `enum time_fmt` -/
inductive TimeFmt
  | iso8601Short
  | iso8601Long
  | rfc1123
  deriving DecidableEq

/-- The text that `time_local_format` prints. -/
def formatText (fmt : TimeFmt) (tm : Tm) (utcOffsetSec : ℤ) : List UInt8 :=
  let gmtoffSign : ℤ := if utcOffsetSec < 0 then -1 else 1
  let gmtoffHour := (gmtoffSign * utcOffsetSec).tdiv (60 * 60)
  let gmtoffMin := ((gmtoffSign * utcOffsetSec).tdiv 60).tmod 60
  let sign := [if gmtoffSign < 0 then ch '-' else ch '+']
  match fmt with
  | .iso8601Short =>
    printU 4 (tm.year + 1900) ++ printU 2 (tm.mon + 1) ++ printU 2 tm.mday ++ [ch 'T'] ++
      printU 2 tm.hour ++ printU 2 tm.min ++ printU 2 tm.sec ++ sign ++ printU 2 gmtoffHour ++
      printU 2 gmtoffMin
  | .iso8601Long =>
    printU 4 (tm.year + 1900) ++ [ch '-'] ++ printU 2 (tm.mon + 1) ++ [ch '-'] ++
      printU 2 tm.mday ++ [ch 'T'] ++ printU 2 tm.hour ++ [ch ':'] ++ printU 2 tm.min ++ [ch ':'] ++
      printU 2 tm.sec ++ sign ++ printU 2 gmtoffHour ++ [ch ':'] ++ printU 2 gmtoffMin
  | .rfc1123 =>
    wdayStr.getD tm.wday.toNat [] ++ [ch ',', ch ' '] ++ printU 1 tm.mday ++ [ch ' '] ++
      monStr.getD tm.mon.toNat [] ++ [ch ' '] ++ printU 1 (tm.year + 1900) ++ [ch ' '] ++
      printU 2 tm.hour ++ [ch ':'] ++ printU 2 tm.min ++ [ch ':'] ++ printU 2 tm.sec ++ [ch ' '] ++
      if utcOffsetSec = 0 then chars ['G', 'M', 'T']
      else sign ++ printU 2 gmtoffHour ++ printU 2 gmtoffMin

/-- `time_local_format`, with the `gmtime_r` of the system, on a buffer `s` of `n` characters. -/
def timeLocalFormat (gmtimeR : ℤ → Option Tm) (epochSec : UInt64) (utcOffsetSec : ℤ) (fmt : TimeFmt)
    (s : Mem UInt8) (n : ℕ) : ℤ × Mem UInt8 :=
  if n = 0 then (-EINVAL, s)
  else
    match gmtimeR (epochSec + UInt64.ofInt utcOffsetSec).toInt64.toInt with
    | none => (-EOVERFLOW, s)
    | some tm => (0, s.store 0 ((formatText fmt tm utcOffsetSec).take (n - 1) ++ [0]))

end Futils.Systime
