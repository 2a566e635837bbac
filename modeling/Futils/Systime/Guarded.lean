import Futils.Lib.Guarded
import Futils.Systime.Local

/-!
# The parsers under a guard (`src/systimetools.c`)

The functions are those of the source once more, now with every access to a string and to a local array
of characters and every subtraction from a length checked.
-/

namespace Futils.Systime.Guarded

open Futils.Lib

def parseNum (f : Field) : Except Fault (ℤ × ℤ) := do
  let s ← f.text
  pure (Systime.parseNum s)

/-- The loop over what is left of `wday_str`. -/
def parseWdayFrom (s : Ptr) : List (List UInt8) → Except Fault ℤ
  | [] => .ok (-ENOENT)
  | name :: names => do if ← s.starts 0 name then pure 0 else parseWdayFrom s names

def parseWday (s : Ptr) : Except Fault ℤ := parseWdayFrom s wdayStr

def parseMon (f : Field) (num : ℤ) : Except Fault (ℤ × ℤ) := do
  let s ← f.text
  pure (Systime.parseMon s num)

/-! ### Dates -/

/-- `year_s`, `mon_s` and `mday_s` -/
structure DateFields where
  year : Field
  mon : Field
  mday : Field

def cutDate (s : Ptr) (n : ℕ) : Except Fault (Option DateFields) := do
  if ← test (n = 10) <&&> s.is 4 (ch '-') <&&> s.is 7 (ch '-') then
    let year ← s.field 5 0 4
    let mon ← s.field 3 5 2
    let mday ← s.field 3 8 2
    pure (some ⟨year, mon, mday⟩)
  else if n = 8 then
    let year ← s.field 5 0 4
    let mon ← s.field 3 4 2
    let mday ← s.field 3 6 2
    pure (some ⟨year, mon, mday⟩)
  else pure none

def parseDate (s : Ptr) (n : ℕ) (tm : Tm) : Except Fault (ℤ × Tm) := do
  match ← cutDate s n with
  | none => pure (-EINVAL, tm)
  | some cut =>
    let year ← parseNum cut.year
    let tm := { tm with year := year.2 }
    if year.1 < 0 then pure (year.1, tm)
    else
      let mon ← parseNum cut.mon
      let tm := { tm with mon := mon.2 }
      if mon.1 < 0 then pure (mon.1, tm)
      else
        let mday ← parseNum cut.mday
        pure (mday.1, { tm with mday := mday.2 })

/-- `mday_s` from `offset` on, and the offset after it. -/
def cutMday (s : Ptr) (offset : ℕ) : Except Fault (Field × ℕ) := do
  let c ← s.get offset
  let mday ← (Field.new 3).put 0 c
  if ← s.is (offset + 1) (ch ' ') then
    let mday ← mday.put 1 0
    let mday ← mday.put 2 0
    pure (mday, offset + 1)
  else
    let c ← s.get (offset + 1)
    let mday ← mday.put 1 c
    let mday ← mday.put 2 0
    pure (mday, offset + 2)

/-- The fields, and the offset after them; `wday_s` is filled and not used. -/
def cutDateRfc1123 (s : Ptr) : Except Fault (Option (DateFields × ℕ)) := do
  if !(← s.is 3 (ch ',')) then pure none
  else
    let _wday ← s.field 4 0 3
    let c ← s.get 5
    if isdigit c then
      let mday ← cutMday s 5
      let offset := mday.2 + 1
      let mon ← s.field 4 offset 3
      let offset := offset + 3 + 1
      let year ← s.field 5 offset 4
      pure (some (⟨year, mon, mday.1⟩, offset + 4))
    else
      let mon ← s.field 4 5 3
      let mday ← cutMday s 9
      let offset := mday.2 + 1
      let year ← s.field 5 offset 4
      pure (some (⟨year, mon, mday.1⟩, offset + 4))

def parseDateRfc1123 (s : Ptr) (tm : Tm) : Except Fault (ℤ × Tm) := do
  match ← cutDateRfc1123 s with
  | none => pure (-EINVAL, tm)
  | some (cut, offset) =>
    let year ← parseNum cut.year
    let tm := { tm with year := year.2 }
    if year.1 < 0 then pure (year.1, tm)
    else
      let mon ← parseMon cut.mon tm.mon
      let tm := { tm with mon := mon.2 }
      if mon.1 < 0 then pure (mon.1, tm)
      else
        let mday ← parseNum cut.mday
        let tm := { tm with mday := mday.2 }
        if mday.1 < 0 then pure (mday.1, tm) else pure (offset, tm)

/-! ### Times -/

/-- `s` and `n` -/
structure Rest where
  s : Ptr
  n : ℕ

/-- `s += k` and `n -= k` -/
def Rest.advance (r : Rest) (k : ℕ) : Except Fault Rest := do
  let n ← guardedSub r.n k
  pure ⟨r.s.add k, n⟩

def Rest.skip (c : UInt8) (r : Rest) : Except Fault Rest := do
  if ← test (0 < r.n) <&&> r.s.is 0 c then r.advance 1 else pure r

/-- `hour_s`, `min_s` and `sec_s` -/
structure ClockFields where
  hour : Field
  min : Field
  sec : Field

def cutClock (r : Rest) : Except Fault (Option (ClockFields × Rest)) := do
  if ← test (r.n ≥ 8) <&&> r.s.is 2 (ch ':') <&&> r.s.is 5 (ch ':') then
    let hour ← r.s.field 3 0 2
    let min ← r.s.field 3 3 2
    let sec ← r.s.field 3 6 2
    let rest ← r.advance 8
    pure (some (⟨hour, min, sec⟩, rest))
  else if r.n ≥ 6 then
    let hour ← r.s.field 3 0 2
    let min ← r.s.field 3 2 2
    let sec ← r.s.field 3 4 2
    let rest ← r.advance 6
    pure (some (⟨hour, min, sec⟩, rest))
  else pure none

/-- `gmtoff_sign`, `gmtoff_hour_s` and `gmtoff_min_s` -/
structure ZoneFields where
  sign : ℤ
  hour : Field
  min : Field

def zeroField : Except Fault Field := do
  let f ← (Field.new 3).put 0 (ch '0')
  let f ← f.put 1 (ch '0')
  f.put 2 0

def zeroZone : Except Fault (Option ZoneFields) := do
  let hour ← zeroField
  let min ← zeroField
  pure (some ⟨1, hour, min⟩)

/-- `s[0] == '-' || s[0] == '+'` -/
def isSign (s : Ptr) : Except Fault Bool := s.is 0 (ch '-') <||> s.is 0 (ch '+')

def cutZone (r : Rest) : Except Fault (Option ZoneFields) := do
  let s := r.s
  let n := r.n
  if ← test (n = 6) <&&> isSign s <&&> s.is 3 (ch ':') then
    let minus ← s.is 0 (ch '-')
    let hour ← s.field 3 1 2
    let min ← s.field 3 4 2
    pure (some ⟨if minus then -1 else 1, hour, min⟩)
  else if ← test (n = 5) <&&> isSign s then
    let minus ← s.is 0 (ch '-')
    let hour ← s.field 3 1 2
    let min ← s.field 3 3 2
    pure (some ⟨if minus then -1 else 1, hour, min⟩)
  else if ← test (n = 1) <&&> s.is 0 (ch 'Z') then zeroZone
  else if ← test (n = 3) <&&> s.is 0 (ch 'G') <&&> s.is 1 (ch 'M') <&&> s.is 2 (ch 'T') then zeroZone
  else if ← test (n = 2) <&&> s.is 0 (ch 'U') <&&> s.is 1 (ch 'T') then zeroZone
  else if ← test (n = 3) <&&> s.is 0 (ch 'U') <&&> s.is 1 (ch 'T') <&&> s.is 2 (ch 'C') then zeroZone
  else pure none

def parseTime (s : Ptr) (n : ℕ) (tm : Tm) (gmtoff : ℤ) : Except Fault (ℤ × Tm × ℤ) := do
  let start ← Rest.skip (ch 'T') ⟨s, n⟩
  match ← cutClock start with
  | none => pure (-EINVAL, tm, gmtoff)
  | some (cut, rest) =>
    let hour ← parseNum cut.hour
    let tm := { tm with hour := hour.2 }
    if hour.1 < 0 then pure (hour.1, tm, gmtoff)
    else
      let min ← parseNum cut.min
      let tm := { tm with min := min.2 }
      if min.1 < 0 then pure (min.1, tm, gmtoff)
      else
        let sec ← parseNum cut.sec
        let tm := { tm with sec := sec.2 }
        if sec.1 < 0 then pure (sec.1, tm, gmtoff)
        else
          let rest ← rest.skip (ch ' ')
          match ← cutZone rest with
          | none => pure (-EINVAL, tm, gmtoff)
          | some zone =>
            let gmtoffHour ← parseNum zone.hour
            if gmtoffHour.1 < 0 then pure (gmtoffHour.1, tm, gmtoff)
            else
              let gmtoffMin ← parseNum zone.min
              if gmtoffMin.1 < 0 then pure (gmtoffMin.1, tm, gmtoff)
              else pure (0, tm, (gmtoffHour.2 * 60 + gmtoffMin.2) * 60 * zone.sign)

/-- `s[i] == 'T' || s[i] == ' ' || s[i] == '\0'` -/
def isEnd (s : Ptr) (i : ℕ) : Except Fault Bool :=
  s.is i (ch 'T') <||> s.is i (ch ' ') <||> s.is i 0

/-- What follows an attempt at a date of `k` characters. -/
def afterDate (r : Rest) (date : ℤ × Tm) (k : ℕ) : Except Fault (ℤ × Tm × Rest) := do
  if date.1 < 0 then pure (date.1, date.2, r)
  else
    let rest ← r.advance k
    pure (0, date.2, rest)

/-- `parse_wday(s, NULL) != -ENOENT` -/
def isWday (s : Ptr) : Except Fault Bool := do
  let ret ← parseWday s
  pure (ret ≠ -ENOENT)

def parseDateTimeDate (s : Ptr) (n : ℕ) (tm : Tm) : Except Fault (ℤ × Tm × Rest) := do
  if ← test (n ≥ 16) <&&> isWday s then
    let date ← parseDateRfc1123 s tm
    afterDate ⟨s, n⟩ date date.1.toNat
  else if ← test (n ≥ 10) <&&> isEnd s 10 then
    let date ← parseDate s 10 tm
    afterDate ⟨s, n⟩ date 10
  else if ← test (n ≥ 8) <&&> isEnd s 8 then
    let date ← parseDate s 8 tm
    afterDate ⟨s, n⟩ date 8
  else pure (-EINVAL, tm, ⟨s, n⟩)

def parseDateTime (s : Ptr) (n : ℕ) (tm : Tm) (gmtoff : ℤ) : Except Fault (ℤ × Tm × ℤ) := do
  let date ← parseDateTimeDate s n tm
  if date.1 < 0 then pure (date.1, date.2.1, gmtoff)
  else
    let rest ← date.2.2.skip (ch ' ')
    parseTime rest.s rest.n date.2.1 gmtoff

/-! ### The callers -/

def timeCtxSetDate (ctx : TimeCtx) (strDate : CString) : Except Fault (ℤ × TimeCtx) := do
  if ctx.date then pure (-EEXIST, ctx)
  else
    let r ← parseDate (Ptr.start strDate) strDate.strlen ctx.tm
    if r.1 < 0 then pure (r.1, { ctx with tm := r.2 })
    else
      let ctx := { ctx with
        tm := { r.2 with year := r.2.year - 1900, mon := r.2.mon - 1 }
        date := true }
      pure (ctx.complete, ctx)

def timeCtxSetHour (ctx : TimeCtx) (strHour : CString) : Except Fault (ℤ × TimeCtx) := do
  if ctx.hour then pure (-EEXIST, ctx)
  else
    let r ← parseTime (Ptr.start strHour) strHour.strlen ctx.tm ctx.gmtoff
    if r.1 < 0 then pure (r.1, { ctx with tm := r.2.1, gmtoff := r.2.2 })
    else
      let ctx := { ctx with tm := r.2.1, gmtoff := r.2.2, hour := true }
      pure (ctx.complete, ctx)

def timeCtxSetTime (ctx : TimeCtx) (strTime : CString) : Except Fault (ℤ × TimeCtx) := do
  if ctx.date ∨ ctx.hour then pure (-EEXIST, ctx)
  else
    let r ← parseDateTime (Ptr.start strTime) strTime.strlen ctx.tm ctx.gmtoff
    if r.1 < 0 then pure (r.1, { ctx with tm := r.2.1, gmtoff := r.2.2 })
    else
      pure (0, { ctx with
        tm := { r.2.1 with year := r.2.1.year - 1900, mon := r.2.1.mon - 1 }
        gmtoff := r.2.2
        date := true
        hour := true })

def timeLocalParse (behind : Mem UInt64) (tm : Tm) (gmtoff : ℤ) (s : CString) :
    Except Fault (ℤ × Option Local) := do
  let r ← parseDateTime (Ptr.start s) s.strlen tm gmtoff
  if r.1 < 0 then pure (r.1, none)
  else
    let tm := { r.2.1 with year := r.2.1.year - 1900, mon := r.2.1.mon - 1 }
    pure (0, some (localOf behind tm r.2.2))

end Futils.Systime.Guarded
