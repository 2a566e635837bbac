import Futils.Systime.Guarded
import Futils.Systime.Cut

/-!
# The parsers stay inside the string

Under the guard each parser returns what it returns without one: none of its accesses is past the end of
the string or of a local array, no array is read that is not a string, and no length wraps.
-/

namespace Futils.Systime.Guarded

open Futils.Lib

variable {s : Ptr} {n : ℕ} {f : Field} {t : List UInt8}

/-! ### Numbers and names -/

lemma parseNum_ok (h : f.text = .ok t) : parseNum f = .ok (Systime.parseNum t) := by
  unfold parseNum
  rw [h]
  rfl

lemma parseMon_ok (h : f.text = .ok t) (num : ℤ) : parseMon f num = .ok (Systime.parseMon t num) := by
  unfold parseMon
  rw [h]
  rfl

lemma parseWdayFrom_ok (h : s.Has 3) {names : List (List UInt8)}
    (hlen : ∀ name ∈ names, name.length = 3) :
    parseWdayFrom s names = .ok (if s.mem.load 0 3 ∈ names then 0 else -ENOENT) := by
  induction names with
  | nil => rfl
  | cons name names ih =>
    have hname : name.length = 3 := hlen name (List.mem_cons_self ..)
    have hstarts : s.starts 0 name = .ok (decide (s.mem.load 0 3 = name)) := by
      rw [Ptr.Has.starts (by rwa [hname, Nat.zero_add]), hname]
    rw [parseWdayFrom, hstarts, except_bind_ok, ih fun name' h' => hlen name' (List.mem_cons_of_mem _ h')]
    by_cases heq : s.mem.load 0 3 = name
    · simp only [heq, List.mem_cons_self]
      rfl
    · simp only [heq, List.mem_cons, false_or]
      rfl

lemma parseWday_ok (h : s.Has 3) : parseWday s = .ok (Systime.parseWday s.mem) :=
  parseWdayFrom_ok h (by decide)

lemma isWday_ok (h : s.Has 3) : isWday s = .ok (decide (Systime.parseWday s.mem ≠ -ENOENT)) := by
  unfold isWday
  rw [parseWday_ok h]
  rfl

/-! ### Dates -/

/-- The arrays hold what is cut out of the string. -/
structure DateFields.Hold (fields : DateFields) (cut : DateCut) : Prop where
  year : fields.year.text = .ok cut.year
  mon : fields.mon.text = .ok cut.mon
  mday : fields.mday.text = .ok cut.mday

lemma cutDate_meets (h : s.Has n) :
    Meets (cutDate s n) fun o => Option.Rel DateFields.Hold o (Systime.cutDate s.mem n) := by
  have hcond : (test (n = 10) <&&> s.is 4 (ch '-') <&&> s.is 7 (ch '-')) =
      .ok (decide (n = 10 ∧ s.mem 4 = ch '-' ∧ s.mem 7 = ch '-')) := by
    refine andM_ok rfl fun hn => ?_
    exact andM_ok (h.is (by omega) _) fun _ => h.is (by omega) _
  unfold cutDate Systime.cutDate
  refine Meets.branch hcond (fun hlong => ?_) fun hlong => ?_
  · refine (h.field (by omega) (by simp)).bind fun year hyear => ?_
    refine (h.field (by omega) (by simp)).bind fun mon hmon => ?_
    refine (h.field (by omega) (by simp)).bind fun mday hmday => ?_
    exact Meets.pure (.some ⟨hyear, hmon, hmday⟩)
  · split_ifs with hshort
    · refine (h.field (by omega) (by simp)).bind fun year hyear => ?_
      refine (h.field (by omega) (by simp)).bind fun mon hmon => ?_
      refine (h.field (by omega) (by simp)).bind fun mday hmday => ?_
      exact Meets.pure (.some ⟨hyear, hmon, hmday⟩)
    · exact Meets.pure .none

lemma parseDate_meets (h : s.Has n) (tm : Tm) :
    Meets (parseDate s n tm) (· = Systime.parseDate s.mem n tm) := by
  unfold parseDate Systime.parseDate
  refine (cutDate_meets h).bind fun o ho => ?_
  generalize Systime.cutDate s.mem n = o' at ho ⊢
  cases ho with
  | none => exact Meets.pure rfl
  | some hold =>
    refine Meets.bind_ok (parseNum_ok hold.year) (Meets.stop fun _ => ?_)
    refine Meets.bind_ok (parseNum_ok hold.mon) (Meets.stop fun _ => ?_)
    exact Meets.bind_ok (parseNum_ok hold.mday) (Meets.pure rfl)

/-! ### The date of RFC 1123 -/

/-- Two characters from the day on are in the string; the second one is the space after a day of one digit. -/
lemma cutMday_meets {offset : ℕ} (h : s.Has n) (hn : offset + 2 ≤ n) :
    Meets (cutMday s offset) fun r =>
      r.1.text = .ok (Systime.cutMday s.mem offset).1 ∧ r.2 = (Systime.cutMday s.mem offset).2 := by
  have hfirst : s.mem offset ≠ 0 := h.ne_zero (by omega)
  have hsecond : s.mem (offset + 1) ≠ 0 := h.ne_zero (by omega)
  unfold cutMday Systime.cutMday
  refine Meets.bind_ok (h.get (by omega)) (Meets.bind_ok rfl ?_)
  refine Meets.ite (h.is (by omega) _) (fun hspace => ?_) fun hspace => ?_
  · rw [if_pos hspace]
    refine Meets.bind_ok rfl (Meets.bind_ok rfl (Meets.pure ⟨?_, rfl⟩))
    exact text_of_append (l := [s.mem offset]) (by simpa using hfirst.symm) [some 0]
  · rw [if_neg hspace]
    refine Meets.bind_ok (h.get (by omega)) (Meets.bind_ok rfl (Meets.bind_ok rfl (Meets.pure ⟨?_, rfl⟩)))
    exact text_of_append (l := [s.mem offset, s.mem (offset + 1)])
      (by simpa using ⟨hfirst.symm, hsecond.symm⟩) []

lemma cutMday_le (s : Mem UInt8) (offset : ℕ) : (Systime.cutMday s offset).2 ≤ offset + 2 := by
  unfold Systime.cutMday
  split_ifs
  · exact Nat.le_succ _
  · exact le_rfl

lemma cutDateRfc1123_meets (h : s.Has 16) :
    Meets (cutDateRfc1123 s) fun o =>
      Option.Rel (fun r r' => r.1.Hold r'.1 ∧ r.2 = r'.2) o (Systime.cutDateRfc1123 s.mem) := by
  unfold cutDateRfc1123 Systime.cutDateRfc1123
  refine Meets.bind_ok (h.is (by omega) _) ?_
  by_cases hcomma : s.mem 3 = ch ','
  · simp only [hcomma, ne_eq, not_true_eq_false, decide_true, Bool.not_true, Bool.false_eq_true, if_false]
    refine (h.field (by omega) (by simp)).bind fun wday hwday => ?_
    refine Meets.bind_ok (h.get (by omega)) ?_
    -- the year is the last field in both orders, and ends at 16 after a day of two digits
    split_ifs
    · have hle := cutMday_le s.mem 5
      refine (cutMday_meets h (by omega)).bind fun mday hmday => ?_
      rw [hmday.2]
      refine (h.field (by omega) (by simp)).bind fun mon hmon => ?_
      refine (h.field (by omega) (by simp)).bind fun year hyear => ?_
      exact Meets.pure (.some ⟨⟨hyear, hmon, hmday.1⟩, rfl⟩)
    · have hle := cutMday_le s.mem 9
      refine (h.field (by omega) (by simp)).bind fun mon hmon => ?_
      refine (cutMday_meets h (by omega)).bind fun mday hmday => ?_
      rw [hmday.2]
      refine (h.field (by omega) (by simp)).bind fun year hyear => ?_
      exact Meets.pure (.some ⟨⟨hyear, hmon, hmday.1⟩, rfl⟩)
  · simp only [hcomma, ne_eq, not_false_eq_true, decide_false, Bool.not_false, if_true]
    exact Meets.pure .none

/-- A string that ends earlier is left: `parse_date_time` has to see 16 characters first. -/
example : cutDateRfc1123 (Ptr.start (CString.stored (fun _ => 0) (chars ['S', 'u', 'n', ',']) (by decide))) =
    .error (.pastEnd 5 4) := rfl

lemma parseDateRfc1123_meets (h : s.Has 16) (tm : Tm) :
    Meets (parseDateRfc1123 s tm) (· = Systime.parseDateRfc1123 s.mem tm) := by
  unfold parseDateRfc1123 Systime.parseDateRfc1123
  refine (cutDateRfc1123_meets h).bind fun o ho => ?_
  generalize Systime.cutDateRfc1123 s.mem = o' at ho ⊢
  cases ho with
  | none => exact Meets.pure rfl
  | @some r r' hold =>
    obtain ⟨cut, offset⟩ := r
    obtain ⟨hold, hoffset⟩ := hold
    obtain rfl : offset = r'.2 := hoffset
    refine Meets.bind_ok (parseNum_ok hold.year) (Meets.stop fun _ => ?_)
    refine Meets.bind_ok (parseMon_ok hold.mon _) (Meets.stop fun _ => ?_)
    exact Meets.bind_ok (parseNum_ok hold.mday) (Meets.stop fun _ => Meets.pure rfl)

lemma cutDateRfc1123_le {m : Mem UInt8} {cut : DateCut} {offset : ℕ}
    (h : Systime.cutDateRfc1123 m = some (cut, offset)) : offset ≤ 16 := by
  have hfirst := cutMday_le m 5
  have hsecond := cutMday_le m 9
  unfold Systime.cutDateRfc1123 at h
  dsimp only at h
  split_ifs at h
  · simp only [Option.some.injEq, Prod.mk.injEq] at h
    omega
  · simp only [Option.some.injEq, Prod.mk.injEq] at h
    omega

/-- A date takes up at most the 16 characters that are known to be there. -/
lemma parseDateRfc1123_le (m : Mem UInt8) (tm : Tm) : (Systime.parseDateRfc1123 m tm).1 ≤ 16 := by
  rcases Systime.parseDateRfc1123_cases m tm with ⟨⟨cut, offset⟩, hcut, hr⟩ | ⟨hrej, -⟩
  · rw [Systime.parseDateRfc1123_of_cut hcut hr]
    have hle := cutDateRfc1123_le hcut
    dsimp only
    omega
  · have hneg := hrej.neg
    omega

/-! ### Times -/

/-- The rest is the one of the parser without a guard, and is in the string. -/
structure Rest.Is (r : Rest) (rest : Systime.Rest) : Prop where
  inside : r.s.Has r.n
  eq : (r.s.mem, r.n) = rest

lemma Rest.advance_meets {r : Rest} {k : ℕ} (h : r.s.Has r.n) (hk : k ≤ r.n) :
    Meets (r.advance k) (Rest.Is · (r.s.mem.shift k, r.n - k)) :=
  Meets.bind_ok (guardedSub_ok hk) (Meets.pure ⟨h.add hk, by rw [Ptr.mem_add]⟩)

lemma Rest.skip_meets {r : Rest} (h : r.s.Has r.n) (c : UInt8) :
    Meets (r.skip c) (Rest.Is · (Systime.Rest.skip c (r.s.mem, r.n))) := by
  unfold Rest.skip Systime.Rest.skip
  refine Meets.branch (andM_ok rfl fun _ => h.is (by omega) c) (fun hskip => ?_) fun hskip => ?_
  · exact Rest.advance_meets h hskip.1
  · exact Meets.pure ⟨h, rfl⟩

structure ClockFields.Hold (fields : ClockFields) (cut : ClockCut) : Prop where
  hour : fields.hour.text = .ok cut.hour
  min : fields.min.text = .ok cut.min
  sec : fields.sec.text = .ok cut.sec

lemma cutClock_meets {r : Rest} (h : r.s.Has r.n) :
    Meets (cutClock r) fun o =>
      Option.Rel (fun r r' => r.1.Hold r'.1 ∧ r.2.Is r'.2) o (Systime.cutClock (r.s.mem, r.n)) := by
  have hcond : (test (r.n ≥ 8) <&&> r.s.is 2 (ch ':') <&&> r.s.is 5 (ch ':')) =
      .ok (decide (r.n ≥ 8 ∧ r.s.mem 2 = ch ':' ∧ r.s.mem 5 = ch ':')) := by
    refine andM_ok rfl fun hn => ?_
    exact andM_ok (h.is (by omega) _) fun _ => h.is (by omega) _
  unfold cutClock Systime.cutClock
  refine Meets.branch hcond (fun hlong => ?_) fun hlong => ?_
  · refine (h.field (by omega) (by simp)).bind fun hour hhour => ?_
    refine (h.field (by omega) (by simp)).bind fun min hmin => ?_
    refine (h.field (by omega) (by simp)).bind fun sec hsec => ?_
    refine (Rest.advance_meets h hlong.1).bind fun rest hrest => ?_
    exact Meets.pure (.some ⟨⟨hhour, hmin, hsec⟩, hrest⟩)
  · split_ifs with hshort
    · refine (h.field (by omega) (by simp)).bind fun hour hhour => ?_
      refine (h.field (by omega) (by simp)).bind fun min hmin => ?_
      refine (h.field (by omega) (by simp)).bind fun sec hsec => ?_
      refine (Rest.advance_meets h hshort).bind fun rest hrest => ?_
      exact Meets.pure (.some ⟨⟨hhour, hmin, hsec⟩, hrest⟩)
    · exact Meets.pure .none

/-! ### Time zones -/

structure ZoneFields.Hold (fields : ZoneFields) (cut : ZoneCut) : Prop where
  sign : fields.sign = cut.sign
  hour : fields.hour.text = .ok cut.hour
  min : fields.min.text = .ok cut.min

lemma zeroZone_meets : Meets zeroZone fun o => Option.Rel ZoneFields.Hold o (some Systime.zeroZone) :=
  ⟨_, rfl, .some ⟨rfl, by decide, by decide⟩⟩

lemma isSign_ok (h : s.Has n) : isSign s = .ok (decide (s.mem 0 = ch '-' ∨ s.mem 0 = ch '+')) :=
  orM_ok (h.is (Nat.zero_le _) _) fun _ => h.is (Nat.zero_le _) _

lemma cutZone_meets {r : Rest} (h : r.s.Has r.n) :
    Meets (cutZone r) fun o => Option.Rel ZoneFields.Hold o (Systime.cutZone (r.s.mem, r.n)) := by
  unfold cutZone Systime.cutZone
  dsimp only
  refine Meets.branch (andM_ok rfl fun hn => andM_ok (isSign_ok h) fun _ => h.is (by omega) _)
    (fun hlong => ?_) fun hlong => ?_
  · refine Meets.bind_ok (h.is (Nat.zero_le _) _) ?_
    refine (h.field (by omega) (by simp)).bind fun hour hhour => ?_
    refine (h.field (by omega) (by simp)).bind fun min hmin => ?_
    exact Meets.pure (.some ⟨by simp only [decide_eq_true_eq], hhour, hmin⟩)
  refine Meets.branch (andM_ok rfl fun hn => isSign_ok h) (fun hshort => ?_) fun hshort => ?_
  · refine Meets.bind_ok (h.is (Nat.zero_le _) _) ?_
    refine (h.field (by omega) (by simp)).bind fun hour hhour => ?_
    refine (h.field (by omega) (by simp)).bind fun min hmin => ?_
    exact Meets.pure (.some ⟨by simp only [decide_eq_true_eq], hhour, hmin⟩)
  -- the names of UTC are compared character by character, up to the first that differs
  refine Meets.branch (andM_ok rfl fun hn => h.is (by omega) _) (fun _ => zeroZone_meets) fun _ => ?_
  refine Meets.branch (andM_ok rfl fun hn => andM_ok (h.is (by omega) _) fun _ =>
    andM_ok (h.is (by omega) _) fun _ => h.is (by omega) _) (fun _ => zeroZone_meets) fun _ => ?_
  refine Meets.branch (andM_ok rfl fun hn => andM_ok (h.is (by omega) _) fun _ => h.is (by omega) _)
    (fun _ => zeroZone_meets) fun _ => ?_
  refine Meets.branch (andM_ok rfl fun hn => andM_ok (h.is (by omega) _) fun _ =>
    andM_ok (h.is (by omega) _) fun _ => h.is (by omega) _) (fun _ => zeroZone_meets) fun _ => ?_
  exact Meets.pure .none

lemma parseTime_meets (h : s.Has n) (tm : Tm) (gmtoff : ℤ) :
    Meets (parseTime s n tm gmtoff) (· = Systime.parseTime s.mem n tm gmtoff) := by
  unfold parseTime Systime.parseTime
  refine (Rest.skip_meets (r := ⟨s, n⟩) h _).bind fun start hstart => ?_
  obtain ⟨hin, hrest⟩ := hstart
  rw [← hrest]
  refine (cutClock_meets hin).bind fun o ho => ?_
  generalize Systime.cutClock (start.s.mem, start.n) = o' at ho ⊢
  cases ho with
  | none => exact Meets.pure rfl
  | @some r r' hold =>
    obtain ⟨cut, rest⟩ := r
    obtain ⟨cut', _⟩ := r'
    obtain ⟨hold, hin, rfl⟩ := hold
    refine Meets.bind_ok (parseNum_ok hold.hour) (Meets.stop fun _ => ?_)
    refine Meets.bind_ok (parseNum_ok hold.min) (Meets.stop fun _ => ?_)
    refine Meets.bind_ok (parseNum_ok hold.sec) (Meets.stop fun _ => ?_)
    refine (Rest.skip_meets hin _).bind fun rest' hrest' => ?_
    obtain ⟨hin', hrest'⟩ := hrest'
    rw [← hrest']
    refine (cutZone_meets hin').bind fun zone hzone => ?_
    generalize Systime.cutZone (rest'.s.mem, rest'.n) = zone' at hzone ⊢
    cases hzone with
    | none => exact Meets.pure rfl
    | some hold =>
      refine Meets.bind_ok (parseNum_ok hold.hour) (Meets.stop fun _ => ?_)
      refine Meets.bind_ok (parseNum_ok hold.min) (Meets.stop fun _ => ?_)
      exact Meets.pure (by rw [hold.sign])

/-! ### Dates and times -/

lemma isEnd_ok {i : ℕ} (h : s.Has n) (hi : i ≤ n) :
    isEnd s i = .ok (decide (s.mem i = ch 'T' ∨ s.mem i = ch ' ' ∨ s.mem i = 0)) :=
  orM_ok (h.is hi _) fun _ => orM_ok (h.is hi _) fun _ => h.is hi _

/-- The same return value and the same date, and the same rest inside the string. -/
structure DateRun (r : ℤ × Tm × Rest) (r' : ℤ × Tm × Systime.Rest) : Prop where
  ret : r.1 = r'.1
  tm : r.2.1 = r'.2.1
  rest : r.2.2.Is r'.2.2

lemma afterDate_meets {date : ℤ × Tm} {k : ℕ} (h : s.Has n) (hk : 0 ≤ date.1 → k ≤ n) :
    Meets (afterDate ⟨s, n⟩ date k)
      (DateRun · (if date.1 < 0 then (date.1, date.2, (s.mem, n))
        else (0, date.2, (s.mem.shift k, n - k)))) := by
  unfold afterDate
  split_ifs with hneg
  · exact Meets.pure ⟨rfl, rfl, h, rfl⟩
  · refine (Rest.advance_meets h (hk (not_lt.mp hneg))).bind fun rest hrest => ?_
    exact Meets.pure ⟨rfl, rfl, hrest⟩

lemma parseDateTimeDate_meets (h : s.Has n) (tm : Tm) :
    Meets (parseDateTimeDate s n tm) (DateRun · (Systime.parseDateTimeDate s.mem n tm)) := by
  unfold parseDateTimeDate Systime.parseDateTimeDate
  refine Meets.branch (andM_ok rfl fun hn => isWday_ok (h.le (by omega))) (fun hnamed => ?_) fun hnamed => ?_
  · refine Meets.bind_ok (parseDateRfc1123_meets (h.le hnamed.1) tm).eq (afterDate_meets h fun _ => ?_)
    have hle := parseDateRfc1123_le s.mem tm
    have hn := hnamed.1
    omega
  refine Meets.branch (andM_ok rfl fun hn => isEnd_ok h hn) (fun hlong => ?_) fun hlong => ?_
  · exact Meets.bind_ok (parseDate_meets (h.le hlong.1) tm).eq (afterDate_meets h fun _ => hlong.1)
  refine Meets.branch (andM_ok rfl fun hn => isEnd_ok h hn) (fun hshort => ?_) fun hshort => ?_
  · exact Meets.bind_ok (parseDate_meets (h.le hshort.1) tm).eq (afterDate_meets h fun _ => hshort.1)
  · exact Meets.pure ⟨rfl, rfl, h, rfl⟩

lemma parseDateTime_meets (h : s.Has n) (tm : Tm) (gmtoff : ℤ) :
    Meets (parseDateTime s n tm gmtoff) (· = Systime.parseDateTime s.mem n tm gmtoff) := by
  unfold parseDateTime Systime.parseDateTime
  refine (parseDateTimeDate_meets h tm).bind fun date hdate => ?_
  generalize Systime.parseDateTimeDate s.mem n tm = date' at hdate ⊢
  obtain ⟨ret, tm', rest⟩ := date
  obtain ⟨ret', tm'', rest'⟩ := date'
  obtain ⟨hret, htm, hin, hrest⟩ := hdate
  dsimp only at hret htm hin hrest
  subst hret htm hrest
  refine Meets.stop fun _ => ?_
  refine (Rest.skip_meets hin _).bind fun rest' hrest' => ?_
  obtain ⟨hin', hrest'⟩ := hrest'
  dsimp only
  rw [← hrest']
  exact parseTime_meets hin' _ _

/-! ### The callers -/

lemma parseDate_start (str : CString) (tm : Tm) :
    parseDate (Ptr.start str) str.strlen tm = .ok (Systime.parseDate str.mem str.strlen tm) := by
  have h := (parseDate_meets (Ptr.has_start str) tm).eq
  rwa [Ptr.mem_start] at h

lemma parseTime_start (str : CString) (tm : Tm) (gmtoff : ℤ) :
    parseTime (Ptr.start str) str.strlen tm gmtoff =
      .ok (Systime.parseTime str.mem str.strlen tm gmtoff) := by
  have h := (parseTime_meets (Ptr.has_start str) tm gmtoff).eq
  rwa [Ptr.mem_start] at h

lemma parseDateTime_start (str : CString) (tm : Tm) (gmtoff : ℤ) :
    parseDateTime (Ptr.start str) str.strlen tm gmtoff =
      .ok (Systime.parseDateTime str.mem str.strlen tm gmtoff) := by
  have h := (parseDateTime_meets (Ptr.has_start str) tm gmtoff).eq
  rwa [Ptr.mem_start] at h

lemma timeCtxSetDate_meets (ctx : TimeCtx) (strDate : CString) :
    Meets (timeCtxSetDate ctx strDate) (· = Systime.timeCtxSetDate ctx strDate) := by
  unfold timeCtxSetDate Systime.timeCtxSetDate
  refine Meets.stop fun _ => ?_
  exact Meets.bind_ok (parseDate_start strDate ctx.tm) (Meets.stop fun _ => Meets.pure rfl)

lemma timeCtxSetHour_meets (ctx : TimeCtx) (strHour : CString) :
    Meets (timeCtxSetHour ctx strHour) (· = Systime.timeCtxSetHour ctx strHour) := by
  unfold timeCtxSetHour Systime.timeCtxSetHour
  refine Meets.stop fun _ => ?_
  exact Meets.bind_ok (parseTime_start strHour ctx.tm ctx.gmtoff) (Meets.stop fun _ => Meets.pure rfl)

lemma timeCtxSetTime_meets (ctx : TimeCtx) (strTime : CString) :
    Meets (timeCtxSetTime ctx strTime) (· = Systime.timeCtxSetTime ctx strTime) := by
  unfold timeCtxSetTime Systime.timeCtxSetTime
  refine Meets.stop fun _ => ?_
  exact Meets.bind_ok (parseDateTime_start strTime ctx.tm ctx.gmtoff) (Meets.stop fun _ => Meets.pure rfl)

lemma timeLocalParse_meets (behind : Mem UInt64) (tm : Tm) (gmtoff : ℤ) (str : CString) :
    Meets (timeLocalParse behind tm gmtoff str) (· = Systime.timeLocalParse behind tm gmtoff str) := by
  unfold timeLocalParse Systime.timeLocalParse
  exact Meets.bind_ok (parseDateTime_start str tm gmtoff) (Meets.stop fun _ => Meets.pure rfl)

/-- **The parsers stay inside the string**: on every string, each of the four functions runs under the guard
without a fault and returns what it returns without the guard. -/
theorem parsers_stay_inside (str : CString) :
    (∀ behind tm gmtoff,
        timeLocalParse behind tm gmtoff str = .ok (Systime.timeLocalParse behind tm gmtoff str)) ∧
      ∀ ctx, timeCtxSetTime ctx str = .ok (Systime.timeCtxSetTime ctx str) ∧
        timeCtxSetDate ctx str = .ok (Systime.timeCtxSetDate ctx str) ∧
        timeCtxSetHour ctx str = .ok (Systime.timeCtxSetHour ctx str) := by
  refine ⟨fun behind tm gmtoff => (timeLocalParse_meets behind tm gmtoff str).eq, fun ctx => ⟨?_, ?_, ?_⟩⟩
  · exact (timeCtxSetTime_meets ctx str).eq
  · exact (timeCtxSetDate_meets ctx str).eq
  · exact (timeCtxSetHour_meets ctx str).eq

end Futils.Systime.Guarded
