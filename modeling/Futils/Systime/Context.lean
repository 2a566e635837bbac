import Futils.Systime.MonthIndex
import Futils.Systime.Strict

/-!
# Time contexts

The date and the hour may come in any order, and each may be refused before it is accepted.  What a
context then has is what `time_local_parse` reads in the text of both.  For a month from 15 on the epoch
takes in what lies behind the table of the months, which each call finds anew.
-/

namespace Futils.Systime

open Futils.Lib

variable {r r' : Rest} {s d h x : CString} {l f : List UInt8} {c c₀ c₁ : UInt8}

/-! ### Parsers read the text -/

lemma length_of_text (htext : r'.text = r.text) : r'.2 = r.2 := by
  have hlen := congrArg List.length htext
  unfold Rest.text at hlen
  rwa [Mem.length_load, Mem.length_load] at hlen

lemma mem_of_text (htext : r'.text = r.text) {i : ℕ} (hi : i < r.2) : r'.1 i = r.1 i := by
  have hlen := length_of_text htext
  have hget := congrArg (fun t => t[i]?) htext
  unfold Rest.text at hget
  rw [List.getElem?_eq_getElem (by rw [Mem.length_load]; omega),
    List.getElem?_eq_getElem (by rw [Mem.length_load]; omega), Mem.getElem_load, Mem.getElem_load,
    Nat.zero_add] at hget
  exact Option.some.inj hget

/-- A block within the text is the same. -/
lemma load_of_text (htext : r'.text = r.text) {i k : ℕ} (hik : i + k ≤ r.2) :
    r'.1.load i k = r.1.load i k :=
  Mem.load_congr fun _ _ hj => mem_of_text htext (by omega)

lemma after_text (htext : r'.text = r.text) (k : ℕ) : (r'.after k).text = (r.after k).text := by
  rw [Rest.text_after, Rest.text_after, htext]

lemma skip_text (htext : r'.text = r.text) (c : UInt8) : (r'.skip c).text = (r.skip c).text := by
  have hlen := length_of_text htext
  unfold Rest.skip
  by_cases hpos : 0 < r.2
  · rw [hlen, mem_of_text htext hpos]
    split_ifs
    · have hafter := after_text htext 1
      unfold Rest.after at hafter
      rwa [hlen] at hafter
    · exact htext
  · rw [if_neg fun hc => hpos (hlen ▸ hc.1), if_neg fun hc => hpos hc.1]
    exact htext

lemma cutClock_text (htext : r'.text = r.text) {cut : ClockCut} {rest : Rest}
    (hcut : cutClock r = some (cut, rest)) :
    ∃ rest', cutClock r' = some (cut, rest') ∧ rest'.text = rest.text := by
  have hlen := length_of_text htext
  unfold cutClock at hcut ⊢
  split_ifs at hcut with hlong hshort
  · obtain ⟨rfl, rfl⟩ := Prod.mk.inj (Option.some.inj hcut)
    have hlong' := hlong
    rw [← mem_of_text htext (show 2 < r.2 by omega), ← mem_of_text htext (show 5 < r.2 by omega),
      ← hlen] at hlong'
    refine ⟨_, ?_, after_text htext 8⟩
    rw [if_pos hlong', load_of_text htext (by omega), load_of_text htext (by omega),
      load_of_text htext (by omega)]
    rfl
  · obtain ⟨rfl, rfl⟩ := Prod.mk.inj (Option.some.inj hcut)
    have hlong' := hlong
    rw [← mem_of_text htext (show 2 < r.2 by omega), ← mem_of_text htext (show 5 < r.2 by omega),
      ← hlen] at hlong'
    refine ⟨_, ?_, after_text htext 6⟩
    rw [if_neg hlong', if_pos (hlen ▸ hshort), load_of_text htext (by omega),
      load_of_text htext (by omega), load_of_text htext (by omega)]
    rfl

lemma cutZone_text (htext : r'.text = r.text) {zone : ZoneCut} (hcut : cutZone r = some zone) :
    cutZone r' = some zone := by
  have hlen := length_of_text htext
  have hmem : ∀ i < r.2, r'.1 i = r.1 i := fun i hi => mem_of_text htext hi
  have hshort : r.2 = 6 ∨ r.2 = 5 ∨ r.2 = 3 ∨ r.2 = 2 ∨ r.2 = 1 := by
    unfold cutZone at hcut
    dsimp only at hcut
    split_ifs at hcut <;> omega
  rw [← hcut]
  unfold cutZone
  -- which lengths are tested says how far the text is read
  rcases hshort with hn | hn | hn | hn | hn
  · have hhour := load_of_text htext (show 1 + 2 ≤ r.2 by omega)
    have hmin := load_of_text htext (show 4 + 2 ≤ r.2 by omega)
    simp only [hlen, hn, hmem 0 (by omega), hmem 3 (by omega), hhour, hmin, Nat.reduceEqDiff, false_and,
      if_false]
  · have hhour := load_of_text htext (show 1 + 2 ≤ r.2 by omega)
    have hmin := load_of_text htext (show 3 + 2 ≤ r.2 by omega)
    simp only [hlen, hn, hmem 0 (by omega), hhour, hmin, Nat.reduceEqDiff, false_and, if_false]
  · simp only [hlen, hn, hmem 0 (by omega), hmem 1 (by omega), hmem 2 (by omega), Nat.reduceEqDiff,
      false_and, if_false]
  · simp only [hlen, hn, hmem 0 (by omega), hmem 1 (by omega), Nat.reduceEqDiff, false_and, if_false]
  · simp only [hlen, hn, hmem 0 (by omega), Nat.reduceEqDiff, false_and, if_false]

lemma cutTime_text (htext : (r'.skip (ch 'T')).text = (r.skip (ch 'T')).text) {cut : TimeCut}
    (hcut : cutTime r = some cut) : cutTime r' = some cut := by
  unfold cutTime at hcut ⊢
  rcases hclock : cutClock (r.skip (ch 'T')) with _ | ⟨clock, rest⟩
  · rw [hclock] at hcut
    cases hcut
  · rw [hclock] at hcut
    obtain ⟨zone, hzone, rfl⟩ := Option.map_eq_some_iff.mp hcut
    obtain ⟨rest', hclock', hrest⟩ := cutClock_text htext hclock
    rw [hclock']
    dsimp only
    rw [cutZone_text (skip_text hrest (ch ' ')) hzone, Option.map_some]

lemma cutDate_congr {m m' : Mem UInt8} {n : ℕ} (h : ∀ i < n, m' i = m i) {cut : DateCut}
    (hcut : cutDate m n = some cut) : cutDate m' n = some cut := by
  have hload : ∀ {i k}, i + k ≤ n → m'.load i k = m.load i k :=
    fun hik => Mem.load_congr fun _ _ hj => h _ (by omega)
  unfold cutDate at hcut ⊢
  split_ifs at hcut with hlong hshort
  · rw [h 4 (by omega), h 7 (by omega), if_pos hlong, hload (by omega), hload (by omega),
      hload (by omega)]
    exact hcut
  · rw [if_neg fun hc => absurd hc.1 (by omega), if_pos hshort, hload (by omega), hload (by omega),
      hload (by omega)]
    exact hcut

/-! ### Fields that are readable -/

/-- A number starts with a blank, a sign or a digit. -/
lemma head_of_readable (hf : Readable (c :: f)) (hc : c ≠ 0) :
    isspace c = true ∨ c = ch '-' ∨ c = ch '+' ∨ isdigit c = true := by
  have htake : (c :: f).takeWhile (fun c => c ≠ 0) = c :: f.takeWhile (fun c => c ≠ 0) := by
    rw [List.takeWhile_cons_of_pos]
    exact decide_eq_true hc
  unfold Readable at hf
  rw [htake] at hf
  obtain ⟨blanks, sign, digits, heq, hblanks, hsign, hne, hdigits⟩ := hf.resolve_left (List.cons_ne_nil _ _)
  cases blanks with
  | cons b blanks =>
    obtain ⟨rfl, -⟩ := List.cons.inj heq
    exact .inl (hblanks c List.mem_cons_self)
  | nil =>
    rcases hsign with rfl | rfl | rfl
    · obtain ⟨d, digits, rfl⟩ := List.exists_cons_of_ne_nil hne
      obtain ⟨rfl, -⟩ := List.cons.inj heq
      exact .inr (.inr (.inr (hdigits c List.mem_cons_self)))
    · exact .inr (.inl (List.cons.inj heq).1)
    · exact .inr (.inr (.inl (List.cons.inj heq).1))

/-- A number ends with a digit. -/
lemma Numeral.last {p : List UInt8} (h : Numeral (p ++ [c])) : isdigit c = true := by
  obtain ⟨blanks, sign, digits, heq, -, -, hne, hdigits⟩ := h
  obtain ⟨q, a, rfl⟩ := (List.eq_nil_or_concat' digits).resolve_left hne
  rw [← List.append_assoc, ← List.append_assoc] at heq
  obtain rfl := List.singleton_inj.mp (List.append_inj_right' heq rfl)
  exact hdigits c (List.mem_append_right q (List.mem_singleton_self c))

/-- The second character of two is no separator. -/
lemma second_of_readable (hf : Readable [c₀, c₁]) (h₀ : c₀ ≠ 0) (h₁ : c₁ ≠ 0) :
    c₁ ≠ ch 'T' ∧ c₁ ≠ ch ' ' := by
  have htake : [c₀, c₁].takeWhile (fun c => c ≠ 0) = [c₀] ++ [c₁] := by
    simp [List.takeWhile, h₀, h₁]
  unfold Readable at hf
  rw [htake] at hf
  have hlast := isdigit_iff.mp (hf.resolve_left (List.cons_ne_nil _ _)).last
  exact ⟨ne_of_isDigit hlast rfl, ne_of_isDigit hlast rfl⟩

/-- A year is not the beginning of the name of a day. -/
lemma not_wday_of_readable {m : Mem UInt8} (hf : Readable (m.load 0 4)) (h₀ : m 0 ≠ 0) :
    parseWday m = -ENOENT := by
  have hhead := head_of_readable (f := m.load 1 3) (c := m 0) hf h₀
  unfold parseWday
  rw [if_neg]
  intro hmem
  have hno : wdayStr.all fun l =>
      !(isspace (l.headD 0) || l.headD 0 == ch '-' || l.headD 0 == ch '+' || isdigit (l.headD 0)) := by
    decide
  have hfirst := List.all_eq_true.mp hno _ hmem
  simp only [Bool.not_eq_true', Bool.or_eq_false_iff, beq_eq_false_iff_ne] at hfirst
  obtain ⟨⟨⟨hspace, hminus⟩, hplus⟩, hdigit⟩ := hfirst
  rcases hhead with h | h | h | h
  · exact absurd h (Bool.eq_false_iff.mp hspace)
  · exact hminus h
  · exact hplus h
  · exact absurd h (Bool.eq_false_iff.mp hdigit)

/-! ### A date and an hour in one text -/

/-- The text without its optional leading `T`. -/
def withoutT (l : List UInt8) : List UInt8 := if l.head? = some (ch 'T') then l.tail else l

lemma withoutT_text (r : Rest) : (r.skip (ch 'T')).text = withoutT r.text := by
  unfold withoutT
  split_ifs with hhead
  · obtain ⟨l, hl⟩ := List.head?_eq_some_iff.mp hhead
    rw [(Rest.skip_of_cons hl).2, hl, List.tail_cons]
  · rw [(Rest.skip_of_head hhead).2]

lemma hour_of_cutTime {cut : TimeCut} (hcut : cutTime r = some cut) :
    6 ≤ (r.skip (ch 'T')).2 ∧ cut.clock.hour = (r.skip (ch 'T')).1.load 0 2 := by
  unfold cutTime at hcut
  rcases hclock : cutClock (r.skip (ch 'T')) with _ | ⟨clock, rest⟩
  · rw [hclock] at hcut
    cases hcut
  · rw [hclock] at hcut
    obtain ⟨zone, -, rfl⟩ := Option.map_eq_some_iff.mp hcut
    unfold cutClock at hclock
    split_ifs at hclock with hlong hshort
    · obtain ⟨rfl, -⟩ := Prod.mk.inj (Option.some.inj hclock)
      exact ⟨by omega, rfl⟩
    · obtain ⟨rfl, -⟩ := Prod.mk.inj (Option.some.inj hclock)
      exact ⟨hshort, rfl⟩

lemma year_of_cutDate {m : Mem UInt8} {n : ℕ} {cut : DateCut} (hcut : cutDate m n = some cut) :
    (n = 10 ∨ n = 8) ∧ cut.year = m.load 0 4 := by
  unfold cutDate at hcut
  split_ifs at hcut with hlong hshort
  · obtain rfl := Option.some.inj hcut
    exact ⟨Or.inl hlong.1, rfl⟩
  · obtain rfl := Option.some.inj hcut
    exact ⟨Or.inr hshort, rfl⟩

/-- Behind a short date, the hour is where the separator of a long one would be. -/
lemma tenth_of_short {cut : TimeCut} (hcut : cutTime (h.mem, h.strlen) = some cut) (hr : cut.Readable)
    (hx : (Rest.after (Rest.after (x.mem, x.strlen) 8) 1).text = withoutT h.text) :
    x.mem 10 ≠ ch 'T' ∧ x.mem 10 ≠ ch ' ' ∧ x.mem 10 ≠ 0 := by
  obtain ⟨hsix, hhour⟩ := hour_of_cutTime hcut
  have htext := hx.trans (withoutT_text (h.mem, h.strlen)).symm
  have hnine : x.mem 9 = (Rest.skip (ch 'T') (h.mem, h.strlen)).1 0 :=
    mem_of_text (i := 0) htext (by omega)
  have hten : x.mem 10 = (Rest.skip (ch 'T') (h.mem, h.strlen)).1 1 :=
    mem_of_text (i := 1) htext (by omega)
  have hlen : x.strlen - 8 - 1 = _ := length_of_text htext
  have hread : Readable [x.mem 9, x.mem 10] := by
    have hread := hr.hour
    rw [hhour] at hread
    rw [hnine, hten]
    exact hread
  have hnul := x.ne_nul 10 (by omega)
  obtain ⟨hneT, hneSpace⟩ := second_of_readable hread (x.ne_nul 9 (by omega)) hnul
  exact ⟨hneT, hneSpace, hnul⟩

/-- **A date and an hour that are taken** are taken from the text of both. -/
lemma taken_joined {dcut : DateCut} {hcut : TimeCut} (hd : cutDate d.mem d.strlen = some dcut)
    (hdr : dcut.Readable false) (hh : cutTime (h.mem, h.strlen) = some hcut) (hhr : hcut.Readable)
    (hx : x.text = d.text ++ ch 'T' :: withoutT h.text) :
    ∃ rest, Taken x.mem x.strlen ⟨false, dcut, [], rest⟩ hcut := by
  obtain ⟨hlength, hyear⟩ := year_of_cutDate hd
  have hdlen : d.text.length = d.strlen := Mem.length_load ..
  have hskip : (Rest.skip (ch 'T') (h.mem, h.strlen)).text = withoutT h.text := withoutT_text (h.mem, h.strlen)
  obtain ⟨hle, hload, hafter⟩ := (Rest.text_eq_append (r := (x.mem, x.strlen))).mp hx
  rw [hdlen] at hle hload hafter
  obtain ⟨hpos, hT, hrest⟩ := Rest.text_cons.mp hafter
  have hsame : Rest.text (x.mem, d.strlen) = Rest.text (d.mem, d.strlen) := hload
  have hdate : ∀ i < d.strlen, x.mem i = d.mem i := fun i hi => mem_of_text hsame hi
  have hcutDate := cutDate_congr hdate hd
  have hsep : x.mem d.strlen = ch 'T' := hT
  have hwday : parseWday x.mem = -ENOENT := by
    refine not_wday_of_readable ?_ (x.ne_nul 0 (by omega))
    rw [Mem.load_congr fun i _ hi => hdate i (by omega), ← hyear]
    exact hdr.year
  have hdateTime : cutDateTimeDate x.mem x.strlen =
      some ⟨false, dcut, [], Rest.after (x.mem, x.strlen) d.strlen⟩ := by
    unfold cutDateTimeDate
    rw [if_neg fun hc => hc.2 hwday]
    rcases hlength with hten | height
    · rw [hten] at hsep hcutDate hle ⊢
      rw [if_pos ⟨hle, Or.inl hsep⟩, hcutDate]
      rfl
    · rw [height] at hsep hcutDate hle hrest ⊢
      obtain ⟨hneT, hneSpace, hnul⟩ := tenth_of_short hh hhr hrest
      have hlong : ¬ (x.strlen ≥ 10 ∧ (x.mem 10 = ch 'T' ∨ x.mem 10 = ch ' ' ∨ x.mem 10 = 0)) := by
        rintro ⟨-, hc | hc | hc⟩
        · exact hneT hc
        · exact hneSpace hc
        · exact hnul hc
      rw [if_neg hlong, if_pos ⟨hle, Or.inl hsep⟩, hcutDate]
      rfl
  have hspace : (Rest.after (x.mem, x.strlen) d.strlen).text.head? ≠ some (ch ' ') := by
    rw [hafter]
    exact (by decide : some (ch 'T') ≠ some (ch ' '))
  refine ⟨_, hdateTime, ?_, hdr, hhr⟩
  rw [(Rest.skip_of_head hspace).2]
  exact cutTime_text ((Rest.skip_of_cons hafter).2.trans hskip.symm) hh

/-! ### Calls -/

/-- A call of one of the setters of a field. -/
inductive FieldCall
  | date (s : CString)
  | hour (s : CString)

def FieldCall.run (ctx : TimeCtx) : FieldCall → ℤ × TimeCtx
  | .date s => timeCtxSetDate ctx s
  | .hour s => timeCtxSetHour ctx s

/-- The strings that were accepted. -/
structure Accepted where
  date : Option CString
  hour : Option CString

def Accepted.add (acc : Accepted) : FieldCall → Accepted
  | .date s => { acc with date := some s }
  | .hour s => { acc with hour := some s }

/-- A string for the field of the call was accepted. -/
def Accepted.Has (acc : Accepted) : FieldCall → Prop
  | .date _ => acc.date.isSome = true
  | .hour _ => acc.hour.isSome = true

/-- The string, if it is one for the date. -/
def FieldCall.takenDate : FieldCall → Option CString
  | .date s => if (parseDate s.mem s.strlen timeCtxInit.tm).1 < 0 then none else some s
  | .hour _ => none

/-- The string, if it is one for the hour. -/
def FieldCall.takenHour : FieldCall → Option CString
  | .date _ => none
  | .hour s => if (parseTime s.mem s.strlen timeCtxInit.tm 0).1 < 0 then none else some s

/-- The first strings that are a date and an hour. -/
def firstTaken (calls : List FieldCall) : Accepted :=
  ⟨calls.findSome? FieldCall.takenDate, calls.findSome? FieldCall.takenHour⟩

/-- There is a date and an hour, and the month is one from 15 on. -/
def LateCalls (calls : List FieldCall) : Prop :=
  ∃ d h, firstTaken calls = ⟨some d, some h⟩ ∧ LateDate d

instance (ret : ℤ) : Decidable (Rejects ret) := inferInstanceAs (Decidable (_ ∧ _))

/-- A call on the context, with the strings that were accepted so far. -/
def fieldStep (x : TimeCtx × Accepted) (c : FieldCall) : TimeCtx × Accepted :=
  ((c.run x.1).2, if Rejects (c.run x.1).1 then x.2 else x.2.add c)

/-- Calls on a new context. -/
def fieldRun (calls : List FieldCall) : TimeCtx × Accepted :=
  calls.foldl fieldStep (timeCtxInit, ⟨none, none⟩)

/-- What a context has of the strings that were accepted. -/
structure Agrees (ctx : TimeCtx) (acc : Accepted) : Prop where
  date : ctx.date = acc.date.isSome
  hour : ctx.hour = acc.hour.isSome
  dateFields : ∀ d, acc.date = some d → ∃ cut, cutDate d.mem d.strlen = some cut ∧ cut.Readable false ∧
    ctx.tm.year = fieldValue cut.year - 1900 ∧ ctx.tm.mon = fieldValue cut.mon - 1 ∧
    ctx.tm.mday = fieldValue cut.mday
  hourFields : ∀ h, acc.hour = some h → ∃ cut, cutTime (h.mem, h.strlen) = some cut ∧ cut.Readable ∧
    ctx.tm.hour = fieldValue cut.clock.hour ∧ ctx.tm.min = fieldValue cut.clock.min ∧
    ctx.tm.sec = fieldValue cut.clock.sec ∧ ctx.gmtoff = cut.zone.gmtoff

variable {ctx : TimeCtx} {acc : Accepted} {call : FieldCall}

/-- What a call returns, once strings were accepted. -/
def Accepted.answer (acc : Accepted) : FieldCall → ℤ
  | .date s =>
    if acc.date.isSome then -EEXIST
    else if (parseDate s.mem s.strlen timeCtxInit.tm).1 < 0 then (parseDate s.mem s.strlen timeCtxInit.tm).1
    else if acc.hour.isSome then 0 else -EINPROGRESS
  | .hour s =>
    if acc.hour.isSome then -EEXIST
    else if (parseTime s.mem s.strlen timeCtxInit.tm 0).1 < 0 then
      (parseTime s.mem s.strlen timeCtxInit.tm 0).1
    else if acc.date.isSome then 0 else -EINPROGRESS

lemma Agrees.answer (h : Agrees ctx acc) (c : FieldCall) : (c.run ctx).1 = acc.answer c := by
  cases c with
  | date s =>
    unfold FieldCall.run Accepted.answer timeCtxSetDate
    dsimp only
    rw [h.date, parseDate_ret s.mem s.strlen ctx.tm timeCtxInit.tm]
    split_ifs with hset hneg hhour
    · rfl
    · rfl
    · exact if_pos ⟨rfl, h.hour.trans hhour⟩
    · exact if_neg fun hc => hhour (h.hour.symm.trans hc.2)
  | hour s =>
    unfold FieldCall.run Accepted.answer timeCtxSetHour
    dsimp only
    rw [h.hour, parseTime_ret s.mem s.strlen ctx.tm timeCtxInit.tm ctx.gmtoff 0]
    split_ifs with hset hneg hdate
    · rfl
    · rfl
    · exact if_pos ⟨h.date.trans hdate, rfl⟩
    · exact if_neg fun hc => hdate (h.date.symm.trans hc.1)

lemma Agrees.step_date (h : Agrees ctx acc) (s : CString) :
    Agrees (fieldStep (ctx, acc) (.date s)).1 (fieldStep (ctx, acc) (.date s)).2 := by
  unfold fieldStep FieldCall.run timeCtxSetDate
  by_cases hset : ctx.date
  · simp only [if_pos hset, if_pos rejects_eexist]
    exact h
  simp only [if_neg hset]
  have hnone : acc.date = none := by
    rw [← Option.not_isSome_iff_eq_none, ← h.date]
    exact hset
  rcases parseDate_cases s.mem s.strlen ctx.tm with ⟨cut, hcut, hread⟩ | ⟨hrej, -⟩
  · rw [parseDate_of_cut hcut hread, if_neg (lt_irrefl 0), if_neg (TimeCtx.not_rejects_complete _)]
    refine ⟨rfl, h.hour, fun d hd => ?_, h.hourFields⟩
    obtain rfl := Option.some.inj hd
    exact ⟨cut, hcut, hread, rfl, rfl, rfl⟩
  · obtain ⟨hhour, hmin, hsec⟩ := parseDate_frame s.mem s.strlen ctx.tm
    rw [if_pos hrej.neg, if_pos hrej.rejects]
    refine ⟨h.date, h.hour, fun d hd => ?_, fun t ht => ?_⟩
    · rw [hnone] at hd
      cases hd
    · obtain ⟨cut, hcut, hread, hfields⟩ := h.hourFields t ht
      refine ⟨cut, hcut, hread, ?_⟩
      dsimp only
      rw [hhour, hmin, hsec]
      exact hfields

lemma Agrees.step_hour (h : Agrees ctx acc) (s : CString) :
    Agrees (fieldStep (ctx, acc) (.hour s)).1 (fieldStep (ctx, acc) (.hour s)).2 := by
  unfold fieldStep FieldCall.run timeCtxSetHour
  by_cases hset : ctx.hour
  · simp only [if_pos hset, if_pos rejects_eexist]
    exact h
  simp only [if_neg hset]
  have hnone : acc.hour = none := by
    rw [← Option.not_isSome_iff_eq_none, ← h.hour]
    exact hset
  rcases parseTime_cases s.mem s.strlen ctx.tm ctx.gmtoff with ⟨cut, hcut, hread⟩ | ⟨hrej, -⟩
  · rw [parseTime_of_cut hcut hread, if_neg (lt_irrefl 0), if_neg (TimeCtx.not_rejects_complete _)]
    refine ⟨h.date, rfl, h.dateFields, fun t ht => ?_⟩
    obtain rfl := Option.some.inj ht
    exact ⟨cut, hcut, hread, rfl, rfl, rfl, rfl⟩
  · obtain ⟨hyear, hmon, hmday⟩ := parseTime_frame s.mem s.strlen ctx.tm ctx.gmtoff
    rw [if_pos hrej.neg, if_pos hrej.rejects]
    refine ⟨h.date, h.hour, fun d hd => ?_, fun t ht => ?_⟩
    · obtain ⟨cut, hcut, hread, hfields⟩ := h.dateFields d hd
      refine ⟨cut, hcut, hread, ?_⟩
      dsimp only
      rw [hyear, hmon, hmday]
      exact hfields
    · rw [hnone] at ht
      cases ht

/-- **One call** keeps the context in step with what was accepted. -/
lemma Agrees.step {x : TimeCtx × Accepted} (h : Agrees x.1 x.2) (c : FieldCall) :
    Agrees (fieldStep x c).1 (fieldStep x c).2 := by
  cases c with
  | date s => exact h.step_date s
  | hour s => exact h.step_hour s

lemma Agrees.steps {x : TimeCtx × Accepted} (h : Agrees x.1 x.2) (calls : List FieldCall) :
    Agrees (calls.foldl fieldStep x).1 (calls.foldl fieldStep x).2 := by
  induction calls generalizing x with
  | nil => exact h
  | cons c calls ih => exact ih (h.step c)

/-- **Any calls** on a new context keep it in step. -/
lemma agrees_run (calls : List FieldCall) : Agrees (fieldRun calls).1 (fieldRun calls).2 :=
  Agrees.steps (x := (timeCtxInit, ⟨none, none⟩)) ⟨rfl, rfl, nofun, nofun⟩ calls

lemma rejects_answer_iff (held other : Option CString) {ret : ℤ} (hret : ret < 0 → Rejects ret) :
    Rejects (if held.isSome then -EEXIST else if ret < 0 then ret else if other.isSome then 0 else -EINPROGRESS) ↔
      held.isSome ∨ ret < 0 := by
  split_ifs with hheld hneg hother
  · exact iff_of_true rejects_eexist (.inl hheld)
  · exact iff_of_true (hret hneg) (.inr hneg)
  · exact iff_of_false (fun hrej => absurd hrej.1 (lt_irrefl 0)) (not_or.mpr ⟨hheld, hneg⟩)
  · exact iff_of_false (fun hrej => hrej.2 rfl) (not_or.mpr ⟨hheld, hneg⟩)

lemma rejects_parseDate (s : CString) (tm : Tm) (h : (parseDate s.mem s.strlen tm).1 < 0) :
    Rejects (parseDate s.mem s.strlen tm).1 := by
  rcases parseDate_cases s.mem s.strlen tm with ⟨cut, hcut, hread⟩ | ⟨hrej, -⟩
  · rw [parseDate_of_cut hcut hread] at h
    exact absurd h (lt_irrefl 0)
  · exact hrej.rejects

lemma rejects_parseTime (s : CString) (tm : Tm) (gmtoff : ℤ) (h : (parseTime s.mem s.strlen tm gmtoff).1 < 0) :
    Rejects (parseTime s.mem s.strlen tm gmtoff).1 := by
  rcases parseTime_cases s.mem s.strlen tm gmtoff with ⟨cut, hcut, hread⟩ | ⟨hrej, -⟩
  · rw [parseTime_of_cut hcut hread] at h
    exact absurd h (lt_irrefl 0)
  · exact hrej.rejects

/-- A call adds its string when there was none and it is one. -/
lemma Agrees.fieldStep_snd {x : TimeCtx × Accepted} (h : Agrees x.1 x.2) (c : FieldCall) :
    (fieldStep x c).2 = ⟨x.2.date.or c.takenDate, x.2.hour.or c.takenHour⟩ := by
  obtain ⟨ctx, date, hour⟩ := x
  unfold fieldStep
  rw [h.answer c]
  cases c with
  | date s =>
    unfold Accepted.answer FieldCall.takenDate FieldCall.takenHour Accepted.add
    dsimp only
    simp only [rejects_answer_iff date hour (rejects_parseDate s timeCtxInit.tm), Option.or_none]
    cases date with
    | some d => simp
    | none => by_cases hneg : (parseDate s.mem s.strlen timeCtxInit.tm).1 < 0 <;> simp [hneg]
  | hour s =>
    unfold Accepted.answer FieldCall.takenDate FieldCall.takenHour Accepted.add
    dsimp only
    simp only [rejects_answer_iff hour date (rejects_parseTime s timeCtxInit.tm 0), Option.or_none]
    cases hour with
    | some t => simp
    | none => by_cases hneg : (parseTime s.mem s.strlen timeCtxInit.tm 0).1 < 0 <;> simp [hneg]

lemma Agrees.steps_snd {x : TimeCtx × Accepted} (h : Agrees x.1 x.2) (calls : List FieldCall) :
    (calls.foldl fieldStep x).2 =
      ⟨x.2.date.or (firstTaken calls).date, x.2.hour.or (firstTaken calls).hour⟩ := by
  induction calls generalizing x with
  | nil =>
    unfold firstTaken
    rw [List.findSome?_nil, List.findSome?_nil, Option.or_none, Option.or_none, List.foldl_nil]
  | cons c calls ih =>
    have hsome : ∀ f : FieldCall → Option CString,
        (c :: calls).findSome? f = (f c).or (calls.findSome? f) := by
      intro f
      rw [List.findSome?_cons]
      cases f c <;> rfl
    rw [List.foldl_cons, ih (h.step c), h.fieldStep_snd c]
    unfold firstTaken
    rw [hsome, hsome, Option.or_assoc, Option.or_assoc]

/-- **What is accepted** are the first strings that are a date and an hour. -/
lemma accepted_eq_firstTaken (calls : List FieldCall) : (fieldRun calls).2 = firstTaken calls :=
  Agrees.steps_snd (x := (timeCtxInit, ⟨none, none⟩)) ⟨rfl, rfl, nofun, nofun⟩ calls

/-- What is accepted depends on what was accepted before only. -/
lemma accepted_congr (calls : List FieldCall) {x x' : TimeCtx × Accepted} (h : Agrees x.1 x.2)
    (h' : Agrees x'.1 x'.2) (hacc : x'.2 = x.2) :
    (calls.foldl fieldStep x').2 = (calls.foldl fieldStep x).2 := by
  induction calls generalizing x x' with
  | nil => exact hacc
  | cons c calls ih =>
    refine ih (h.step c) (h'.step c) ?_
    unfold fieldStep
    rw [h.answer c, h'.answer c, hacc]

/-! ### The local time -/

lemma localOf_congr (behind : Mem UInt64) {tm tm' : Tm} {gmtoff : ℤ} (hyear : tm'.year = tm.year)
    (hmon : tm'.mon = tm.mon) (hmday : tm'.mday = tm.mday) (hhour : tm'.hour = tm.hour)
    (hmin : tm'.min = tm.min) (hsec : tm'.sec = tm.sec) :
    localOf behind tm' gmtoff = localOf behind tm gmtoff := by
  unfold localOf tmMkepochLocal
  rw [hyear, hmon, hmday, hhour, hmin, hsec]

/-- **The context of a date and an hour** gives what is read in the text of both. -/
lemma Agrees.getLocal_eq (ha : Agrees ctx acc) (hd : acc.date = some d) (hh : acc.hour = some h)
    (hx : x.text = d.text ++ ch 'T' :: withoutT h.text) (behind : Mem UInt64) (tm : Tm) (gmtoff : ℤ) :
    timeCtxGetLocal behind ctx = timeLocalParse behind tm gmtoff x := by
  obtain ⟨dcut, hcutDate, hreadDate, hyear, hmon, hmday⟩ := ha.dateFields d hd
  obtain ⟨hcut, hcutTime, hreadTime, hhour, hmin, hsec, hgmtoff⟩ := ha.hourFields h hh
  obtain ⟨rest, htaken⟩ := taken_joined hcutDate hreadDate hcutTime hreadTime hx
  have hset : ctx.date ∧ ctx.hour := by
    rw [ha.date, ha.hour, hd, hh]
    exact ⟨rfl, rfl⟩
  unfold timeCtxGetLocal timeLocalParse
  rw [if_pos hset, parseDateTime_of_taken htaken, hgmtoff]
  exact congrArg (fun l => ((0 : ℤ), some l)) (localOf_congr behind hyear hmon hmday hhour hmin hsec)

/-- The texts that were accepted. -/
def Accepted.texts (acc : Accepted) : Option (List UInt8) × Option (List UInt8) :=
  (acc.date.map CString.text, acc.hour.map CString.text)

lemma zero_not_mem_text (s : CString) : 0 ∉ s.text := by
  intro hmem
  obtain ⟨i, hi, hzero⟩ := Mem.mem_load.mp hmem
  rw [Nat.zero_add] at hzero
  exact s.ne_nul i hi hzero

/-- There is a string with the text of a date and an hour. -/
lemma exists_joined (d h : CString) : ∃ x : CString, x.text = d.text ++ ch 'T' :: withoutT h.text := by
  have hnot : 0 ∉ d.text ++ ch 'T' :: withoutT h.text := by
    rw [List.mem_append, List.mem_cons, not_or, not_or]
    refine ⟨zero_not_mem_text d, by decide, fun hmem => zero_not_mem_text h ?_⟩
    unfold withoutT at hmem
    split_ifs at hmem
    · exact List.mem_of_mem_tail hmem
    · exact hmem
  exact ⟨CString.stored (fun _ => 0) _ hnot, CString.text_stored ..⟩

/-- **The local time depends on the texts only.** -/
lemma Agrees.getLocal_congr {ctx' : TimeCtx} {acc' : Accepted} (ha : Agrees ctx acc)
    (ha' : Agrees ctx' acc') (htexts : acc'.texts = acc.texts) (behind : Mem UInt64) :
    timeCtxGetLocal behind ctx' = timeCtxGetLocal behind ctx := by
  obtain ⟨hdates, hhours⟩ := Prod.mk.inj htexts
  have hdate : ctx'.date = ctx.date := by
    rw [ha.date, ha'.date, ← Option.isSome_map, hdates, Option.isSome_map]
  have hhour : ctx'.hour = ctx.hour := by
    rw [ha.hour, ha'.hour, ← Option.isSome_map, hhours, Option.isSome_map]
  by_cases hset : ctx.date ∧ ctx.hour
  · obtain ⟨d, hd⟩ := Option.isSome_iff_exists.mp (ha.date ▸ hset.1)
    obtain ⟨h, hh⟩ := Option.isSome_iff_exists.mp (ha.hour ▸ hset.2)
    rw [hd, Option.map_some] at hdates
    rw [hh, Option.map_some] at hhours
    obtain ⟨d', hd', htextDate⟩ := Option.map_eq_some_iff.mp hdates
    obtain ⟨h', hh', htextHour⟩ := Option.map_eq_some_iff.mp hhours
    obtain ⟨x, hx⟩ := exists_joined d h
    rw [ha.getLocal_eq hd hh hx behind timeCtxInit.tm 0]
    rw [← htextDate, ← htextHour] at hx
    exact ha'.getLocal_eq hd' hh' hx behind timeCtxInit.tm 0
  · unfold timeCtxGetLocal
    rw [if_neg hset, if_neg (hdate ▸ hhour ▸ hset)]

/-! ### What lies behind the table -/

/-- The epoch takes in the entry of the table as so many days. -/
lemma tmMkepochLocal_entry (tm : Tm) (gmtoff : ℤ) : ∃ c, ∀ behind, (tmMkepochLocal behind tm gmtoff).1 =
    c + 86400 * cumulativeNbDayPerMonth.getD (monthIndex (tm.mon + 1)) (behind (monthIndex (tm.mon + 1))) := by
  obtain ⟨year, hyear⟩ : ∃ year, year = if (UInt32.ofInt (tm.mon + 1) - 2).toInt32.toInt ≤ 0 then
      UInt32.ofInt (tm.year + 1900) - 1 else UInt32.ofInt (tm.year + 1900) := ⟨_, rfl⟩
  refine ⟨((((year / 4 - year / 100 + year / 400).toUInt64 + (year * 365).toUInt64 +
    (UInt32.ofInt tm.mday).toUInt64 - nbDay1970) * 24 + (UInt32.ofInt tm.hour).toUInt64) * 60 +
      (UInt32.ofInt tm.min).toUInt64) * 60 + (UInt32.ofInt tm.sec).toUInt64 - UInt64.ofInt gmtoff, ?_⟩
  intro behind
  rw [hyear]
  unfold tmMkepochLocal monthIndex
  dsimp only
  split_ifs <;> grind

/-- Within the table it does not matter what lies behind it. -/
lemma localOf_of_index {tm : Tm} {gmtoff : ℤ} (h : monthIndex (tm.mon + 1) ≤ 12) (behind behind' : Mem UInt64) :
    localOf behind' tm gmtoff = localOf behind tm gmtoff := by
  obtain ⟨c, hc⟩ := tmMkepochLocal_entry tm gmtoff
  have hlt : monthIndex (tm.mon + 1) < cumulativeNbDayPerMonth.length := Nat.lt_succ_of_le h
  unfold localOf
  dsimp only
  rw [tmMkepochLocal_index, tmMkepochLocal_index, hc, hc, List.getD_eq_getElem _ _ hlt, List.getD_eq_getElem _ _ hlt]

/-- Outside of the table it does. -/
lemma localOf_ne_of_index {tm : Tm} {gmtoff : ℤ} (h : 12 < monthIndex (tm.mon + 1)) :
    localOf (fun _ => 0) tm gmtoff ≠ localOf (fun _ => 1) tm gmtoff := by
  obtain ⟨c, hc⟩ := tmMkepochLocal_entry tm gmtoff
  have hle : cumulativeNbDayPerMonth.length ≤ monthIndex (tm.mon + 1) := h
  intro hsame
  have hepoch : (tmMkepochLocal (fun _ => 0) tm gmtoff).1 = (tmMkepochLocal (fun _ => 1) tm gmtoff).1 :=
    congrArg Local.epochSec hsame
  rw [hc, hc, List.getD_eq_default _ _ hle, List.getD_eq_default _ _ hle] at hepoch
  have hdays : (86400 : UInt64) * 0 = 86400 * 1 := by grind
  exact absurd hdays (by decide)

/-- The month of a context that is complete is that of the date that it accepted. -/
lemma Agrees.late_iff (ha : Agrees ctx acc) (hd : acc.date = some d) :
    12 < monthIndex (ctx.tm.mon + 1) ↔ LateDate d := by
  obtain ⟨cut, hcut, hread, -, hmon, -⟩ := ha.dateFields d hd
  obtain ⟨hlow, hhigh⟩ := fieldValue_two_bounds (length_of_cutDate hcut).2.1
  rw [hmon, Int.sub_add_cancel, ← Nat.not_le, monthIndex_le_iff hlow hhigh]
  constructor
  · intro hlate
    exact ⟨cut, hcut, hread, by omega⟩
  · rintro ⟨cut', hcut', -, hlate⟩
    obtain rfl := Option.some_inj.mp (hcut'.symm.trans hcut)
    omega

/-- Calls with no late month give the same local time whatever lies behind the table. -/
lemma getLocal_of_not_late {calls : List FieldCall} (hlate : ¬ LateCalls calls) (behind behind' : Mem UInt64) :
    timeCtxGetLocal behind' (fieldRun calls).1 = timeCtxGetLocal behind (fieldRun calls).1 := by
  have ha := agrees_run calls
  rw [accepted_eq_firstTaken] at ha
  unfold timeCtxGetLocal
  split_ifs with hset
  · obtain ⟨d, hd⟩ := Option.isSome_iff_exists.mp (ha.date ▸ hset.1)
    obtain ⟨h, hh⟩ := Option.isSome_iff_exists.mp (ha.hour ▸ hset.2)
    have hindex : monthIndex ((fieldRun calls).1.tm.mon + 1) ≤ 12 := by
      rw [← Nat.not_lt, ha.late_iff hd]
      exact fun hld => hlate ⟨d, h, Accepted.mk.injEq .. ▸ ⟨hd, hh⟩, hld⟩
    rw [localOf_of_index hindex behind behind']
  · rfl

/-! ### Any order -/

/-- **The order of the messages does not matter** for the calls, whatever each reading finds behind the
table.  The context is complete when a date and an hour were accepted; a field that was accepted stays;
strings that are refused leave no trace; and the local time is that of the text of both. -/
def OrderFree (calls : List FieldCall) : Prop :=
  ∀ behind behind' : Mem UInt64,
    ((timeCtxGetLocal behind (fieldRun calls).1).1 =
      if (fieldRun calls).2.date.isSome ∧ (fieldRun calls).2.hour.isSome then 0 else -EINPROGRESS) ∧
    (∀ c, (fieldRun calls).2.Has c → c.run (fieldRun calls).1 = (-EEXIST, (fieldRun calls).1)) ∧
    (∀ pre c post, calls = pre ++ c :: post → Rejects (c.run (fieldRun pre).1).1 →
      (fieldRun (pre ++ post)).2 = (fieldRun calls).2 ∧
      timeCtxGetLocal behind' (fieldRun (pre ++ post)).1 = timeCtxGetLocal behind (fieldRun calls).1 ∧
      ∀ c' : FieldCall, (c'.run (fieldRun (pre ++ post)).1).1 = (c'.run (fieldRun calls).1).1) ∧
    (∀ calls', (fieldRun calls').2.texts = (fieldRun calls).2.texts →
      timeCtxGetLocal behind' (fieldRun calls').1 = timeCtxGetLocal behind (fieldRun calls).1) ∧
    ∀ d h x, (fieldRun calls).2 = ⟨some d, some h⟩ → x.text = d.text ++ ch 'T' :: withoutT h.text →
      ∀ tm gmtoff, timeCtxGetLocal behind (fieldRun calls).1 = timeLocalParse behind' tm gmtoff x

lemma orderFree_of_not_late {calls : List FieldCall} (hlate : ¬ LateCalls calls) : OrderFree calls := by
  intro behind behind'
  have hagrees := agrees_run calls
  have hsame := getLocal_of_not_late hlate behind behind'
  refine ⟨?_, fun c hc => ?_, ?_, fun calls' htexts => ?_, fun d h x hacc hx tm gmtoff => ?_⟩
  · unfold timeCtxGetLocal
    rw [hagrees.date, hagrees.hour]
    split_ifs <;> rfl
  · cases c with
    | date s => exact if_pos (hagrees.date.trans hc)
    | hour s => exact if_pos (hagrees.hour.trans hc)
  · rintro pre c post rfl hrej
    have hpre := agrees_run pre
    have hacc : (fieldRun (pre ++ post)).2 = (fieldRun (pre ++ c :: post)).2 := by
      unfold fieldRun
      rw [List.foldl_append, List.foldl_append, List.foldl_cons]
      exact accepted_congr post (hpre.step c) hpre (if_pos hrej).symm
    have hrest := agrees_run (pre ++ post)
    refine ⟨hacc, (hagrees.getLocal_congr hrest (by rw [hacc]) behind').trans hsame, fun c' => ?_⟩
    rw [hrest.answer c', hagrees.answer c', hacc]
  · exact (hagrees.getLocal_congr (agrees_run calls') htexts behind').trans hsame
  · have hboth := hagrees.getLocal_eq (congrArg Accepted.date hacc) (congrArg Accepted.hour hacc) hx behind' tm gmtoff
    exact hsame.symm.trans hboth

/-- With a late month, not even the same calls give the same local time. -/
lemma not_orderFree_of_late {calls : List FieldCall} (hlate : LateCalls calls) : ¬ OrderFree calls := by
  obtain ⟨d, h, hacc, hld⟩ := hlate
  have ha := agrees_run calls
  rw [accepted_eq_firstTaken, hacc] at ha
  have hset : (fieldRun calls).1.date ∧ (fieldRun calls).1.hour := ⟨ha.date, ha.hour⟩
  intro hfree
  obtain ⟨-, -, -, hsame, -⟩ := hfree (fun _ => 1) fun _ => 0
  have hlocal := hsame calls rfl
  unfold timeCtxGetLocal at hlocal
  rw [if_pos hset, if_pos hset] at hlocal
  exact localOf_ne_of_index ((ha.late_iff rfl).mpr hld) (Option.some.inj (Prod.mk.inj hlocal).2)

/-- **The order of the messages does not matter** if and only if the date is not of a month from 15 on. -/
theorem time_ctx_order_free_iff (calls : List FieldCall) : OrderFree calls ↔ ¬ LateCalls calls :=
  ⟨fun hfree hlate => not_orderFree_of_late hlate hfree, orderFree_of_not_late⟩

/-- `2018-03-01` -/
def firstOfMarch : CString :=
  CString.stored (fun _ => 0) (chars ['2', '0', '1', '8', '-', '0', '3', '-', '0', '1']) (by decide)

/-- `T12:30:00+0100` -/
def halfPastNoon : CString :=
  CString.stored (fun _ => 0) (chars ['T', '1', '2', ':', '3', '0', ':', '0', '0', '+', '0', '1', '0', '0']) (by decide)

/-- The date and then the hour, and the hour and then the date with a string before it that is refused. -/
theorem time_ctx_order_free_march :
    timeCtxGetLocal (fun _ => 0) (fieldRun [.date firstOfMarch, .hour halfPastNoon]).1 =
        (0, some ⟨1519903800, 3600, 1⟩) ∧
      timeCtxGetLocal (fun _ => 1) (fieldRun [.hour halfPastNoon, .date halfPastNoon, .date firstOfMarch]).1 =
        (0, some ⟨1519903800, 3600, 1⟩) ∧
      OrderFree [.date firstOfMarch, .hour halfPastNoon] := by
  refine ⟨rfl, rfl, (time_ctx_order_free_iff _).mpr ?_⟩
  rintro ⟨d, h, hfirst, cut, hcut, -, hlate⟩
  have hd : some firstOfMarch = some d := congrArg Accepted.date hfirst
  obtain rfl := Option.some.inj hd
  have hmonth : (cutDate firstOfMarch.mem firstOfMarch.strlen).map (fun cut => fieldValue cut.mon) = some 3 := rfl
  rw [hcut] at hmonth
  have hthree : fieldValue cut.mon = 3 := Option.some.inj hmonth
  omega

/-- `2018-15-01` -/
def fifteenthMonth : CString :=
  CString.stored (fun _ => 0) (chars ['2', '0', '1', '8', '-', '1', '5', '-', '0', '1']) (by decide)

/-- A fifteenth month and an hour: the same calls give another epoch when something else lies behind the table. -/
theorem fifteenthMonth_not_orderFree : ¬ OrderFree [.date fifteenthMonth, .hour halfPastNoon] := by
  refine not_orderFree_of_late ⟨fifteenthMonth, halfPastNoon, rfl, _, rfl, ?_, ?_⟩
  · exact ⟨readable_iff.mpr rfl, readable_iff.mpr rfl, readable_iff.mpr rfl⟩
  · exact (by decide : (15 : ℤ) ≤ fieldValue (chars ['1', '5']))

end Futils.Systime
