import Futils.Lib.Reach
import Futils.Systime.Sloppy

/-!
# The index into the table of the months

The table has 13 entries.  The month of a date is a number of two characters that is not checked; it is
shifted by two months, and by a year more when that makes it negative.
-/

namespace Futils.Systime

open Futils.Lib

/-! ### The index -/

/-- The index for month `v`. -/
def monthIndex (v : ℤ) : ℕ :=
  let month := UInt32.ofInt v - 2
  (if month.toInt32.toInt ≤ 0 then month + 12 else month).toNat

lemma tmMkepochLocal_index (behind : Mem UInt64) (tm : Tm) (gmtoff : ℤ) :
    (tmMkepochLocal behind tm gmtoff).2 = monthIndex (tm.mon + 1) := by
  unfold tmMkepochLocal monthIndex
  dsimp only
  split_ifs <;> rfl

/-- Two characters are at most `99`, and at least `-9`. -/
lemma monthIndex_le_iff {v : ℤ} (hlow : -9 ≤ v) (hhigh : v ≤ 99) : monthIndex v ≤ 12 ↔ v ≤ 14 := by
  have hall : ∀ n : ℕ, n < 109 → (monthIndex ((n : ℤ) - 9) ≤ 12 ↔ (n : ℤ) - 9 ≤ 14) := by
    decide +kernel
  have hn := hall (v + 9).toNat (by omega)
  have hv : ((v + 9).toNat : ℤ) - 9 = v := by omega
  rwa [hv] at hn

/-! ### The months that are taken -/

variable {s : Mem UInt8} {n : ℕ} {d : LeadingDate} {cut : DateCut}

lemma fieldValue_two_bounds {f : List UInt8} (h : f.length = 2) : -9 ≤ fieldValue f ∧ fieldValue f ≤ 99 := by
  have := fieldValue_bounds (k := 1) h.le
  omega

lemma length_mon_of_cut (h : cutDateTimeDate s n = some d) (hnamed : d.named = false) :
    d.date.mon.length = 2 := by
  unfold cutDateTimeDate at h
  split_ifs at h
  · obtain ⟨r, -, rfl⟩ := Option.map_eq_some_iff.mp h
    cases hnamed
  · obtain ⟨cut, hcut, rfl⟩ := Option.map_eq_some_iff.mp h
    exact (length_of_cutDate hcut).2.1
  · obtain ⟨cut, hcut, rfl⟩ := Option.map_eq_some_iff.mp h
    exact (length_of_cutDate hcut).2.1

/-- The name of a month is one of the twelve, and a number has two characters. -/
lemma monValue_bounds (h : cutDateTimeDate s n = some d) (hread : d.date.Readable d.named) :
    -9 ≤ d.date.monValue d.named ∧ d.date.monValue d.named ≤ 99 ∧
      (d.named = true → d.date.monValue d.named ≤ 14) := by
  have hmon := hread.mon
  unfold DateCut.monValue
  cases hnamed : d.named with
  | true =>
    rw [hnamed, if_pos rfl] at hmon
    have hlt : monStr.idxOf (d.date.mon.take 3) < 12 := List.idxOf_lt_length_iff.mpr hmon
    rw [if_pos rfl]
    omega
  | false =>
    obtain ⟨hlow, hhigh⟩ := fieldValue_two_bounds (length_mon_of_cut h hnamed)
    exact ⟨hlow, hhigh, fun h => by cases h⟩

/-! ### `time_local_parse` -/

/-- A date and a time that are taken with a month from 15 on. -/
def LateDateTime (s : CString) : Prop :=
  ∃ d cut, Taken s.mem s.strlen d cut ∧ d.named = false ∧ 15 ≤ fieldValue d.date.mon

lemma late_iff {s : CString} {cut : TimeCut} (h : Taken s.mem s.strlen d cut) :
    LateDateTime s ↔ 15 ≤ d.date.monValue d.named := by
  have hbounds := monValue_bounds h.date h.dateReadable
  constructor
  · rintro ⟨d', cut', h', hnamed, hlate⟩
    obtain rfl := Option.some_inj.mp (h'.date.symm.trans h.date)
    unfold DateCut.monValue
    rw [hnamed, if_neg Bool.false_ne_true]
    exact hlate
  · intro hlate
    have hnamed : d.named = false := by
      rw [← Bool.not_eq_true]
      intro hnamed
      have := hbounds.2.2 hnamed
      omega
    unfold DateCut.monValue at hlate
    rw [hnamed, if_neg Bool.false_ne_true] at hlate
    exact ⟨d, cut, h, hnamed, hlate⟩

lemma localOf_index (behind : Mem UInt64) (tm : Tm) (gmtoff : ℤ) :
    (localOf behind tm gmtoff).index = monthIndex (tm.mon + 1) := tmMkepochLocal_index behind tm gmtoff

lemma timeLocalParse_index_iff (behind : Mem UInt64) (tm : Tm) (gmtoff : ℤ) (s : CString) :
    (∀ l, timeLocalParse behind tm gmtoff s = (0, some l) → l.index ≤ 12) ↔ ¬ LateDateTime s := by
  rcases parseDateTime_cases s.mem s.strlen tm gmtoff with ⟨d, cut, h⟩ | ⟨hrej, hno⟩
  · obtain ⟨hlow, hhigh, -⟩ := monValue_bounds h.date h.dateReadable
    have hiff : LateDateTime s ↔ ¬ monthIndex (d.date.monValue d.named) ≤ 12 := by
      rw [late_iff h, monthIndex_le_iff hlow hhigh]
      omega
    rw [hiff, not_not]
    unfold timeLocalParse
    rw [parseDateTime_of_taken h]
    constructor
    · intro hindex
      have := hindex _ rfl
      rwa [localOf_index, Int.sub_add_cancel] at this
    · rintro hindex l hl
      cases hl
      rw [localOf_index, Int.sub_add_cancel]
      exact hindex
  · refine iff_of_true ?_ fun ⟨d, cut, h, _⟩ => hno d cut h
    intro l hl
    unfold timeLocalParse at hl
    rw [if_pos hrej.neg] at hl
    cases (Prod.mk.inj hl).2

/-! ### Time contexts -/

/-- A date that is taken with a month from 15 on. -/
def LateDate (s : CString) : Prop :=
  ∃ cut, cutDate s.mem s.strlen = some cut ∧ cut.Readable false ∧ 15 ≤ fieldValue cut.mon

/-- A call of one of the setters. -/
inductive SetCall
  | date (s : CString)
  | hour (s : CString)
  | time (s : CString)

/-- The context after a call, whatever it returned. -/
def SetCall.run (ctx : TimeCtx) : SetCall → TimeCtx
  | .date s => (timeCtxSetDate ctx s).2
  | .hour s => (timeCtxSetHour ctx s).2
  | .time s => (timeCtxSetTime ctx s).2

/-- The call sets a date with a month from 15 on. -/
def SetCall.Late (ctx : TimeCtx) : SetCall → Prop
  | .date s => ¬ ctx.date ∧ LateDate s
  | .hour _ => False
  | .time s => ¬ (ctx.date ∨ ctx.hour) ∧ LateDateTime s

/-- A date that is set has a month of the table. -/
def MonthInv (ctx : TimeCtx) : Prop := ctx.date → -9 ≤ ctx.tm.mon + 1 ∧ ctx.tm.mon + 1 ≤ 14

lemma monthInv_date {ctx : TimeCtx} {s : CString} (h : MonthInv ctx)
    (hlate : ¬ (SetCall.date s).Late ctx) : MonthInv (timeCtxSetDate ctx s).2 := by
  unfold timeCtxSetDate
  by_cases hset : ctx.date
  · rw [if_pos hset]
    exact h
  rw [if_neg hset]
  rcases parseDate_cases s.mem s.strlen ctx.tm with ⟨cut, hcut, hread⟩ | ⟨hrej, -⟩
  · have hmonth : fieldValue cut.mon ≤ 14 := by
      by_contra hlt
      exact hlate ⟨hset, cut, hcut, hread, by omega⟩
    have hlow := (fieldValue_two_bounds (length_of_cutDate hcut).2.1).1
    rw [parseDate_of_cut hcut hread]
    intro _
    change -9 ≤ fieldValue cut.mon - 1 + 1 ∧ fieldValue cut.mon - 1 + 1 ≤ 14
    omega
  · rw [if_pos hrej.neg]
    exact fun hdate => absurd hdate hset

lemma monthInv_hour {ctx : TimeCtx} (s : CString) (h : MonthInv ctx) :
    MonthInv (timeCtxSetHour ctx s).2 := by
  have hmon := (parseTime_frame s.mem s.strlen ctx.tm ctx.gmtoff).2.1
  unfold timeCtxSetHour
  dsimp only
  split_ifs
  · exact h
  · intro hdate
    change -9 ≤ (parseTime s.mem s.strlen ctx.tm ctx.gmtoff).2.1.mon + 1 ∧ _
    rw [hmon]
    exact h hdate
  · intro hdate
    change -9 ≤ (parseTime s.mem s.strlen ctx.tm ctx.gmtoff).2.1.mon + 1 ∧ _
    rw [hmon]
    exact h hdate

lemma monthInv_time {ctx : TimeCtx} {s : CString} (h : MonthInv ctx)
    (hlate : ¬ (SetCall.time s).Late ctx) : MonthInv (timeCtxSetTime ctx s).2 := by
  unfold timeCtxSetTime
  by_cases hset : ctx.date ∨ ctx.hour
  · rw [if_pos hset]
    exact h
  rw [if_neg hset]
  rcases parseDateTime_cases s.mem s.strlen ctx.tm ctx.gmtoff with ⟨d, cut, hcut⟩ | ⟨hrej, -⟩
  · obtain ⟨hlow, -, -⟩ := monValue_bounds hcut.date hcut.dateReadable
    have hmonth : d.date.monValue d.named ≤ 14 := by
      by_contra hlt
      exact hlate ⟨hset, (late_iff hcut).mpr (by omega)⟩
    rw [parseDateTime_of_taken hcut]
    intro _
    change -9 ≤ d.date.monValue d.named - 1 + 1 ∧ d.date.monValue d.named - 1 + 1 ≤ 14
    omega
  · rw [if_pos hrej.neg]
    exact fun hdate => absurd (Or.inl hdate) hset

/-- The contexts that calls of the setters lead to, none of which sets a late month. -/
def ReachCtx (ctx : TimeCtx) : Prop :=
  Reach (fun ctx (call : SetCall) => some (call.run ctx)) (fun ctx call => ¬ call.Late ctx)
    timeCtxInit ctx

/-- **Calls of the setters** keep the month within the table. -/
lemma monthInv_of_reach {ctx : TimeCtx} (h : ReachCtx ctx) : MonthInv ctx := by
  refine Reach.invariant h (fun hdate => by cases hdate) ?_
  rintro ctx call ctx' hinv hlate hrun
  cases hrun
  cases call with
  | date s => exact monthInv_date hinv hlate
  | hour s => exact monthInv_hour s hinv
  | time s => exact monthInv_time hinv hlate

/-- **The table is read within its bounds** by `time_local_parse` if and only if the string has no month from
15 on, and in time contexts as long as no call sets such a month. -/
theorem index_le_iff_not_late (behind : Mem UInt64) (tm : Tm) (gmtoff : ℤ) (s : CString)
    (ctx : TimeCtx) :
    ((∀ l, timeLocalParse behind tm gmtoff s = (0, some l) → l.index ≤ 12) ↔ ¬ LateDateTime s) ∧
      (ReachCtx ctx → ∀ l, timeCtxGetLocal behind ctx = (0, some l) → l.index ≤ 12) := by
  refine ⟨timeLocalParse_index_iff behind tm gmtoff s, ?_⟩
  intro hreach l hl
  have hinv := monthInv_of_reach hreach
  unfold timeCtxGetLocal at hl
  split_ifs at hl with hset
  · cases hl
    obtain ⟨hlow, hhigh⟩ := hinv hset.1
    rw [localOf_index, monthIndex_le_iff hlow (by omega)]
    exact hhigh
  · cases hl

/-- `2018-15-01T00:00:00Z` -/
def monthFifteen : CString :=
  CString.stored (fun _ => 0) (chars ['2', '0', '1', '8', '-', '1', '5', '-', '0', '1', 'T', '0', '0', ':', '0',
    '0', ':', '0', '0', 'Z']) (by decide)

/-- A fifteenth month is taken, and the entry after the last one is read. -/
theorem monthFifteen_index :
    ∃ l, timeLocalParse (fun _ => 0) timeCtxInit.tm 0 monthFifteen = (0, some l) ∧ l.index = 13 :=
  ⟨_, rfl, by decide +kernel⟩

end Futils.Systime
