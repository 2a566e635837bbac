import Futils.Systime.Sloppy

/-!
# Where the parsers are strict

A string that is not sloppy is either documented or refused, by each of the four functions that take
strings.
-/

namespace Futils.Systime

open Futils.Lib

/-- A function refuses a string; `-EINPROGRESS` is what the setters return when they have set a field. -/
def Rejects (ret : ℤ) : Prop := ret < 0 ∧ ret ≠ -EINPROGRESS

lemma Rejected.rejects {ret : ℤ} (h : Rejected ret) : Rejects ret := by
  rcases h with rfl | rfl <;> exact ⟨by decide, by decide⟩

lemma not_rejects_zero : ¬ Rejects 0 := fun h => lt_irrefl 0 h.1

lemma TimeCtx.not_rejects_complete (ctx : TimeCtx) : ¬ Rejects ctx.complete := by
  unfold complete
  split_ifs
  · exact not_rejects_zero
  · exact fun h => h.2 rfl

/-! ### Accepted strings -/

lemma grammar_of_taken {s : CString} {d : LeadingDate} {cut : TimeCut}
    (h : Taken s.mem s.strlen d cut) (hd : ¬ d.Sloppy) (hcut : ¬ cut.Sloppy) : Grammar s.text := by
  obtain ⟨f, t, hfits, hsep, hspace, htext⟩ :=
    text_of_cutDateTimeDate (r := (s.mem, s.strlen)) h.date h.dateReadable hd
  obtain ⟨g, c, o, hzone, htime⟩ := text_of_cutTime h.time hcut
  refine ⟨⟨f, d.rest.sep, g⟩, ⟨t, c, o⟩, ⟨hfits, hsep, hzone⟩, hspace, ?_⟩
  change Rest.text (s.mem, s.strlen) = f.text t ++ d.rest.sep ++ g.text c o
  rw [htext, d.rest.text_sep, ← htime, List.append_assoc]
  rfl

lemma not_sloppy_of_grammar {s : CString} (h : Grammar s.text) : ¬ SloppyDateTime s := by
  obtain ⟨p, t, hfits, hspace, htext⟩ := h
  obtain ⟨d, cut, hd, hcut, hnamed, hgaps, hsep, hspells, hcutSpells⟩ :=
    cut_of_text (r := (s.mem, s.strlen)) hfits htext
  rintro ⟨d', cut', htaken, hsloppy⟩
  have hd' : d = d' := Option.some_inj.mp (hd.symm.trans htaken.date)
  subst hd'
  have hcut' : cut = cut' := Option.some_inj.mp (hcut.symm.trans htaken.time)
  subst hcut'
  rcases hsloppy with (hdate | ⟨c, hc, hne⟩ | hsep') | htime
  · exact hspells.not_sloppy hdate
  · exact hne (hgaps c hc)
  · rw [hnamed, hsep] at hsep'
    cases hform : p.date with
    | iso8601 form =>
      have hone : p.sep.length = 1 := by
        have := hfits.sep
        rw [hform] at this
        rcases this with h | h <;> rw [h] <;> rfl
      rw [hform] at hsep'
      exact hsep' hone
    | rfc1123 wday dayFirst width =>
      rw [hform] at hspace hsep'
      exact hsep' (hspace rfl)
  · exact hcutSpells.not_sloppy htime

lemma dateGrammar_iff {s : CString} {cut : DateCut} (h : cutDate s.mem s.strlen = some cut) :
    DateGrammar s.text ↔ ¬ cut.Sloppy false := by
  constructor
  · rintro ⟨form, t, htext⟩
    have hcut := cutDate_of_text (r := (s.mem, s.strlen)) htext
    have heq := Option.some_inj.mp (h.symm.trans hcut)
    have hspells : cut.Spells false t := by
      rw [heq]
      exact ⟨rfl, rfl, Or.inl rfl⟩
    exact hspells.not_sloppy
  · exact text_of_cutDate h

lemma timeGrammar_iff {s : CString} {cut : TimeCut} (h : cutTime (s.mem, s.strlen) = some cut) :
    TimeGrammar s.text ↔ ¬ cut.Sloppy := by
  constructor
  · rintro ⟨tee, f, t, o, hfits, htext⟩
    have hskip : (Rest.skip (ch 'T') (s.mem, s.strlen)).text = f.text t o := by
      change Rest.text (s.mem, s.strlen) = _ at htext
      cases tee with
      | true => exact (Rest.skip_of_cons htext).2
      | false =>
        obtain ⟨l, hl⟩ := f.text_eq t o
        have hhead : (Rest.text (s.mem, s.strlen)).head? ≠ some (ch 'T') := by
          rw [htext, hl, dec_two]
          exact fun h => lastDigit_ne _ rfl (Option.some_inj.mp h)
        rw [(Rest.skip_of_head hhead).2, htext]
        rfl
    obtain ⟨cut', hcut, hspells⟩ := cutTime_of_text hfits hskip
    rw [Option.some_inj.mp (h.symm.trans hcut)]
    exact hspells.not_sloppy
  · intro hclean
    obtain ⟨f, t, o, hfits, htext⟩ := text_of_cutTime h hclean
    obtain ⟨tee, htee⟩ := Rest.skipped_cases (ch 'T') (s.mem, s.strlen)
    refine ⟨tee, f, t, o, hfits, ?_⟩
    change Rest.text (s.mem, s.strlen) = _
    rw [Rest.text_skip (ch 'T'), htee, htext]

/-! ### The four functions -/

/-- A function that refuses what it cannot cut, and takes the rest. -/
lemma strict_iff (taken : Prop) {grammar rejects sloppy : Prop} (hrejects : rejects ↔ ¬ taken)
    (hgrammar : grammar → ¬ sloppy) (hclean : taken → ¬ sloppy → grammar) (hsloppy : sloppy → taken) :
    grammar ∨ rejects ↔ ¬ sloppy := by
  constructor
  · rintro (h | h)
    · exact hgrammar h
    · exact fun hs => hrejects.mp h (hsloppy hs)
  · intro hs
    by_cases ht : taken
    · exact Or.inl (hclean ht hs)
    · exact Or.inr (hrejects.mpr ht)

lemma parseDateTime_strict (s : CString) (tm : Tm) (gmtoff : ℤ) {ret : ℤ}
    (htaken : ∀ d cut, Taken s.mem s.strlen d cut → ¬ Rejects ret)
    (hrejected : Rejected (parseDateTime s.mem s.strlen tm gmtoff).1 → Rejects ret) :
    Grammar s.text ∨ Rejects ret ↔ ¬ SloppyDateTime s := by
  apply strict_iff (∃ d cut, Taken s.mem s.strlen d cut)
  · rcases parseDateTime_cases s.mem s.strlen tm gmtoff with ⟨d, cut, h⟩ | ⟨hrej, hno⟩
    · exact iff_of_false (htaken d cut h) (fun hno => hno ⟨d, cut, h⟩)
    · exact iff_of_true (hrejected hrej) (fun ⟨d, cut, h⟩ => hno d cut h)
  · exact not_sloppy_of_grammar
  · rintro ⟨d, cut, h⟩ hs
    exact grammar_of_taken h (fun hd => hs ⟨d, cut, h, Or.inl hd⟩)
      (fun hcut => hs ⟨d, cut, h, Or.inr hcut⟩)
  · rintro ⟨d, cut, h, -⟩
    exact ⟨d, cut, h⟩

lemma timeLocalParse_strict (behind : Mem UInt64) (tm : Tm) (gmtoff : ℤ) (s : CString) :
    Grammar s.text ∨ Rejects (timeLocalParse behind tm gmtoff s).1 ↔ ¬ SloppyDateTime s := by
  apply parseDateTime_strict s tm gmtoff
  · intro d cut h
    unfold timeLocalParse
    rw [parseDateTime_of_taken h]
    exact not_rejects_zero
  · intro h
    unfold timeLocalParse
    rw [if_pos h.neg]
    exact h.rejects

lemma timeCtxSetTime_strict {ctx : TimeCtx} (hctx : ¬ (ctx.date ∨ ctx.hour)) (s : CString) :
    Grammar s.text ∨ Rejects (timeCtxSetTime ctx s).1 ↔ ¬ SloppyDateTime s := by
  apply parseDateTime_strict s ctx.tm ctx.gmtoff
  · intro d cut h
    unfold timeCtxSetTime
    rw [if_neg hctx, parseDateTime_of_taken h]
    exact not_rejects_zero
  · intro h
    unfold timeCtxSetTime
    rw [if_neg hctx, if_pos h.neg]
    exact h.rejects

lemma timeCtxSetDate_strict {ctx : TimeCtx} (hctx : ¬ ctx.date) (s : CString) :
    DateGrammar s.text ∨ Rejects (timeCtxSetDate ctx s).1 ↔ ¬ SloppyDate s := by
  have hret : ∀ cut, cutDate s.mem s.strlen = some cut → cut.Readable false →
      ¬ Rejects (timeCtxSetDate ctx s).1 := by
    intro cut hcut hread
    unfold timeCtxSetDate
    rw [if_neg hctx, parseDate_of_cut hcut hread]
    exact TimeCtx.not_rejects_complete _
  apply strict_iff (∃ cut, cutDate s.mem s.strlen = some cut ∧ cut.Readable false)
  · rcases parseDate_cases s.mem s.strlen ctx.tm with ⟨cut, hcut, hread⟩ | ⟨hrej, hno⟩
    · exact iff_of_false (hret cut hcut hread) (fun hno => hno ⟨cut, hcut, hread⟩)
    · refine iff_of_true ?_ (fun ⟨cut, hcut, hread⟩ => hno cut hcut hread)
      unfold timeCtxSetDate
      rw [if_neg hctx, if_pos hrej.neg]
      exact hrej.rejects
  · rintro hgrammar ⟨cut, hcut, -, hsloppy⟩
    exact (dateGrammar_iff hcut).mp hgrammar hsloppy
  · rintro ⟨cut, hcut, hread⟩ hs
    exact (dateGrammar_iff hcut).mpr fun hsloppy => hs ⟨cut, hcut, hread, hsloppy⟩
  · rintro ⟨cut, hcut, hread, -⟩
    exact ⟨cut, hcut, hread⟩

lemma timeCtxSetHour_strict {ctx : TimeCtx} (hctx : ¬ ctx.hour) (s : CString) :
    TimeGrammar s.text ∨ Rejects (timeCtxSetHour ctx s).1 ↔ ¬ SloppyTime s := by
  have hret : ∀ cut, cutTime (s.mem, s.strlen) = some cut → cut.Readable →
      ¬ Rejects (timeCtxSetHour ctx s).1 := by
    intro cut hcut hread
    unfold timeCtxSetHour
    rw [if_neg hctx, parseTime_of_cut hcut hread]
    exact TimeCtx.not_rejects_complete _
  apply strict_iff (∃ cut, cutTime (s.mem, s.strlen) = some cut ∧ cut.Readable)
  · rcases parseTime_cases s.mem s.strlen ctx.tm ctx.gmtoff with ⟨cut, hcut, hread⟩ | ⟨hrej, hno⟩
    · exact iff_of_false (hret cut hcut hread) (fun hno => hno ⟨cut, hcut, hread⟩)
    · refine iff_of_true ?_ (fun ⟨cut, hcut, hread⟩ => hno cut hcut hread)
      unfold timeCtxSetHour
      rw [if_neg hctx, if_pos hrej.neg]
      exact hrej.rejects
  · rintro hgrammar ⟨cut, hcut, -, hsloppy⟩
    exact (timeGrammar_iff hcut).mp hgrammar hsloppy
  · rintro ⟨cut, hcut, hread⟩ hs
    exact (timeGrammar_iff hcut).mpr fun hsloppy => hs ⟨cut, hcut, hread, hsloppy⟩
  · rintro ⟨cut, hcut, hread, -⟩
    exact ⟨cut, hcut, hread⟩

/-- A setter refuses every string when its field is set already. -/
lemma or_iff_of_set {grammar rejects sloppy set : Prop} (hset : set → rejects)
    (h : ¬ set → (grammar ∨ rejects ↔ ¬ sloppy)) : grammar ∨ rejects ↔ set ∨ ¬ sloppy := by
  by_cases hs : set
  · exact iff_of_true (Or.inr (hset hs)) (Or.inl hs)
  · rw [h hs, or_iff_right hs]

lemma rejects_eexist : Rejects (-EEXIST) := ⟨by decide, by decide⟩

/-- **The parsers are strict** on the strings that are not sloppy, and on no others. -/
theorem strict_iff_not_sloppy (behind : Mem UInt64) (tm : Tm) (gmtoff : ℤ) (ctx : TimeCtx)
    (s : CString) :
    (Grammar s.text ∨ Rejects (timeLocalParse behind tm gmtoff s).1 ↔ ¬ SloppyDateTime s) ∧
      (Grammar s.text ∨ Rejects (timeCtxSetTime ctx s).1 ↔
        (ctx.date ∨ ctx.hour) ∨ ¬ SloppyDateTime s) ∧
      (DateGrammar s.text ∨ Rejects (timeCtxSetDate ctx s).1 ↔ ctx.date ∨ ¬ SloppyDate s) ∧
      (TimeGrammar s.text ∨ Rejects (timeCtxSetHour ctx s).1 ↔ ctx.hour ∨ ¬ SloppyTime s) := by
  refine ⟨timeLocalParse_strict behind tm gmtoff s, ?_, ?_, ?_⟩
  · refine or_iff_of_set (fun hset => ?_) fun hset => timeCtxSetTime_strict hset s
    unfold timeCtxSetTime
    rw [if_pos hset]
    exact rejects_eexist
  · refine or_iff_of_set (fun hset => ?_) fun hset => timeCtxSetDate_strict hset s
    unfold timeCtxSetDate
    rw [if_pos hset]
    exact rejects_eexist
  · refine or_iff_of_set (fun hset => ?_) fun hset => timeCtxSetHour_strict hset s
    unfold timeCtxSetHour
    rw [if_pos hset]
    exact rejects_eexist

/-- `2018-13-01T00:00:00Z` -/
def monthThirteen : CString :=
  CString.stored (fun _ => 0) (chars ['2', '0', '1', '8', '-', '1', '3', '-', '0', '1', 'T', '0', '0', ':', '0',
    '0', ':', '0', '0', 'Z']) (by decide)

/-- A thirteenth month is taken. -/
theorem monthThirteen_accepted :
    (timeLocalParse (fun _ => 0) timeCtxInit.tm 0 monthThirteen).1 = 0 ∧
      ¬ Grammar monthThirteen.text := by
  refine ⟨by decide +kernel, fun h => not_sloppy_of_grammar h ?_⟩
  refine ⟨_, _, ⟨rfl, rfl, ⟨by decide, by decide, by decide⟩,
    ⟨by decide, by decide, by decide, by decide, by decide⟩⟩, Or.inl (Or.inl (Or.inr ?_))⟩
  intro hdate
  exact absurd hdate.month_le (by decide)

end Futils.Systime
