import Futils.Systime.Parse

/-!
# What the parsers let pass

A string is sloppy if the parser takes it although it is none of the documented texts: `strtol` reads blanks
and signs, no field has its range checked, and RFC 1123 dates are not looked at between their fields.  What
is taken and not sloppy is one of the documented texts.
-/

namespace Futils.Systime

open Futils.Lib

/-! ### The grammar -/

/-- The texts of a date. -/
def DateGrammar (l : List UInt8) : Prop := ∃ (form : Form) (t : Date), l = form.dateText t

/-- The texts of a time, with or without a `T` in front. -/
def TimeGrammar (l : List UInt8) : Prop :=
  ∃ (tee : Bool) (f : TimeForm) (t : Clock) (o : Offset), f.zone.Fits o ∧
    l = (if tee then [ch 'T'] else []) ++ f.text t o

/-- The texts of a date and a time; after an RFC 1123 date there is a space. -/
def Grammar (l : List UInt8) : Prop :=
  ∃ (p : Spelling) (t : LocalTime), p.Fits t ∧ (p.date.named = true → p.sep = [ch ' ']) ∧ l = p.text t

/-! ### Sloppy strings -/

/-- A field has a blank or a sign. -/
def Unclean (f : List UInt8) : Prop := ∃ c ∈ f, ¬ IsDigit c

/-- The fields that have to be digits. -/
def DateCut.numerals (named : Bool) (cut : DateCut) : List (List UInt8) :=
  if named then [cut.year, cut.mday] else [cut.year, cut.mon, cut.mday]

def DateCut.Sloppy (named : Bool) (cut : DateCut) : Prop :=
  (∃ f ∈ cut.numerals named, Unclean f) ∨
    ¬ IsDate (fieldValue cut.year).toNat (cut.monValue named).toNat (fieldValue cut.mday).toNat

def TimeCut.numerals (cut : TimeCut) : List (List UInt8) :=
  [cut.clock.hour, cut.clock.min, cut.clock.sec, cut.zone.hour, cut.zone.min]

def TimeCut.Sloppy (cut : TimeCut) : Prop :=
  (∃ f ∈ cut.numerals, Unclean f) ∨ 23 < fieldValue cut.clock.hour ∨ 59 < fieldValue cut.clock.min ∨
    60 < fieldValue cut.clock.sec ∨ 59 < fieldValue cut.zone.min

/-- The date is sloppy, or what the parser skips in it or after it is. -/
def LeadingDate.Sloppy (d : LeadingDate) : Prop :=
  d.date.Sloppy d.named ∨ (∃ c ∈ d.gaps, c ≠ ch ' ') ∨
    if d.named then d.rest.sep ≠ [ch ' '] else d.rest.sep.length ≠ 1

def SloppyDate (s : CString) : Prop :=
  ∃ cut, cutDate s.mem s.strlen = some cut ∧ cut.Readable false ∧ cut.Sloppy false

def SloppyTime (s : CString) : Prop :=
  ∃ cut, cutTime (s.mem, s.strlen) = some cut ∧ cut.Readable ∧ cut.Sloppy

def SloppyDateTime (s : CString) : Prop :=
  ∃ d cut, Taken s.mem s.strlen d cut ∧ (d.Sloppy ∨ cut.Sloppy)

variable {f : List UInt8} {k : ℕ}

lemma not_unclean : ¬ Unclean f ↔ ∀ c ∈ f, IsDigit c := by
  unfold Unclean
  push Not
  rfl

/-- A clean field is its number, written with as many digits. -/
lemma dec_fieldValue (hlen : f.length = k + 1) (h : ¬ Unclean f) :
    f = dec (k + 1) (fieldValue f).toNat ∧ (fieldValue f).toNat < 10 ^ (k + 1) := by
  have hdigits := not_unclean.mp h
  have hne : f ≠ [] := List.ne_nil_of_length_eq_add_one hlen
  have hvalue : fieldValue f = decValue f := congrArg Prod.snd (parseNum_digits hne hdigits)
  rw [hvalue, Int.toNat_natCast, ← hlen]
  exact ⟨(dec_decValue hdigits).symm, decValue_lt hdigits⟩

/-! ### What is cut clean was written so -/

/-- The fields of a clean cut are those of a date. -/
lemma DateCut.exists_date {named : Bool} {cut : DateCut} (hclean : ¬ cut.Sloppy named)
    (hyear : cut.year.length = 4) (hmon : if named then cut.mon ∈ monStr else cut.mon.length = 2)
    (hmday : 0 < cut.mday.length) :
    ∃ t : Date, cut.year = dec 4 t.year ∧
      cut.mon = (if named then monName t.mon else dec 2 t.mon) ∧
      cut.mday = dec cut.mday.length t.mday ∧ t.mday < 10 ^ cut.mday.length := by
  unfold Sloppy at hclean
  push Not at hclean
  obtain ⟨hfields, hdate⟩ := hclean
  have hcleanYear : ¬ Unclean cut.year := hfields _ (by cases named <;> simp [numerals])
  have hcleanMday : ¬ Unclean cut.mday := hfields _ (by cases named <;> simp [numerals])
  obtain ⟨hyear, hlt⟩ := dec_fieldValue hyear hcleanYear
  obtain ⟨k, hk⟩ := Nat.exists_eq_add_one_of_ne_zero hmday.ne'
  obtain ⟨hmday, hlt'⟩ := dec_fieldValue hk hcleanMday
  rw [← hk] at hmday hlt'
  refine ⟨⟨_, _, _, hlt, hdate⟩, hyear, ?_, hmday, hlt'⟩
  cases named with
  | true =>
    rw [if_pos rfl] at hmon ⊢
    have htake : cut.mon.take 3 = cut.mon := List.take_of_length_le (length_of_mem_monStr hmon).le
    have hindex : (cut.monValue true).toNat - 1 = monStr.idxOf cut.mon := by
      unfold monValue
      rw [if_pos rfl, htake]
      omega
    unfold monName
    rw [hindex, List.getD_eq_getElem _ _ (List.idxOf_lt_length_iff.mpr hmon), List.getElem_idxOf]
  | false =>
    have hcleanMon : ¬ Unclean cut.mon := hfields _ (by simp [numerals])
    exact (dec_fieldValue hmon hcleanMon).1

lemma length_of_cutDate {s : Mem UInt8} {n : ℕ} {cut : DateCut} (h : cutDate s n = some cut) :
    cut.year.length = 4 ∧ cut.mon.length = 2 ∧ cut.mday.length = 2 := by
  unfold cutDate at h
  split_ifs at h <;> cases h <;> exact ⟨rfl, rfl, rfl⟩

lemma text_of_cutDate {s : Mem UInt8} {n : ℕ} {cut : DateCut} (h : cutDate s n = some cut)
    (hclean : ¬ cut.Sloppy false) : DateGrammar (s.load 0 n) := by
  have hlen := length_of_cutDate h
  obtain ⟨t, hyear, hmon, hmday, -⟩ :=
    DateCut.exists_date hclean hlen.1 hlen.2.1 (by omega)
  rw [hlen.2.2] at hmday
  change cut.mon = dec 2 t.mon at hmon
  unfold cutDate at h
  split_ifs at h with hlong hshort
  · obtain ⟨rfl, hfour, hseven⟩ := hlong
    cases h
    dsimp only at hyear hmon hmday
    refine ⟨.long, t, ?_⟩
    have hload : s.load 0 10 = s.load 0 4 ++ [s 4] ++ s.load 5 2 ++ [s 7] ++ s.load 8 2 := rfl
    rw [hload, hfour, hseven, hyear, hmon, hmday]
    rfl
  · subst hshort
    cases h
    dsimp only at hyear hmon hmday
    refine ⟨.short, t, ?_⟩
    have hload : s.load 0 8 = s.load 0 4 ++ s.load 4 2 ++ s.load 6 2 := rfl
    rw [hload, hyear, hmon, hmday]
    rfl

variable {r : Rest}

lemma text_of_cutClock {cut : ClockCut} {rest : Rest} (h : cutClock r = some (cut, rest))
    (hclean : ∀ f ∈ [cut.hour, cut.min, cut.sec], ¬ Unclean f) (hhour : fieldValue cut.hour ≤ 23)
    (hmin : fieldValue cut.min ≤ 59) (hsec : fieldValue cut.sec ≤ 60) :
    ∃ (form : Form) (t : Clock), r.text = form.clockText t ++ rest.text := by
  have hlen : cut.hour.length = 2 ∧ cut.min.length = 2 ∧ cut.sec.length = 2 := by
    unfold cutClock at h
    split_ifs at h <;> cases h <;> exact ⟨rfl, rfl, rfl⟩
  obtain ⟨hhourText, -⟩ := dec_fieldValue hlen.1 (hclean _ (by simp))
  obtain ⟨hminText, -⟩ := dec_fieldValue hlen.2.1 (hclean _ (by simp))
  obtain ⟨hsecText, -⟩ := dec_fieldValue hlen.2.2 (hclean _ (by simp))
  obtain ⟨t, hhour, hmin, hsec⟩ : ∃ t : Clock, cut.hour = dec 2 t.hour ∧ cut.min = dec 2 t.min ∧
      cut.sec = dec 2 t.sec :=
    ⟨⟨(fieldValue cut.hour).toNat, (fieldValue cut.min).toNat, (fieldValue cut.sec).toNat, by omega,
      by omega, by omega⟩, hhourText, hminText, hsecText⟩
  unfold cutClock at h
  split_ifs at h with hlong hshort
  · obtain ⟨hlong, htwo, hfive⟩ := hlong
    cases h
    dsimp only at hhour hmin hsec
    refine ⟨.long, t, Rest.text_eq_append.mpr ⟨hlong, ?_, rfl⟩⟩
    have hload : r.1.load 0 8 =
      r.1.load 0 2 ++ [r.1 2] ++ r.1.load 3 2 ++ [r.1 5] ++ r.1.load 6 2 := rfl
    change r.1.load 0 8 = _
    rw [hload, htwo, hfive, hhour, hmin, hsec]
    rfl
  · cases h
    dsimp only at hhour hmin hsec
    refine ⟨.short, t, Rest.text_eq_append.mpr ⟨hshort, ?_, rfl⟩⟩
    have hload : r.1.load 0 6 = r.1.load 0 2 ++ r.1.load 2 2 ++ r.1.load 4 2 := rfl
    change r.1.load 0 6 = _
    rw [hload, hhour, hmin, hsec]
    rfl

/-- A zone is a name of UTC, or a sign before two fields. -/
lemma cutZone_cases {cut : ZoneCut} (h : cutZone r = some cut) :
    (∃ form : ZoneForm, ∃ o : Offset, form.Fits o ∧ r.text = form.text o) ∨
      cut.hour.length = 2 ∧ cut.min.length = 2 ∧ ∃ west : Bool,
        r.text = [if west then ch '-' else ch '+'] ++ cut.hour ++ [ch ':'] ++ cut.min ∨
          r.text = [if west then ch '-' else ch '+'] ++ cut.hour ++ cut.min := by
  have hsign : r.1 0 = ch '-' ∨ r.1 0 = ch '+' →
      ∃ west : Bool, r.1 0 = if west then ch '-' else ch '+' := by
    rintro (h | h)
    · exact ⟨true, h⟩
    · exact ⟨false, h⟩
  unfold cutZone at h
  dsimp only at h
  generalize (if r.1 0 = ch '-' then (-1 : ℤ) else 1) = sign at h
  split_ifs at h with hlong hshort hz hgmt hut hutc
  · obtain ⟨hn, hs, hcolon⟩ := hlong
    obtain ⟨west, hwest⟩ := hsign hs
    cases h
    refine .inr ⟨rfl, rfl, west, .inl (Rest.text_eq_self.mpr ⟨hn.symm, ?_⟩)⟩
    rw [← hwest, ← hcolon]
    rfl
  · obtain ⟨hn, hs⟩ := hshort
    obtain ⟨west, hwest⟩ := hsign hs
    cases h
    refine .inr ⟨rfl, rfl, west, .inr (Rest.text_eq_self.mpr ⟨hn.symm, ?_⟩)⟩
    rw [← hwest]
    rfl
  · refine .inl ⟨.z, ⟨false, 0, 0, by decide, by decide⟩, ⟨rfl, rfl⟩, Rest.text_eq_self.mpr ⟨hz.1.symm, ?_⟩⟩
    change [r.1 0] = _
    rw [hz.2]
    rfl
  · refine .inl ⟨.gmt, ⟨false, 0, 0, by decide, by decide⟩, ⟨rfl, rfl⟩, Rest.text_eq_self.mpr ⟨hgmt.1.symm, ?_⟩⟩
    change [r.1 0, r.1 1, r.1 2] = _
    rw [hgmt.2.1, hgmt.2.2.1, hgmt.2.2.2]
    rfl
  · refine .inl ⟨.ut, ⟨false, 0, 0, by decide, by decide⟩, ⟨rfl, rfl⟩, Rest.text_eq_self.mpr ⟨hut.1.symm, ?_⟩⟩
    change [r.1 0, r.1 1] = _
    rw [hut.2.1, hut.2.2]
    rfl
  · refine .inl ⟨.utc, ⟨false, 0, 0, by decide, by decide⟩, ⟨rfl, rfl⟩, Rest.text_eq_self.mpr ⟨hutc.1.symm, ?_⟩⟩
    change [r.1 0, r.1 1, r.1 2] = _
    rw [hutc.2.1, hutc.2.2.1, hutc.2.2.2]
    rfl

lemma text_of_cutZone {cut : ZoneCut} (h : cutZone r = some cut)
    (hclean : ∀ f ∈ [cut.hour, cut.min], ¬ Unclean f) (hmin : fieldValue cut.min ≤ 59) :
    ∃ (form : ZoneForm) (o : Offset), form.Fits o ∧ r.text = form.text o := by
  rcases cutZone_cases h with hname | ⟨hhourLen, hminLen, west, htext⟩
  · exact hname
  · obtain ⟨hhourText, hlt⟩ := dec_fieldValue hhourLen (hclean _ (by simp))
    obtain ⟨hminText, -⟩ := dec_fieldValue hminLen (hclean _ (by simp))
    obtain ⟨o, hwest, hhour, hmin⟩ : ∃ o : Offset, o.west = west ∧ cut.hour = dec 2 o.hour ∧
        cut.min = dec 2 o.min :=
      ⟨⟨west, (fieldValue cut.hour).toNat, (fieldValue cut.min).toNat, by omega, by omega⟩, rfl,
        hhourText, hminText⟩
    rw [← hwest, hhour, hmin] at htext
    rcases htext with hlong | hshort
    · exact ⟨.offset .long, o, trivial, hlong⟩
    · exact ⟨.offset .short, o, trivial, hshort⟩

lemma text_of_cutTime {cut : TimeCut} (h : cutTime r = some cut) (hclean : ¬ cut.Sloppy) :
    ∃ (f : TimeForm) (t : Clock) (o : Offset), f.zone.Fits o ∧
      (r.skip (ch 'T')).text = f.text t o := by
  unfold TimeCut.Sloppy at hclean
  push Not at hclean
  obtain ⟨hfields, hhour, hmin, hsec, hzoneMin⟩ := hclean
  unfold cutTime at h
  cases hclock : cutClock (r.skip (ch 'T')) with
  | none => rw [hclock] at h; cases h
  | some q =>
    obtain ⟨clock, rest⟩ := q
    rw [hclock] at h
    obtain ⟨zone, hzone, rfl⟩ := Option.map_eq_some_iff.mp h
    obtain ⟨form, t, htext⟩ := text_of_cutClock hclock
      (fun f hf => hfields f (List.mem_append_left [zone.hour, zone.min] hf)) hhour hmin hsec
    obtain ⟨zoneForm, o, hfits, hzoneText⟩ := text_of_cutZone hzone
      (fun f hf => hfields f (List.mem_append_right [clock.hour, clock.min, clock.sec] hf)) hzoneMin
    obtain ⟨space, hspace⟩ := rest.skipped_cases (ch ' ')
    refine ⟨⟨form, space, zoneForm⟩, t, o, hfits, ?_⟩
    unfold TimeForm.text
    rw [htext, rest.text_skip (ch ' '), hspace, hzoneText, List.append_assoc]

/-- A clean RFC 1123 date, from the order of its fields and the characters between them. -/
lemma text_of_fieldsRfc1123 {s : Mem UInt8} {cut : DateCut} {offset : ℕ} {a b : UInt8}
    (dayFirst : Bool) (hclean : ¬ cut.Sloppy true) (hwday : s.load 0 3 ∈ wdayStr)
    (hmon : cut.mon.take 3 ∈ monStr) (hlen : cut.year.length = 4 ∧ cut.mon.length = 3)
    (hwidth : cut.mday.length = 1 ∨ cut.mday.length = 2) (hcomma : s 3 = ch ',')
    (hgaps : ∀ c ∈ [s 4, a, b], c = ch ' ')
    (hload : s.load 0 offset = s.load 0 3 ++ [s 3, s 4] ++
      (if dayFirst then cut.mday ++ [a] ++ cut.mon else cut.mon ++ [a] ++ cut.mday) ++ [b] ++
      cut.year) :
    ∃ (f : DateForm) (t : Date), f.Fits t ∧ f.named = true ∧ s.load 0 offset = f.text t := by
  rw [List.take_of_length_le hlen.2.le] at hmon
  obtain ⟨t, hyear, hmonText, hmday, hlt⟩ := DateCut.exists_date hclean hlen.1 hmon (by omega)
  rw [if_pos rfl] at hmonText
  have hfour : s 4 = ch ' ' := hgaps _ (by simp)
  have ha : a = ch ' ' := hgaps _ (by simp)
  have hb : b = ch ' ' := hgaps _ (by simp)
  refine ⟨.rfc1123 (s.load 0 3) dayFirst cut.mday.length, t, ⟨hwday, ?_⟩, rfl, ?_⟩
  · rcases hwidth with hone | htwo
    · rw [hone] at hlt
      exact Or.inl ⟨hone, hlt⟩
    · exact Or.inr htwo
  · unfold DateForm.text
    dsimp only
    rw [hload, hcomma, hfour, ha, hb, ← hmonText, ← hmday, ← hyear]

lemma cutMday_cases (s : Mem UInt8) (o : ℕ) :
    cutMday s o = ([s o], o + 1) ∨ cutMday s o = ([s o, s (o + 1)], o + 2) := by
  unfold cutMday
  split_ifs
  · exact Or.inl rfl
  · exact Or.inr rfl

lemma text_of_cutDateRfc1123 {s : Mem UInt8} {cut : DateCut} {offset : ℕ}
    (h : cutDateRfc1123 s = some (cut, offset)) (hwday : s.load 0 3 ∈ wdayStr)
    (hmon : cut.mon.take 3 ∈ monStr) (hgaps : ∀ c ∈ gapsRfc1123 s, c = ch ' ')
    (hclean : ¬ cut.Sloppy true) :
    offset ≤ 16 ∧ ∃ (f : DateForm) (t : Date), f.Fits t ∧ f.named = true ∧
      s.load 0 offset = f.text t := by
  have hcomma : s 3 = ch ',' := by
    by_contra hne
    unfold cutDateRfc1123 at h
    rw [if_pos hne] at h
    cases h
  cases hfive : isdigit (s 5) with
  | true =>
    rcases cutMday_cases s 5 with hmday | hmday
    · obtain ⟨hcut, hgaps'⟩ := cutDateRfc1123_dayFirst hcomma hfive hmday
      rw [hcut] at h
      rw [hgaps'] at hgaps
      cases h
      exact ⟨by decide, text_of_fieldsRfc1123 true hclean hwday hmon ⟨rfl, rfl⟩ (Or.inl rfl) hcomma
        hgaps rfl⟩
    · obtain ⟨hcut, hgaps'⟩ := cutDateRfc1123_dayFirst hcomma hfive hmday
      rw [hcut] at h
      rw [hgaps'] at hgaps
      cases h
      exact ⟨by decide, text_of_fieldsRfc1123 true hclean hwday hmon ⟨rfl, rfl⟩ (Or.inr rfl) hcomma
        hgaps rfl⟩
  | false =>
    rcases cutMday_cases s 9 with hmday | hmday
    · obtain ⟨hcut, hgaps'⟩ := cutDateRfc1123_monFirst hcomma hfive hmday
      rw [hcut] at h
      rw [hgaps'] at hgaps
      cases h
      -- the first space comes after the month
      exact ⟨by decide, text_of_fieldsRfc1123 false hclean hwday hmon ⟨rfl, rfl⟩ (Or.inl rfl) hcomma
        hgaps rfl⟩
    · obtain ⟨hcut, hgaps'⟩ := cutDateRfc1123_monFirst hcomma hfive hmday
      rw [hcut] at h
      rw [hgaps'] at hgaps
      cases h
      exact ⟨by decide, text_of_fieldsRfc1123 false hclean hwday hmon ⟨rfl, rfl⟩ (Or.inr rfl) hcomma
        hgaps rfl⟩

/-- A clean date, with what separates it from what comes after it. -/
lemma text_of_cutDateTimeDate {d : LeadingDate} (h : cutDateTimeDate r.1 r.2 = some d)
    (hread : d.date.Readable d.named) (hclean : ¬ d.Sloppy) :
    ∃ (f : DateForm) (t : Date), f.Fits t ∧ f.Separates d.rest.sep ∧
      (f.named = true → d.rest.sep = [ch ' ']) ∧ r.text = f.text t ++ d.rest.text := by
  unfold LeadingDate.Sloppy at hclean
  rw [not_or, not_or] at hclean
  obtain ⟨hdate, hgaps, hsep⟩ := hclean
  push Not at hgaps
  have hiso : d.named = false → ∀ (form : Form) (t : Date),
      r.text = form.dateText t ++ d.rest.text →
      ∃ (f : DateForm) (t : Date), f.Fits t ∧ f.Separates d.rest.sep ∧
        (f.named = true → d.rest.sep = [ch ' ']) ∧ r.text = f.text t ++ d.rest.text := by
    intro hnamed form t htext
    rw [hnamed, if_neg Bool.false_ne_true, not_not] at hsep
    refine ⟨.iso8601 form, t, trivial, ?_, (fun h => by cases h), htext⟩
    rcases d.rest.sep_mem with hs | hs | hs | hs <;> rw [hs] at hsep ⊢
    · cases hsep
    · exact Or.inr rfl
    · exact Or.inl rfl
    · cases hsep
  unfold cutDateTimeDate at h
  split_ifs at h with hrfc hlong hshort
  · obtain ⟨⟨cut, offset⟩, hcut, rfl⟩ := Option.map_eq_some_iff.mp h
    have hwday : r.1.load 0 3 ∈ wdayStr := by
      by_contra hne
      exact hrfc.2 (if_neg hne)
    obtain ⟨hoffset, f, t, hfits, hnamed, hload⟩ :=
      text_of_cutDateRfc1123 hcut hwday hread.mon hgaps hdate
    rw [if_pos rfl, not_not] at hsep
    refine ⟨f, t, hfits, ?_, fun _ => hsep, Rest.text_of_load (hoffset.trans hrfc.1) hload⟩
    rw [hsep]
    cases f with
    | iso8601 form => exact Or.inr rfl
    | rfc1123 wday dayFirst width => exact Or.inr (Or.inl rfl)
  · obtain ⟨cut, hcut, rfl⟩ := Option.map_eq_some_iff.mp h
    obtain ⟨form, t, hload⟩ := text_of_cutDate hcut hdate
    exact hiso rfl form t (Rest.text_of_load hlong.1 hload)
  · obtain ⟨cut, hcut, rfl⟩ := Option.map_eq_some_iff.mp h
    obtain ⟨form, t, hload⟩ := text_of_cutDate hcut hdate
    exact hiso rfl form t (Rest.text_of_load hshort.1 hload)

/-! ### The documented texts are not sloppy -/

lemma not_unclean_dec (k n : ℕ) : ¬ Unclean (dec k n) :=
  not_unclean.mpr fun _ hc => isDigit_of_mem_dec hc

lemma DateCut.Spells.not_sloppy {named : Bool} {cut : DateCut} {t : Date} (h : cut.Spells named t) :
    ¬ cut.Sloppy named := by
  have hclean : ∀ f ∈ cut.numerals named, ¬ Unclean f := by
    have hmday : ¬ Unclean cut.mday := by
      rcases h.mday with hmday | ⟨-, hmday⟩ <;> rw [hmday] <;> exact not_unclean_dec _ _
    have hyear : ¬ Unclean cut.year := h.year ▸ not_unclean_dec _ _
    intro f hf
    unfold numerals at hf
    cases named with
    | true =>
      simp only [if_true, List.mem_cons, List.not_mem_nil, or_false] at hf
      rcases hf with rfl | rfl
      · exact hyear
      · exact hmday
    | false =>
      simp only [Bool.false_eq_true, if_false, List.mem_cons, List.not_mem_nil, or_false] at hf
      rcases hf with rfl | rfl | rfl
      · exact hyear
      · rw [h.mon]
        exact not_unclean_dec _ _
      · exact hmday
  obtain ⟨hyear, hmon, hmday⟩ := h.values
  rintro (⟨f, hf, hbad⟩ | hbad)
  · exact hclean f hf hbad
  · rw [hyear, hmon, hmday] at hbad
    exact hbad t.isDate

lemma TimeCut.Spells.not_sloppy {cut : TimeCut} {t : Clock} {o : Offset} (h : cut.Spells t o) :
    ¬ cut.Sloppy := by
  have hclean : ∀ f ∈ cut.numerals, ¬ Unclean f := by
    intro f hf
    unfold numerals at hf
    rw [h.clock, h.zone.hour, h.zone.min] at hf
    simp only [List.mem_cons, List.not_mem_nil, or_false] at hf
    rcases hf with rfl | rfl | rfl | rfl | rfl <;> exact not_unclean_dec _ _
  have hhour := t.hour_le
  have hmin := t.min_le
  have hsec := t.sec_le
  have hzoneMin := o.min_le
  have hzone : fieldValue cut.zone.min = o.min := by
    rw [h.zone.min]
    exact fieldValue_two (by omega)
  obtain ⟨hhour', hmin', hsec'⟩ := h.values
  rintro (⟨f, hf, hbad⟩ | hbad)
  · exact hclean f hf hbad
  · omega

end Futils.Systime
