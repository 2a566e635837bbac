import Futils.Systime.Cut
import Futils.Systime.Texts

/-!
# Documented texts are cut as they were written

Each part of a documented text is recognised by its length and by a few characters at fixed places, and
then cut into the digits that it was written with.
-/

namespace Futils.Systime

open Futils.Lib

/-- The characters of the rest of a string. -/
def Rest.text (r : Rest) : List UInt8 := r.1.load 0 r.2

/-- What is left after `k` characters. -/
def Rest.after (r : Rest) (k : ℕ) : Rest := (r.1.shift k, r.2 - k)

variable {r : Rest} {l l' : List UInt8} {c : UInt8} {n : ℕ}

lemma Rest.text_after (r : Rest) (k : ℕ) : (r.after k).text = r.text.drop k := by
  unfold Rest.text Rest.after
  rw [Mem.drop_load]
  refine List.map_congr_left fun i _ => ?_
  unfold Mem.shift
  rw [Nat.zero_add, Nat.zero_add]

/-- **A text is split** where it is cut. -/
lemma Rest.text_eq_append :
    r.text = l ++ l' ↔
      l.length ≤ r.2 ∧ r.1.load 0 l.length = l ∧ (r.after l.length).text = l' := by
  rw [Rest.text_after]
  constructor
  · intro h
    have hlen : r.2 = l.length + l'.length := by
      rw [← List.length_append, ← h]
      exact (Mem.length_load ..).symm
    refine ⟨by omega, ?_, ?_⟩
    · have htake : r.text.take l.length = l := by rw [h, List.take_left]
      unfold Rest.text at htake
      rwa [Mem.take_load, Nat.min_eq_left (by omega)] at htake
    · rw [h, List.drop_left]
  · rintro ⟨hlen, hload, hdrop⟩
    have htake : r.text.take l.length = l := by
      unfold Rest.text
      rw [Mem.take_load, Nat.min_eq_left hlen, hload]
    rw [← List.take_append_drop l.length r.text, htake, hdrop]

lemma Rest.text_of_load {k : ℕ} (hk : k ≤ r.2) (h : r.1.load 0 k = l) :
    r.text = l ++ (r.after k).text := by
  have hlen : l.length = k := by rw [← h, Mem.length_load]
  rw [← hlen] at hk h ⊢
  exact Rest.text_eq_append.mpr ⟨hk, h, rfl⟩

lemma Rest.text_eq_self : r.text = l ↔ l.length = r.2 ∧ r.1.load 0 l.length = l := by
  unfold Rest.text
  constructor
  · rintro rfl
    rw [Mem.length_load]
    exact ⟨rfl, rfl⟩
  · rintro ⟨hlen, hload⟩
    rwa [← hlen]

/-! ### Digits at fixed places -/

lemma dec_two (n : ℕ) : dec 2 n = [lastDigit (n / 10), lastDigit n] := rfl

lemma lastDigit_ne (n : ℕ) (hc : isdigit c = false) : lastDigit n ≠ c :=
  ne_of_isDigit (isDigit_lastDigit n) hc

/-! ### The time of day -/

lemma cutClock_of_text {form : Form} {t : Clock} (h : r.text = form.clockText t ++ l) :
    ∃ rest, cutClock r = some (⟨dec 2 t.hour, dec 2 t.min, dec 2 t.sec⟩, rest) ∧ rest.text = l := by
  obtain ⟨hlen, hload, hrest⟩ := Rest.text_eq_append.mp h
  have hcolonLen : [ch ':'].length = 1 := rfl
  refine ⟨_, ?_, hrest⟩
  unfold cutClock
  cases form with
  | short =>
    change r.1.load 0 (2 + (2 + 2)) = dec 2 t.hour ++ dec 2 t.min ++ dec 2 t.sec at hload
    change 6 ≤ r.2 at hlen
    rw [List.append_assoc, Mem.load_eq_append (length_dec 2 _), Mem.load_eq_append (length_dec 2 _)]
      at hload
    obtain ⟨hhour, hmin, hsec⟩ := hload
    -- a digit stands where a colon would be
    have htwo : r.1 2 = lastDigit (t.min / 10) := (List.cons.inj hmin).1
    rw [if_neg, if_pos hlen, ← hhour, ← hmin, ← hsec]
    · rfl
    · rintro ⟨-, hcolon, -⟩
      rw [htwo] at hcolon
      exact lastDigit_ne _ rfl hcolon
  | long =>
    change r.1.load 0 (2 + (1 + (2 + (1 + 2)))) =
      dec 2 t.hour ++ [ch ':'] ++ dec 2 t.min ++ [ch ':'] ++ dec 2 t.sec at hload
    change 8 ≤ r.2 at hlen
    rw [List.append_assoc, List.append_assoc, List.append_assoc,
      Mem.load_eq_append (length_dec 2 _), Mem.load_eq_append hcolonLen,
      Mem.load_eq_append (length_dec 2 _), Mem.load_eq_append hcolonLen] at hload
    obtain ⟨hhour, hcolon₁, hmin, hcolon₂, hsec⟩ := hload
    have htwo : r.1 2 = ch ':' := (List.cons.inj hcolon₁).1
    have hfive : r.1 5 = ch ':' := (List.cons.inj hcolon₂).1
    rw [if_pos ⟨hlen, htwo, hfive⟩, ← hhour, ← hmin, ← hsec]
    rfl

/-! ### Characters that are skipped -/

lemma Rest.text_cons : r.text = c :: l ↔ 0 < r.2 ∧ r.1 0 = c ∧ (r.after 1).text = l := by
  have h : r.text = [c] ++ l ↔ _ := Rest.text_eq_append
  rw [List.singleton_append, List.length_singleton] at h
  rw [h]
  refine and_congr_right fun _ => and_congr_left fun _ => ?_
  change [r.1 0] = [c] ↔ _
  rw [List.cons.injEq, and_iff_left rfl]

/-- The character that is skipped, if there is one. -/
def Rest.skipped (c : UInt8) (r : Rest) : List UInt8 := if 0 < r.2 ∧ r.1 0 = c then [c] else []

lemma Rest.skip_of_cons (h : r.text = c :: l) : r.skipped c = [c] ∧ (r.skip c).text = l := by
  obtain ⟨hlen, hc, hrest⟩ := Rest.text_cons.mp h
  unfold Rest.skipped Rest.skip
  rw [if_pos ⟨hlen, hc⟩, if_pos ⟨hlen, hc⟩]
  exact ⟨rfl, hrest⟩

lemma Rest.skip_of_head (h : r.text.head? ≠ some c) : r.skipped c = [] ∧ r.skip c = r := by
  have hnot : ¬ (0 < r.2 ∧ r.1 0 = c) := by
    rintro ⟨hlen, hc⟩
    apply h
    rw [(Rest.text_cons (l := (r.after 1).text)).mpr ⟨hlen, hc, rfl⟩, List.head?_cons]
  unfold Rest.skipped Rest.skip
  rw [if_neg hnot, if_neg hnot]
  exact ⟨rfl, rfl⟩

lemma Rest.skipped_cases (c : UInt8) (r : Rest) :
    ∃ b : Bool, r.skipped c = if b then [c] else [] := by
  unfold Rest.skipped
  split_ifs
  · exact ⟨true, rfl⟩
  · exact ⟨false, rfl⟩

lemma Rest.text_skip (c : UInt8) (r : Rest) : r.text = r.skipped c ++ (r.skip c).text := by
  unfold Rest.skipped Rest.skip
  split_ifs with h
  · exact Rest.text_cons.mpr ⟨h.1, h.2, rfl⟩
  · rfl

/-- What is skipped between a date and a time. -/
def Rest.sep (r : Rest) : List UInt8 :=
  r.skipped (ch ' ') ++ (r.skip (ch ' ')).skipped (ch 'T')

/-- The rest after that. -/
def Rest.afterSep (r : Rest) : Rest := (r.skip (ch ' ')).skip (ch 'T')

lemma Rest.text_sep (r : Rest) : r.text = r.sep ++ r.afterSep.text := by
  unfold Rest.sep Rest.afterSep
  rw [List.append_assoc, ← Rest.text_skip, ← Rest.text_skip]

lemma Rest.sep_mem (r : Rest) :
    r.sep = [] ∨ r.sep = [ch ' '] ∨ r.sep = [ch 'T'] ∨ r.sep = [ch ' ', ch 'T'] := by
  unfold Rest.sep Rest.skipped
  split_ifs
  · exact Or.inr (Or.inr (Or.inr rfl))
  · exact Or.inr (Or.inl rfl)
  · exact Or.inr (Or.inr (Or.inl rfl))
  · exact Or.inl rfl

/-- The separator is read off the text, since a time starts with a digit. -/
lemma Rest.sep_of_text {sep : List UInt8} {a : UInt8} (ha : isdigit a = true)
    (hsep : sep = [] ∨ sep = [ch ' '] ∨ sep = [ch 'T'] ∨ sep = [ch ' ', ch 'T'])
    (h : r.text = sep ++ a :: l) : r.sep = sep ∧ r.afterSep.text = a :: l := by
  have hdigit : ∀ {r : Rest} {c}, r.text = a :: l → isdigit c = false → r.text.head? ≠ some c := by
    rintro r c hr hc heq
    rw [hr, List.head?_cons, Option.some_inj] at heq
    rw [← heq, ha] at hc
    cases hc
  unfold Rest.sep Rest.afterSep
  rcases hsep with rfl | rfl | rfl | rfl
  · obtain ⟨hs, hr⟩ := Rest.skip_of_head (hdigit h (c := ch ' ') rfl)
    obtain ⟨hs', hr'⟩ := Rest.skip_of_head (hdigit h (c := ch 'T') rfl)
    rw [hs, hr, hs', hr']
    exact ⟨rfl, h⟩
  · obtain ⟨hs, hr⟩ := Rest.skip_of_cons h
    obtain ⟨hs', hr'⟩ := Rest.skip_of_head (hdigit hr (c := ch 'T') rfl)
    rw [hs, hs', hr']
    exact ⟨rfl, hr⟩
  · have hspace : r.text.head? ≠ some (ch ' ') := by
      rw [h]
      exact (by decide : some (ch 'T') ≠ some (ch ' '))
    obtain ⟨hs, hr⟩ := Rest.skip_of_head hspace
    obtain ⟨hs', hr'⟩ := Rest.skip_of_cons h
    rw [hs, hr, hs']
    exact ⟨rfl, hr'⟩
  · obtain ⟨hs, hr⟩ := Rest.skip_of_cons h
    obtain ⟨hs', hr'⟩ := Rest.skip_of_cons hr
    rw [hs, hs']
    exact ⟨rfl, hr'⟩

/-! ### The zone -/

/-- The cut is that of an offset. -/
structure ZoneCut.Spells (cut : ZoneCut) (o : Offset) : Prop where
  hour : cut.hour = dec 2 o.hour
  min : cut.min = dec 2 o.min
  gmtoff : cut.gmtoff = o.sec

lemma ZoneCut.spells_of_sign (o : Offset) : (⟨o.sign, dec 2 o.hour, dec 2 o.min⟩ : ZoneCut).Spells o := by
  have hhour := o.hour_le
  have hmin := o.min_le
  refine ⟨rfl, rfl, ?_⟩
  unfold ZoneCut.gmtoff Offset.sec fieldValue
  rw [parseNum_two (by omega), parseNum_two (by omega)]
  ring

lemma zeroZone_spells {o : Offset} (h : o.hour = 0 ∧ o.min = 0) : zeroZone.Spells o := by
  refine ⟨by rw [h.1]; rfl, by rw [h.2]; rfl, ?_⟩
  unfold Offset.sec
  rw [h.1, h.2]
  simp only [Nat.cast_zero, mul_zero, add_zero]
  rfl

/-- The names of UTC. -/
def zoneNames : List (List UInt8) :=
  [chars ['Z'], chars ['G', 'M', 'T'], chars ['U', 'T'], chars ['U', 'T', 'C']]

lemma cutZone_name (hname : l ∈ zoneNames) (h : r.text = l) : cutZone r = some zeroZone := by
  obtain ⟨hlen, hload⟩ := Rest.text_eq_self.mp h
  unfold zoneNames at hname
  simp only [List.mem_cons, List.not_mem_nil, or_false] at hname
  unfold cutZone
  rcases hname with rfl | rfl | rfl | rfl
  · change 1 = r.2 at hlen
    change [r.1 0] = [ch 'Z'] at hload
    simp only [List.cons.injEq, and_true] at hload
    simp only [← hlen, hload]
    rfl
  · change 3 = r.2 at hlen
    change [r.1 0, r.1 1, r.1 2] = [ch 'G', ch 'M', ch 'T'] at hload
    simp only [List.cons.injEq, and_true] at hload
    simp only [← hlen, hload]
    rfl
  · change 2 = r.2 at hlen
    change [r.1 0, r.1 1] = [ch 'U', ch 'T'] at hload
    simp only [List.cons.injEq, and_true] at hload
    simp only [← hlen, hload]
    rfl
  · change 3 = r.2 at hlen
    change [r.1 0, r.1 1, r.1 2] = [ch 'U', ch 'T', ch 'C'] at hload
    simp only [List.cons.injEq, and_true] at hload
    simp only [← hlen, hload]
    rfl

lemma cutZone_of_text {form : ZoneForm} {o : Offset} (hfits : form.Fits o)
    (h : r.text = form.text o) : ∃ cut, cutZone r = some cut ∧ cut.Spells o := by
  obtain ⟨hlen, hload⟩ := Rest.text_eq_self.mp h
  cases form with
  | offset form =>
    refine ⟨_, ?_, ZoneCut.spells_of_sign o⟩
    have hsigns : (if o.west then ch '-' else ch '+') = ch '-' ∨
        (if o.west then ch '-' else ch '+') = ch '+' := by
      cases o.west
      · exact Or.inr rfl
      · exact Or.inl rfl
    have hsign : (if (if o.west then ch '-' else ch '+') = ch '-' then (-1 : ℤ) else 1) = o.sign := by
      unfold Offset.sign
      cases o.west <;> rfl
    have hsignLen : [if o.west then ch '-' else ch '+'].length = 1 := rfl
    have hcolonLen : [ch ':'].length = 1 := rfl
    unfold cutZone
    dsimp only
    cases form with
    | short =>
      change 5 = r.2 at hlen
      change r.1.load 0 (1 + (2 + 2)) =
        [if o.west then ch '-' else ch '+'] ++ dec 2 o.hour ++ dec 2 o.min at hload
      rw [List.append_assoc, Mem.load_eq_append hsignLen, Mem.load_eq_append (length_dec 2 _)]
        at hload
      obtain ⟨hs, hhour, hmin⟩ := hload
      have hzero : r.1 0 = if o.west then ch '-' else ch '+' := (List.cons.inj hs).1
      rw [hzero, hsign, if_neg (by omega), if_pos ⟨hlen.symm, hsigns⟩, ← hhour, ← hmin]
    | long =>
      change 6 = r.2 at hlen
      change r.1.load 0 (1 + (2 + (1 + 2))) =
        [if o.west then ch '-' else ch '+'] ++ dec 2 o.hour ++ [ch ':'] ++ dec 2 o.min at hload
      rw [List.append_assoc, List.append_assoc, Mem.load_eq_append hsignLen,
        Mem.load_eq_append (length_dec 2 _), Mem.load_eq_append hcolonLen] at hload
      obtain ⟨hs, hhour, hcolon, hmin⟩ := hload
      have hzero : r.1 0 = if o.west then ch '-' else ch '+' := (List.cons.inj hs).1
      have hthree : r.1 3 = ch ':' := (List.cons.inj hcolon).1
      rw [hzero, hsign, if_pos ⟨hlen.symm, hsigns, hthree⟩, ← hhour, ← hmin]
  | z => exact ⟨zeroZone, cutZone_name (l := chars ['Z']) (by decide) h, zeroZone_spells hfits⟩
  | ut => exact ⟨zeroZone, cutZone_name (l := chars ['U', 'T']) (by decide) h, zeroZone_spells hfits⟩
  | utc => exact ⟨zeroZone, cutZone_name (l := chars ['U', 'T', 'C']) (by decide) h, zeroZone_spells hfits⟩
  | gmt => exact ⟨zeroZone, cutZone_name (l := chars ['G', 'M', 'T']) (by decide) h, zeroZone_spells hfits⟩

lemma ZoneForm.head_ne (form : ZoneForm) (o : Offset) : (form.text o).head? ≠ some (ch ' ') := by
  have hsign : some (if o.west then ch '-' else ch '+') ≠ some (ch ' ') := by
    cases o.west <;> decide
  cases form with
  | offset form => cases form <;> exact hsign
  | z => exact (by decide : some (ch 'Z') ≠ some (ch ' '))
  | ut => exact (by decide : some (ch 'U') ≠ some (ch ' '))
  | utc => exact (by decide : some (ch 'U') ≠ some (ch ' '))
  | gmt => exact (by decide : some (ch 'G') ≠ some (ch ' '))

/-! ### A time -/

/-- The cut is that of a time of day and an offset. -/
structure TimeCut.Spells (cut : TimeCut) (t : Clock) (o : Offset) : Prop where
  clock : cut.clock = ⟨dec 2 t.hour, dec 2 t.min, dec 2 t.sec⟩
  zone : cut.zone.Spells o

lemma TimeForm.text_eq (f : TimeForm) (t : Clock) (o : Offset) :
    ∃ l, f.text t o = dec 2 t.hour ++ l := by
  unfold TimeForm.text Form.clockText
  cases f.clock <;> simp only [List.append_assoc] <;> exact ⟨_, rfl⟩

lemma cutTime_of_text {f : TimeForm} {t : Clock} {o : Offset} (hfits : f.zone.Fits o)
    (h : (r.skip (ch 'T')).text = f.text t o) : ∃ cut, cutTime r = some cut ∧ cut.Spells t o := by
  unfold TimeForm.text at h
  rw [List.append_assoc] at h
  obtain ⟨rest, hclock, hrest⟩ := cutClock_of_text h
  have hzone : (rest.skip (ch ' ')).text = f.zone.text o := by
    cases hspace : f.space with
    | true =>
      rw [hspace] at hrest
      exact (Rest.skip_of_cons hrest).2
    | false =>
      rw [hspace] at hrest
      have hhead : rest.text.head? ≠ some (ch ' ') := by
        rw [hrest]
        exact f.zone.head_ne o
      rw [(Rest.skip_of_head hhead).2]
      exact hrest
  obtain ⟨zone, hcut, hspells⟩ := cutZone_of_text hfits hzone
  refine ⟨⟨_, zone⟩, ?_, rfl, hspells⟩
  unfold cutTime
  rw [hclock]
  simp only [hcut]
  rfl

/-! ### Dates -/

/-- The cut is that of a date. -/
structure DateCut.Spells (named : Bool) (cut : DateCut) (t : Date) : Prop where
  year : cut.year = dec 4 t.year
  mon : cut.mon = if named then monName t.mon else dec 2 t.mon
  mday : cut.mday = dec 2 t.mday ∨ t.mday < 10 ∧ cut.mday = dec 1 t.mday

lemma cutDate_of_text {form : Form} {t : Date} (h : r.text = form.dateText t) :
    cutDate r.1 r.2 = some ⟨dec 4 t.year, dec 2 t.mon, dec 2 t.mday⟩ := by
  obtain ⟨hlen, hload⟩ := Rest.text_eq_self.mp h
  have hdashLen : [ch '-'].length = 1 := rfl
  unfold cutDate
  cases form with
  | short =>
    change 8 = r.2 at hlen
    change r.1.load 0 (4 + (2 + 2)) = dec 4 t.year ++ dec 2 t.mon ++ dec 2 t.mday at hload
    rw [List.append_assoc, Mem.load_eq_append (length_dec 4 _), Mem.load_eq_append (length_dec 2 _)]
      at hload
    obtain ⟨hyear, hmon, hmday⟩ := hload
    rw [if_neg (by omega), if_pos hlen.symm, ← hyear, ← hmon, ← hmday]
  | long =>
    change 10 = r.2 at hlen
    change r.1.load 0 (4 + (1 + (2 + (1 + 2)))) =
      dec 4 t.year ++ [ch '-'] ++ dec 2 t.mon ++ [ch '-'] ++ dec 2 t.mday at hload
    rw [List.append_assoc, List.append_assoc, List.append_assoc,
      Mem.load_eq_append (length_dec 4 _), Mem.load_eq_append hdashLen,
      Mem.load_eq_append (length_dec 2 _), Mem.load_eq_append hdashLen] at hload
    obtain ⟨hyear, hdash₁, hmon, hdash₂, hmday⟩ := hload
    have hfour : r.1 4 = ch '-' := (List.cons.inj hdash₁).1
    have hseven : r.1 7 = ch '-' := (List.cons.inj hdash₂).1
    rw [if_pos ⟨hlen.symm, hfour, hseven⟩, ← hyear, ← hmon, ← hmday]

/-- What starts with a digit is no name of a day. -/
lemma parseWday_of_digit {s : Mem UInt8} (h : isdigit (s 0) = true) : parseWday s = -ENOENT := by
  unfold parseWday
  rw [if_neg]
  intro hmem
  have hall : ∀ name ∈ wdayStr, name.head?.all fun c => !isdigit c := by decide
  have hhead : s.load 0 3 = s 0 :: s.load 1 2 := rfl
  have := hall _ hmem
  rw [hhead, List.head?_cons, Option.all_some, h] at this
  cases this

lemma Form.head_dateText (form : Form) (t : Date) :
    ∃ n l, form.dateText t = lastDigit n :: l := by
  cases form <;> exact ⟨_, _, rfl⟩

lemma cutDateTimeDate_of_iso {form : Form} {t : Date} {a b : UInt8}
    (h : r.text = form.dateText t ++ c :: a :: b :: l) (hc : c = ch 'T' ∨ c = ch ' ')
    (hb : isdigit b = true) :
    ∃ d, cutDateTimeDate r.1 r.2 = some d ∧ d.named = false ∧ d.gaps = [] ∧
      d.date.Spells false t ∧ d.rest.text = c :: a :: b :: l := by
  have hnot : ¬ (r.2 ≥ 16 ∧ parseWday r.1 ≠ -ENOENT) := by
    rintro ⟨-, hwday⟩
    obtain ⟨n, l', hhead⟩ := form.head_dateText t
    rw [hhead, List.cons_append] at h
    apply hwday
    apply parseWday_of_digit
    rw [(Rest.text_cons.mp h).2.1]
    exact isdigit_lastDigit n
  obtain ⟨hlen, hload, hrest⟩ := Rest.text_eq_append.mp h
  obtain ⟨-, hsep, hrest'⟩ := Rest.text_cons.mp hrest
  obtain ⟨-, -, hrest'⟩ := Rest.text_cons.mp hrest'
  have hb' := (Rest.text_cons.mp hrest').2.1
  have hc' : c = ch 'T' ∨ c = ch ' ' ∨ c = 0 := hc.imp_right Or.inl
  unfold cutDateTimeDate
  rw [if_neg hnot]
  cases form with
  | short =>
    have hcut := cutDate_of_text (r := (r.1, 8)) (Rest.text_eq_self.mpr ⟨rfl, hload⟩)
    change 8 ≤ r.2 at hlen
    change r.1 8 = c at hsep
    change r.1 10 = b at hb'
    -- the character where a long date would end is a digit
    have hten : ¬ (r.2 ≥ 10 ∧ (r.1 10 = ch 'T' ∨ r.1 10 = ch ' ' ∨ r.1 10 = 0)) := by
      rintro ⟨-, hbad⟩
      rw [hb'] at hbad
      rcases hbad with rfl | rfl | rfl <;> cases hb
    rw [if_neg hten, hsep, if_pos ⟨hlen, hc'⟩, hcut]
    exact ⟨_, rfl, rfl, rfl, ⟨rfl, rfl, Or.inl rfl⟩, hrest⟩
  | long =>
    have hcut := cutDate_of_text (r := (r.1, 10)) (Rest.text_eq_self.mpr ⟨rfl, hload⟩)
    change 10 ≤ r.2 at hlen
    change r.1 10 = c at hsep
    rw [hsep, if_pos ⟨hlen, hc'⟩, hcut]
    exact ⟨_, rfl, rfl, rfl, ⟨rfl, rfl, Or.inl rfl⟩, hrest⟩

lemma monName_spec {m : ℕ} (hm : 1 ≤ m) (hm' : m ≤ 12) :
    monName m ∈ monStr ∧ monStr.idxOf (monName m) + 1 = m := by
  have hall : ∀ m ≤ 12, 1 ≤ m → monName m ∈ monStr ∧ monStr.idxOf (monName m) + 1 = m := by decide
  exact hall m hm' hm

lemma length_of_mem_monStr (h : l ∈ monStr) : l.length = 3 := by
  have hall : ∀ l ∈ monStr, l.length = 3 := by decide
  exact hall l h

lemma head_of_mem_monStr {a : UInt8} (h : a :: l ∈ monStr) : isdigit a = false := by
  have hall : ∀ l ∈ monStr, l.head?.all fun c => !isdigit c := by decide
  have := hall _ h
  rwa [List.head?_cons, Option.all_some, Bool.not_eq_true'] at this

lemma length_of_mem_wdayStr (h : l ∈ wdayStr) : l.length = 3 := by
  have hall : ∀ l ∈ wdayStr, l.length = 3 := by decide
  exact hall l h

lemma cutDateRfc1123_dayFirst {s : Mem UInt8} {mday : List UInt8} {k : ℕ} (hcomma : s 3 = ch ',')
    (hfive : isdigit (s 5) = true) (hmday : cutMday s 5 = (mday, k)) :
    cutDateRfc1123 s = some (⟨s.load (k + 5) 4, s.load (k + 1) 3, mday⟩, k + 9) ∧
      gapsRfc1123 s = [s 4, s k, s (k + 4)] := by
  unfold cutDateRfc1123 gapsRfc1123
  rw [if_neg (not_not.mpr hcomma), if_pos hfive, if_pos hfive, hmday]
  exact ⟨rfl, rfl⟩

lemma cutDateRfc1123_monFirst {s : Mem UInt8} {mday : List UInt8} {k : ℕ} (hcomma : s 3 = ch ',')
    (hfive : isdigit (s 5) = false) (hmday : cutMday s 9 = (mday, k)) :
    cutDateRfc1123 s = some (⟨s.load (k + 1) 4, s.load 5 3, mday⟩, k + 5) ∧
      gapsRfc1123 s = [s 4, s 8, s k] := by
  unfold cutDateRfc1123 gapsRfc1123
  rw [if_neg (not_not.mpr hcomma), hfive, if_neg Bool.false_ne_true, if_neg Bool.false_ne_true, hmday]
  exact ⟨rfl, rfl⟩

lemma cutMday_of_load {s : Mem UInt8} {o width : ℕ} {t : Date}
    (hwidth : width = 1 ∧ t.mday < 10 ∨ width = 2) (hmday : s.load o width = dec width t.mday)
    (hgap : s (o + width) = ch ' ') : cutMday s o = (dec width t.mday, o + width) := by
  rw [← hmday]
  rcases hwidth with ⟨rfl, -⟩ | rfl
  · exact if_pos hgap
  · have hsecond : s (o + 1) = lastDigit t.mday := (List.cons.inj (List.cons.inj hmday).2).1
    exact if_neg (hsecond ▸ lastDigit_ne _ rfl)

/-- An RFC 1123 date is cut in the same way in both orders and both widths of the day. -/
lemma cutDateRfc1123_of_text {s : Mem UInt8} {wday : List UInt8} {dayFirst : Bool} {width : ℕ}
    {t : Date} (hfits : (DateForm.rfc1123 wday dayFirst width).Fits t)
    (h : s.load 0 (14 + width) = (DateForm.rfc1123 wday dayFirst width).text t) :
    cutDateRfc1123 s = some (⟨dec 4 t.year, monName t.mon, dec width t.mday⟩, 14 + width) ∧
      gapsRfc1123 s = [ch ' ', ch ' ', ch ' '] ∧ s.load 0 3 = wday := by
  obtain ⟨hwday, hwidth⟩ := hfits
  have hwdayLen := length_of_mem_wdayStr hwday
  have hmon := (monName_spec t.isDate.month_pos t.isDate.month_le).1
  have hmonLen := length_of_mem_monStr hmon
  have hmdayLen := length_dec width t.mday
  have hcommaLen : [ch ',', ch ' '].length = 2 := rfl
  have hspaceLen : [ch ' '].length = 1 := rfl
  unfold DateForm.text at h
  cases dayFirst with
  | true =>
    have hlen : 14 + width = 3 + (2 + (width + (1 + (3 + (1 + 4))))) := by omega
    simp only [if_true, List.append_assoc] at h
    rw [hlen, Mem.load_eq_append hwdayLen, Mem.load_eq_append hcommaLen,
      Mem.load_eq_append hmdayLen, Mem.load_eq_append hspaceLen, Mem.load_eq_append hmonLen,
      Mem.load_eq_append hspaceLen] at h
    obtain ⟨hw, hcomma, hmday, hgap₁, hmon, hgap₂, hyear⟩ := h
    have hthree : s 3 = ch ',' := (List.cons.inj hcomma).1
    have hfour : s 4 = ch ' ' := (List.cons.inj (List.cons.inj hcomma).2).1
    have hgap₁ : s (5 + width) = ch ' ' := (List.cons.inj hgap₁).1
    have hmon : s.load (5 + width + 1) 3 = monName t.mon := hmon
    have hgap₂ : s (5 + width + 4) = ch ' ' := (List.cons.inj hgap₂).1
    have hyear : s.load (5 + width + 5) 4 = dec 4 t.year := hyear
    have hfive : isdigit (s 5) = true := by
      rcases hwidth with ⟨rfl, -⟩ | rfl
      · have h5 : s 5 = lastDigit t.mday := (List.cons.inj hmday).1
        rw [h5, isdigit_lastDigit]
      · have h5 : s 5 = lastDigit (t.mday / 10) := (List.cons.inj hmday).1
        rw [h5, isdigit_lastDigit]
    obtain ⟨hcut, hgaps⟩ :=
      cutDateRfc1123_dayFirst hthree hfive (cutMday_of_load hwidth hmday hgap₁)
    rw [hcut, hgaps, hmon, hyear, hfour, hgap₁, hgap₂, ← Nat.add_right_comm]
    exact ⟨rfl, rfl, hw⟩
  | false =>
    have hlen : 14 + width = 3 + (2 + (3 + (1 + (width + (1 + 4))))) := by omega
    simp only [Bool.false_eq_true, if_false, List.append_assoc] at h
    rw [hlen, Mem.load_eq_append hwdayLen, Mem.load_eq_append hcommaLen,
      Mem.load_eq_append hmonLen, Mem.load_eq_append hspaceLen, Mem.load_eq_append hmdayLen,
      Mem.load_eq_append hspaceLen] at h
    obtain ⟨hw, hcomma, hmonText, hgap₁, hmday, hgap₂, hyear⟩ := h
    have hthree : s 3 = ch ',' := (List.cons.inj hcomma).1
    have hfour : s 4 = ch ' ' := (List.cons.inj (List.cons.inj hcomma).2).1
    have hmonText : s.load 5 3 = monName t.mon := hmonText
    have hgap₁ : s 8 = ch ' ' := (List.cons.inj hgap₁).1
    have hgap₂ : s (9 + width) = ch ' ' := (List.cons.inj hgap₂).1
    have hyear : s.load (9 + width + 1) 4 = dec 4 t.year := hyear
    have hfive : isdigit (s 5) = false := by
      rw [← hmonText] at hmon
      exact head_of_mem_monStr hmon
    obtain ⟨hcut, hgaps⟩ :=
      cutDateRfc1123_monFirst hthree hfive (cutMday_of_load hwidth hmday hgap₂)
    rw [hcut, hgaps, hmonText, hyear, hfour, hgap₁, hgap₂, ← Nat.add_right_comm]
    exact ⟨rfl, rfl, hw⟩

lemma cutDateTimeDate_of_rfc {wday : List UInt8} {dayFirst : Bool} {width : ℕ} {t : Date}
    (hfits : (DateForm.rfc1123 wday dayFirst width).Fits t)
    (h : r.text = (DateForm.rfc1123 wday dayFirst width).text t ++ l) (hl : l ≠ []) :
    ∃ d, cutDateTimeDate r.1 r.2 = some d ∧ d.named = true ∧ d.gaps = [ch ' ', ch ' ', ch ' '] ∧
      d.date.Spells true t ∧ d.rest.text = l := by
  have hmon := (monName_spec t.isDate.month_pos t.isDate.month_le).1
  have hlength : ((DateForm.rfc1123 wday dayFirst width).text t).length = 14 + width := by
    unfold DateForm.text
    cases dayFirst <;>
      simp [length_of_mem_wdayStr hfits.1, length_of_mem_monStr hmon] <;> omega
  have hwidth : width = 1 ∨ width = 2 := hfits.2.imp_left And.left
  obtain ⟨hlen, hload, hrest⟩ := Rest.text_eq_append.mp h
  rw [hlength] at hlen hload hrest
  obtain ⟨hcut, hgaps, hwday⟩ := cutDateRfc1123_of_text hfits hload
  have hlong : r.2 ≥ 16 := by
    have hpos := List.length_pos_iff.mpr hl
    have hrestlen : (r.after (14 + width)).text.length = r.2 - (14 + width) := Mem.length_load ..
    rw [hrest] at hrestlen
    omega
  have hname : parseWday r.1 ≠ -ENOENT := by
    unfold parseWday
    rw [hwday, if_pos hfits.1]
    decide
  refine ⟨⟨true, ⟨dec 4 t.year, monName t.mon, dec width t.mday⟩, gapsRfc1123 r.1,
    r.after (14 + width)⟩, ?_, rfl, hgaps, ⟨rfl, rfl, ?_⟩, hrest⟩
  · unfold cutDateTimeDate
    rw [if_pos ⟨hlong, hname⟩, hcut]
    rfl
  · rcases hfits.2 with ⟨rfl, hday⟩ | rfl
    · exact Or.inr ⟨hday, rfl⟩
    · exact Or.inl rfl

/-! ### A date and a time -/

/-- The form has the name of the month. -/
def DateForm.named : DateForm → Bool
  | .iso8601 _ => false
  | .rfc1123 .. => true

lemma DateForm.Separates.mem {f : DateForm} {sep : List UInt8} (h : f.Separates sep) :
    sep = [] ∨ sep = [ch ' '] ∨ sep = [ch 'T'] ∨ sep = [ch ' ', ch 'T'] := by
  cases f with
  | iso8601 form =>
    rcases h with rfl | rfl
    · exact Or.inr (Or.inr (Or.inl rfl))
    · exact Or.inr (Or.inl rfl)
  | rfc1123 wday dayFirst width => exact h

/-- **A spelling is cut** into the parts that it was written from. -/
theorem cut_of_text {p : Spelling} {t : LocalTime} (hfits : p.Fits t) (h : r.text = p.text t) :
    ∃ d cut, cutDateTimeDate r.1 r.2 = some d ∧ cutTime (d.rest.skip (ch ' ')) = some cut ∧
      d.named = p.date.named ∧ (∀ c ∈ d.gaps, c = ch ' ') ∧ d.rest.sep = p.sep ∧
      d.date.Spells d.named t.date ∧ cut.Spells t.clock t.offset := by
  obtain ⟨hdate, hsep, hzone⟩ := hfits
  obtain ⟨l, htime⟩ := p.time.text_eq t.clock t.offset
  rw [dec_two, List.cons_append] at htime
  unfold Spelling.text at h
  rw [List.append_assoc] at h
  have hcutDate : ∃ d, cutDateTimeDate r.1 r.2 = some d ∧ d.named = p.date.named ∧
      (∀ c ∈ d.gaps, c = ch ' ') ∧ d.date.Spells d.named t.date ∧
      d.rest.text = p.sep ++ p.time.text t.clock t.offset := by
    cases hform : p.date with
    | iso8601 form =>
      rw [hform] at h hsep
      rw [htime] at h ⊢
      have hc : ∃ c, p.sep = [c] ∧ (c = ch 'T' ∨ c = ch ' ') := by
        rcases hsep with hsep | hsep
        · exact ⟨_, hsep, Or.inl rfl⟩
        · exact ⟨_, hsep, Or.inr rfl⟩
      obtain ⟨c, hsep, hc⟩ := hc
      rw [hsep] at h ⊢
      obtain ⟨d, hcut, hnamed, hgaps, hspells, hrest⟩ :=
        cutDateTimeDate_of_iso (t := t.date) h hc (isdigit_lastDigit _)
      refine ⟨d, hcut, hnamed, ?_, hnamed ▸ hspells, hrest⟩
      rw [hgaps]
      exact fun c hc => by cases hc
    | rfc1123 wday dayFirst width =>
      rw [hform] at h hdate
      have hne : p.sep ++ p.time.text t.clock t.offset ≠ [] := by
        rw [htime]
        exact List.append_ne_nil_of_right_ne_nil _ (List.cons_ne_nil _ _)
      obtain ⟨d, hcut, hnamed, hgaps, hspells, hrest⟩ := cutDateTimeDate_of_rfc hdate h hne
      refine ⟨d, hcut, hnamed, ?_, hnamed ▸ hspells, hrest⟩
      rw [hgaps]
      simp
  obtain ⟨d, hcut, hnamed, hgaps, hspells, hrest⟩ := hcutDate
  rw [htime] at hrest
  obtain ⟨hsep', hafter⟩ := Rest.sep_of_text (isdigit_lastDigit _) hsep.mem hrest
  obtain ⟨cut, hcutTime, hcutSpells⟩ := cutTime_of_text hzone (hafter.trans htime.symm)
  exact ⟨d, cut, hcut, hcutTime, hnamed, hgaps, hsep', hspells, hcutSpells⟩

end Futils.Systime
