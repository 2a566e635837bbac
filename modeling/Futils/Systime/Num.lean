import Futils.Lib.Decimal
import Futils.Systime.Defs
import Mathlib.Algebra.Order.Ring.Int
import Mathlib.Data.List.TakeWhile
import Mathlib.Tactic.Positivity

/-!
# The texts that `strtol` reads

A field is readable if it is empty or has digits, with blanks and a sign in front of them.  These are just the
fields that `parse_num` takes.
-/

namespace Futils.Systime

open Futils.Lib

/-- Blanks, a sign, and digits. -/
def Numeral (t : List UInt8) : Prop :=
  ∃ blanks sign digits, t = blanks ++ (sign ++ digits) ∧ (∀ c ∈ blanks, isspace c = true) ∧
    (sign = [] ∨ sign = [ch '-'] ∨ sign = [ch '+']) ∧ digits ≠ [] ∧ ∀ c ∈ digits, isdigit c = true

/-- The characters of the field, up to a zero, are none or those of a number. -/
def Readable (f : List UInt8) : Prop :=
  f.takeWhile (fun c => c ≠ 0) = [] ∨ Numeral (f.takeWhile fun c => c ≠ 0)

/-- The number in a field. -/
def fieldValue (f : List UInt8) : ℤ := (parseNum f).2

variable {f t u : List UInt8} {v : ℤ} {c : UInt8} {k n : ℕ}

lemma parseNum_ret (f : List UInt8) : (parseNum f).1 = 0 ∨ (parseNum f).1 = -EINVAL := by
  unfold parseNum
  dsimp only
  split_ifs
  · exact Or.inl rfl
  · exact Or.inr rfl

/-! ### Digits -/

lemma isdigit_iff : isdigit c = true ↔ IsDigit c := by
  unfold isdigit IsDigit
  rw [Bool.and_eq_true, decide_eq_true_eq, decide_eq_true_eq, UInt8.le_iff_toNat_le,
    UInt8.le_iff_toNat_le]
  rfl

lemma not_isspace (h : IsDigit c) : isspace c = false := by
  unfold IsDigit at h
  unfold isspace
  rw [Bool.or_eq_false_iff, Bool.and_eq_false_iff]
  refine ⟨decide_eq_false ?_, Or.inr (decide_eq_false ?_)⟩
  · rintro rfl
    exact absurd h.1 (by decide)
  · rw [UInt8.le_iff_toNat_le]
    intro hle
    exact absurd (h.1.trans hle) (by decide)

lemma ne_of_isDigit (h : IsDigit c) {d : UInt8} (hd : isdigit d = false) : c ≠ d := by
  rintro rfl
  rw [isdigit_iff.mpr h] at hd
  cases hd

lemma isdigit_lastDigit (n : ℕ) : isdigit (lastDigit n) = true := isdigit_iff.mpr (isDigit_lastDigit n)

lemma strtolDigits_of_all (h : ∀ c ∈ u, IsDigit c) (n : ℕ) :
    strtolDigits n u = ((appendDigits n u : ℤ), []) := by
  induction u generalizing n with
  | nil => rfl
  | cons c u ih =>
    have hrest := ih (fun x hx => h x (List.mem_cons_of_mem _ hx)) (10 * n + digitValue c)
    push_cast at hrest
    rw [strtolDigits, if_pos (isdigit_iff.mpr (h c List.mem_cons_self))]
    exact hrest

lemma strtolDigits_rest (h : (strtolDigits v u).2 = []) : ∀ c ∈ u, isdigit c = true := by
  induction u generalizing v with
  | nil => exact fun c hc => by cases hc
  | cons a u ih =>
    unfold strtolDigits at h
    split_ifs at h with ha
    intro c hc
    rcases List.mem_cons.mp hc with rfl | hc
    · exact ha
    · exact ih h c hc

/-! ### Numbers -/

lemma dropWhile_blanks (h : ∀ c ∈ u, isspace c = true) (hc : isspace c = false) :
    (u ++ c :: t).dropWhile isspace = c :: t := by
  rw [List.dropWhile_append_of_pos h, List.dropWhile_cons_of_neg]
  exact Bool.eq_false_iff.mp hc

/-- The digits of a number come last. -/
lemma Numeral.strtol_rest (h : Numeral t) : (strtol t).2 = [] := by
  obtain ⟨blanks, sign, digits, rfl, hblanks, hsign, hne, hdigits⟩ := h
  obtain ⟨c, digits, rfl⟩ := List.exists_cons_of_ne_nil hne
  have hc := isdigit_iff.mp (hdigits c List.mem_cons_self)
  have hall : ∀ x ∈ c :: digits, IsDigit x := fun x hx => isdigit_iff.mp (hdigits x hx)
  have hnum : ((some c).all fun c => !isdigit c) = false := by
    rw [Option.all_some, isdigit_iff.mpr hc]
    rfl
  have hrest : (strtolDigits 0 (c :: digits)).2 = [] := congrArg Prod.snd (strtolDigits_of_all hall 0)
  have hminus : some c ≠ some (ch '-') := fun h => ne_of_isDigit hc rfl (Option.some.inj h)
  have hplus : some c ≠ some (ch '+') := fun h => ne_of_isDigit hc rfl (Option.some.inj h)
  unfold strtol
  rcases hsign with rfl | rfl | rfl
  · rw [List.nil_append, dropWhile_blanks hblanks (not_isspace hc)]
    simp only [List.head?_cons, hminus, hplus, or_self, if_false, hnum]
    exact hrest
  · rw [List.singleton_append, dropWhile_blanks hblanks rfl]
    simp only [List.head?_cons, List.tail_cons, true_or, if_true, hnum]
    exact hrest
  · rw [List.singleton_append, dropWhile_blanks hblanks rfl]
    simp only [List.head?_cons, List.tail_cons, or_true, if_true, hnum]
    exact hrest

lemma numeral_of_strtol (h : (strtol t).2 = []) (hne : t ≠ []) : Numeral t := by
  obtain ⟨rest, hrest⟩ : ∃ rest, rest = t.dropWhile isspace := ⟨_, rfl⟩
  obtain ⟨u, hu⟩ : ∃ u, u = if rest.head? = some (ch '-') ∨ rest.head? = some (ch '+') then rest.tail else rest :=
    ⟨_, rfl⟩
  have hsplit : t.takeWhile isspace ++ rest = t := hrest ▸ List.takeWhile_append_dropWhile
  have hblanks : ∀ c ∈ t.takeWhile isspace, isspace c = true := fun c hc => List.mem_takeWhile_imp hc
  unfold strtol at h
  dsimp only at h
  rw [← hrest, ← hu] at h
  by_cases hnone : u.head?.all (fun c => !isdigit c) = true
  · rw [if_pos hnone] at h
    exact absurd h hne
  · rw [if_neg hnone] at h
    have hu' : u ≠ [] := by
      rintro rfl
      exact hnone rfl
    have hdigits := strtolDigits_rest h
    -- what is in front of the digits is the sign
    have hsign : ∃ sign, (sign = [] ∨ sign = [ch '-'] ∨ sign = [ch '+']) ∧ rest = sign ++ u := by
      rw [hu]
      split_ifs with hhead
      · rcases hhead with hminus | hplus
        · obtain ⟨l, rfl⟩ := List.head?_eq_some_iff.mp hminus
          exact ⟨[ch '-'], .inr (.inl rfl), rfl⟩
        · obtain ⟨l, rfl⟩ := List.head?_eq_some_iff.mp hplus
          exact ⟨[ch '+'], .inr (.inr rfl), rfl⟩
      · exact ⟨[], .inl rfl, rfl⟩
    obtain ⟨sign, hsign, hfront⟩ := hsign
    exact ⟨t.takeWhile isspace, sign, u, by rw [← hfront, hsplit], hblanks, hsign, hu', hdigits⟩

/-- **What `parse_num` takes**, by its characters. -/
theorem readable_iff : Readable f ↔ (parseNum f).1 = 0 := by
  unfold Readable parseNum
  dsimp only
  generalize f.takeWhile (fun c => c ≠ 0) = t
  constructor
  · rintro (rfl | hnumeral)
    · rfl
    · rw [if_pos hnumeral.strtol_rest]
  · intro h
    split_ifs at h with hrest
    · exact or_iff_not_imp_left.mpr (numeral_of_strtol hrest)
    · cases h

instance (f : List UInt8) : Decidable (Readable f) := decidable_of_iff _ readable_iff.symm

lemma parseNum_of_readable (h : Readable f) : parseNum f = (0, fieldValue f) :=
  Prod.ext (readable_iff.mp h) rfl

lemma parseNum_of_not_readable (h : ¬ Readable f) : (parseNum f).1 = -EINVAL :=
  (parseNum_ret f).resolve_left fun hret => h (readable_iff.mpr hret)

/-- **A field of digits** is readable, and has its decimal value. -/
theorem parseNum_digits (hne : f ≠ []) (h : ∀ c ∈ f, IsDigit c) :
    parseNum f = (0, (decValue f : ℤ)) := by
  have hfield : f.takeWhile (fun c => c ≠ 0) = f := by
    rw [List.takeWhile_eq_self_iff]
    intro c hc
    exact decide_eq_true (ne_of_isDigit (h c hc) rfl)
  have hstrtol : strtol f = ((decValue f : ℤ), []) := by
    cases f with
    | nil => exact absurd rfl hne
    | cons c f =>
      have hc : IsDigit c := h c List.mem_cons_self
      have hblank : (c :: f).dropWhile isspace = c :: f := by
        rw [List.dropWhile_cons, not_isspace hc]
        rfl
      have hminus : (c :: f).head? ≠ some (ch '-') := by
        rw [List.head?_cons, Ne, Option.some_inj]
        exact ne_of_isDigit hc rfl
      have hplus : (c :: f).head? ≠ some (ch '+') := by
        rw [List.head?_cons, Ne, Option.some_inj]
        exact ne_of_isDigit hc rfl
      have hnum : ((c :: f).head?.all fun c => !isdigit c) = false := by
        rw [List.head?_cons, Option.all_some, isdigit_iff.mpr hc]
        rfl
      unfold strtol
      simp only [hblank, hminus, hplus, or_self, if_false, hnum]
      exact strtolDigits_of_all h 0
  unfold parseNum
  rw [hfield, hstrtol]
  rfl

lemma parseNum_dec (h : n < 10 ^ (k + 1)) : parseNum (dec (k + 1) n) = (0, (n : ℤ)) := by
  have hne : dec (k + 1) n ≠ [] := by
    rw [← List.length_pos_iff, length_dec]
    exact Nat.succ_pos k
  rw [parseNum_digits hne fun c hc => isDigit_of_mem_dec hc, decValue_dec h]

lemma parseNum_two (h : n < 100) : parseNum (dec 2 n) = (0, (n : ℤ)) := parseNum_dec h

lemma readable_two (h : n < 100) : Readable (dec 2 n) :=
  readable_iff.mpr (congrArg Prod.fst (parseNum_two h))

lemma fieldValue_two (h : n < 100) : fieldValue (dec 2 n) = n := congrArg Prod.snd (parseNum_two h)

/-! ### Bounds -/

lemma strtolDigits_bounds (hn : 0 ≤ v) :
    0 ≤ (strtolDigits v u).1 ∧ (strtolDigits v u).1 < (v + 1) * 10 ^ u.length := by
  induction u generalizing v with
  | nil => exact ⟨hn, by rw [strtolDigits, List.length_nil]; omega⟩
  | cons c u ih =>
    rw [strtolDigits]
    split_ifs with hc
    · have hdigit := (isdigit_iff.mp hc).digitValue_lt
      obtain ⟨hlow, hhigh⟩ := ih (v := 10 * v + digitValue c) (by omega)
      refine ⟨hlow, hhigh.trans_le ?_⟩
      rw [List.length_cons, pow_succ', ← mul_assoc]
      exact mul_le_mul_of_nonneg_right (by omega) (by positivity)
    · refine ⟨hn, ?_⟩
      change v < _
      have hpow : (1 : ℤ) ≤ 10 ^ (c :: u).length := one_le_pow₀ (by decide)
      calc v < (v + 1) * 1 := by omega
        _ ≤ (v + 1) * 10 ^ (c :: u).length := mul_le_mul_of_nonneg_left hpow (by omega)

/-- A sign takes the place of a digit. -/
lemma strtol_bounds (h : f.length ≤ k + 1) :
    -(10 ^ k : ℤ) < (strtol f).1 ∧ (strtol f).1 < 10 ^ (k + 1) := by
  have hblank : (f.dropWhile isspace).length ≤ k + 1 :=
    (List.length_dropWhile_le _ _).trans h
  have hpos : (0 : ℤ) < 10 ^ k := by positivity
  have hpos' : (0 : ℤ) < 10 ^ (k + 1) := by positivity
  have hdigits : ∀ u : List UInt8, ∀ j, u.length ≤ j →
      0 ≤ (strtolDigits 0 u).1 ∧ (strtolDigits 0 u).1 < (10 ^ j : ℤ) := by
    intro u j hj
    obtain ⟨hlow, hhigh⟩ := strtolDigits_bounds (v := 0) (u := u) le_rfl
    rw [zero_add, one_mul] at hhigh
    exact ⟨hlow, hhigh.trans_le (pow_le_pow_right₀ (by decide) hj)⟩
  unfold strtol
  generalize f.dropWhile isspace = t at hblank ⊢
  dsimp only
  split_ifs with hsign hnum hminus hnum hminus
  · exact ⟨by omega, hpos'⟩
  · have := hdigits t.tail k (by rw [List.length_tail]; omega)
    rw [pow_succ] at hpos' ⊢
    constructor <;> omega
  · have := hdigits t.tail k (by rw [List.length_tail]; omega)
    rw [pow_succ] at hpos' ⊢
    constructor <;> omega
  · exact ⟨by omega, hpos'⟩
  · exact absurd (Or.inl hminus) hsign
  · have := hdigits t (k + 1) hblank
    constructor <;> omega

lemma fieldValue_bounds (h : f.length ≤ k + 1) :
    -(10 ^ k : ℤ) < fieldValue f ∧ fieldValue f < 10 ^ (k + 1) :=
  strtol_bounds ((List.takeWhile_sublist _).length_le.trans h)

end Futils.Systime
