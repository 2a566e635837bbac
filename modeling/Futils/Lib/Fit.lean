import Mathlib.Algebra.BigOperators.Group.List.Basic
import Mathlib.Algebra.GroupWithZero.Nat
import Mathlib.Data.List.Infix

/-!
# The longest prefix that fits

Items have sizes, and `fit size n l` is what is put in a space of `n` when the items of `l` are put there
one after the other and the first one that is too large ends it.
-/

namespace Futils.Lib

variable {α : Type*} {size : α → ℕ} {n : ℕ} {l p : List α}

def fit (size : α → ℕ) : ℕ → List α → List α
  | _, [] => []
  | n, a :: l => if size a ≤ n then a :: fit size (n - size a) l else []

/-- The size of a list. -/
def total (size : α → ℕ) (l : List α) : ℕ := (l.map size).sum

@[simp] lemma total_nil : total size [] = 0 := rfl

@[simp] lemma total_cons (a : α) : total size (a :: l) = size a + total size l := List.sum_cons

@[simp] lemma total_append (l' : List α) : total size (l ++ l') = total size l + total size l' := by
  unfold total
  rw [List.map_append, List.sum_append]

lemma total_replicate (k : ℕ) (a : α) : total size (List.replicate k a) = k * size a := by
  unfold total
  rw [List.map_replicate, List.sum_replicate_nat]

lemma total_le_of_isPrefix (h : p <+: l) : total size p ≤ total size l := by
  obtain ⟨rest, rfl⟩ := h
  rw [total_append]
  exact Nat.le_add_right _ _

/-- Items that are not empty are not more than their size. -/
lemma length_le_total (h : ∀ a, 0 < size a) : l.length ≤ total size l := by
  induction l with
  | nil => exact Nat.zero_le _
  | cons a l ih =>
    rw [List.length_cons, total_cons]
    have ha := h a
    omega

lemma fit_isPrefix (n : ℕ) (l : List α) : fit size n l <+: l := by
  induction l generalizing n with
  | nil => exact List.nil_prefix
  | cons a l ih =>
    rw [fit]
    split_ifs
    · exact List.cons_prefix_cons.mpr ⟨rfl, ih _⟩
    · exact List.nil_prefix

lemma total_fit_le (n : ℕ) (l : List α) : total size (fit size n l) ≤ n := by
  induction l generalizing n with
  | nil => exact Nat.zero_le _
  | cons a l ih =>
    rw [fit]
    split_ifs with ha
    · have hrest := ih (n - size a)
      rw [total_cons]
      omega
    · exact Nat.zero_le _

/-- **It is the longest.** -/
lemma prefix_fit (hp : p <+: l) (h : total size p ≤ n) : p <+: fit size n l := by
  induction l generalizing n p with
  | nil => exact hp
  | cons a l ih =>
    cases p with
    | nil => exact List.nil_prefix
    | cons b p =>
      obtain ⟨rfl, hrest⟩ := List.cons_prefix_cons.mp hp
      rw [total_cons] at h
      rw [fit, if_pos (by omega)]
      exact List.cons_prefix_cons.mpr ⟨rfl, ih hrest (by omega)⟩

lemma fit_eq_self : fit size n l = l ↔ total size l ≤ n := by
  constructor
  · intro h
    have hle : total size (fit size n l) ≤ n := total_fit_le n l
    rwa [h] at hle
  · intro h
    exact (fit_isPrefix n l).eq_of_length_le (prefix_fit List.prefix_rfl h).length_le

/-- What fits, fits again. -/
lemma fit_fit (n : ℕ) (l : List α) : fit size n (fit size n l) = fit size n l :=
  fit_eq_self.mpr (total_fit_le n l)

lemma total_take_succ {j : ℕ} {a : α} (h : l[j]? = some a) :
    total size (l.take (j + 1)) = total size (l.take j) + size a := by
  rw [List.take_add_one, h, total_append]
  rfl

/-- **What fits**: the items up to the first one that is too large. -/
lemma lt_length_fit {j : ℕ} : j < (fit size n l).length ↔ j < l.length ∧ total size (l.take (j + 1)) ≤ n := by
  constructor
  · intro h
    have hp : l.take (j + 1) <+: fit size n l := by
      refine List.prefix_of_prefix_length_le (List.take_prefix _ l) (fit_isPrefix n l) ?_
      rw [List.length_take]
      exact (Nat.min_le_left _ _).trans h
    exact ⟨h.trans_le (fit_isPrefix n l).length_le, (total_le_of_isPrefix hp).trans (total_fit_le n l)⟩
  · rintro ⟨hj, hle⟩
    have hp := (prefix_fit (List.take_prefix _ l) hle).length_le
    rw [List.length_take, Nat.min_eq_left hj] at hp
    exact hp

lemma fit_eq_take : fit size n l = l.take (fit size n l).length :=
  List.prefix_iff_eq_take.mp (fit_isPrefix n l)

lemma getElem?_fit {j : ℕ} (hj : j < (fit size n l).length) : (fit size n l)[j]? = l[j]? := by
  rw [fit_eq_take, List.getElem?_take_of_lt hj]

end Futils.Lib
