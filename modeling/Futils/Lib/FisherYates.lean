import Mathlib.Data.Fintype.Card
import Mathlib.Data.List.Permutation
import Mathlib.Data.Set.Card

/-!
# Fisher and Yates' shuffle

The first item changes places with the one at the drawn index, and the others are shuffled in the same way.
The draws are numbers that get smaller by one at each step, and each arrangement of distinct items comes from
one sequence of draws.
-/

namespace Futils.Lib

variable {α : Type*} {l l' xs : List α} {x y : α} {r k n : ℕ} {rs rs' : List ℕ}

/-- The first item changes places with the one at the index `r`. -/
def swapHead : ℕ → List α → List α
  | r + 1, x :: xs => if h : r < xs.length then xs[r] :: xs.set r x else x :: xs
  | _, l => l

def fisherYates : List ℕ → List α → List α
  | r :: rs, l =>
    match swapHead r l with
    | [] => []
    | x :: xs => x :: fisherYates rs xs
  | [], l => l

/-- The draws for `n` items: of `n - u` items that are left, the one at the index `r_u`. -/
def Choices (n : ℕ) (rs : List ℕ) : Prop :=
  rs.length = n - 1 ∧ ∀ u (h : u < rs.length), rs[u] ≤ n - 1 - u

lemma choices_cons : Choices (k + 2) (r :: rs) ↔ r ≤ k + 1 ∧ Choices (k + 1) rs := by
  unfold Choices
  constructor
  · rintro ⟨hlen, hle⟩
    refine ⟨hle 0 (Nat.zero_lt_succ _), Nat.succ_injective hlen, ?_⟩
    intro u hu
    have hnext := hle (u + 1) (Nat.succ_lt_succ hu)
    rw [List.getElem_cons_succ] at hnext
    omega
  · rintro ⟨hr, hlen, hle⟩
    refine ⟨congrArg Nat.succ hlen, ?_⟩
    rintro (_ | u) hu
    · exact hr
    · have hnext := hle u (Nat.lt_of_succ_lt_succ hu)
      rw [List.getElem_cons_succ]
      omega

/-- Where there is a draw, there are two items. -/
lemma Choices.of_cons (h : Choices (n + 1) (r :: rs)) :
    ∃ k, n = k + 1 ∧ r ≤ k + 1 ∧ Choices (k + 1) rs := by
  cases n with
  | zero => exact absurd h.1 (Nat.succ_ne_zero _)
  | succ k => exact ⟨k, rfl, choices_cons.mp h⟩

lemma choices_pred_add_one : Choices (k - 1 + 1) rs ↔ Choices k rs := by
  unfold Choices
  rw [Nat.add_sub_cancel]

lemma Choices.eq_nil (h : Choices k rs) (hk : k ≤ 1) : rs = [] := by
  refine List.eq_nil_of_length_eq_zero ?_
  rw [h.1]
  omega

lemma choices_nil (hk : k ≤ 1) : Choices k [] := ⟨by rw [List.length_nil]; omega, nofun⟩

/-! ### One step -/

@[simp] lemma swapHead_zero (l : List α) : swapHead 0 l = l := by
  cases l <;> rfl

lemma swapHead_of_lt (h : r < xs.length) : swapHead (r + 1) (x :: xs) = xs[r] :: xs.set r x := dif_pos h

lemma swapHead_perm (r : ℕ) (l : List α) : (swapHead r l).Perm l := by
  cases l with
  | nil => cases r <;> exact .rfl
  | cons x xs =>
    cases r with
    | zero => exact .rfl
    | succ r =>
      rw [swapHead]
      split_ifs with h
      · exact @List.set_set_perm α (x :: xs) 0 (r + 1) (Nat.zero_lt_succ _) (Nat.succ_lt_succ h)
      · exact .rfl

/-- The item at the index `r` comes first. -/
lemma exists_swapHead (h : r < l.length) : ∃ xs, swapHead r l = l[r] :: xs := by
  cases l with
  | nil => exact absurd h (Nat.not_lt_zero r)
  | cons x xs =>
    cases r with
    | zero => exact ⟨xs, rfl⟩
    | succ r => exact ⟨_, swapHead_of_lt (Nat.lt_of_succ_lt_succ h)⟩

/-! ### The shuffle -/

lemma fisherYates_cons (h : swapHead r l = x :: xs) : fisherYates (r :: rs) l = x :: fisherYates rs xs := by
  rw [fisherYates, h]

/-- **The items are rearranged.** -/
theorem fisherYates_perm (rs : List ℕ) (l : List α) : (fisherYates rs l).Perm l := by
  induction rs generalizing l with
  | nil => exact .rfl
  | cons r rs ih =>
    have hperm := swapHead_perm r l
    rw [fisherYates]
    rcases hswap : swapHead r l with _ | ⟨x, xs⟩
    · rw [hswap] at hperm
      exact hperm
    · rw [hswap] at hperm
      exact ((ih xs).cons x).trans hperm

/-- **Different draws give different arrangements** of distinct items. -/
lemma fisherYates_injective (hl : l.Nodup) (h : Choices l.length rs) (h' : Choices l.length rs')
    (heq : fisherYates rs l = fisherYates rs' l) : rs = rs' := by
  induction rs generalizing l rs' with
  | nil =>
    refine (List.eq_nil_of_length_eq_zero ?_).symm
    rw [h'.1, ← h.1]
    rfl
  | cons r rs ih =>
    obtain ⟨k, hk⟩ : ∃ k, l.length = k + 2 := by
      have hlen := h.1
      rw [List.length_cons] at hlen
      exact ⟨l.length - 2, by omega⟩
    rw [hk] at h h'
    cases rs' with
    | nil => exact absurd h'.1 (Nat.zero_ne_add_one k)
    | cons r' rs' =>
      obtain ⟨hr, hrs⟩ := choices_cons.mp h
      obtain ⟨hr', hrs'⟩ := choices_cons.mp h'
      obtain ⟨xs, hxs⟩ := exists_swapHead (l := l) (r := r) (by omega)
      obtain ⟨xs', hxs'⟩ := exists_swapHead (l := l) (r := r') (by omega)
      rw [fisherYates_cons hxs, fisherYates_cons hxs'] at heq
      obtain ⟨hfirst, hrest⟩ := List.cons_eq_cons.mp heq
      obtain rfl := hl.getElem_inj_iff.mp hfirst
      obtain rfl : xs = xs' := (List.cons_eq_cons.mp (hxs.symm.trans hxs')).2
      have hperm := hxs ▸ swapHead_perm r l
      have hlen := hperm.length_eq
      rw [List.length_cons, hk] at hlen
      rw [← Nat.succ_injective hlen] at hrs hrs'
      rw [ih (hperm.nodup_iff.mpr hl).of_cons hrs hrs' hrest]

/-- **Every arrangement** comes from draws. -/
lemma exists_choices (h : l'.Perm l) : ∃ rs, Choices l.length rs ∧ fisherYates rs l = l' := by
  induction l' generalizing l with
  | nil => exact ⟨[], choices_nil (by rw [← h.length_eq]; exact Nat.zero_le 1), h.nil_eq.symm⟩
  | cons y l' ih =>
    obtain ⟨r, hr, rfl⟩ := List.getElem_of_mem (h.mem_iff.mp List.mem_cons_self)
    obtain ⟨xs, hxs⟩ := exists_swapHead hr
    have hperm := swapHead_perm r l
    rw [hxs] at hperm
    obtain ⟨rs, hrs, heq⟩ := ih (h.trans hperm.symm).cons_inv
    have hlen := hperm.length_eq
    rw [List.length_cons] at hlen
    cases xs with
    | nil =>
      obtain rfl : l' = [] := by
        rw [← heq, hrs.eq_nil (Nat.zero_le 1)]
        rfl
      exact ⟨[], choices_nil hlen.ge, List.perm_singleton.mp h.symm⟩
    | cons x xs =>
      rw [List.length_cons] at hlen hrs
      refine ⟨r :: rs, ?_, ?_⟩
      · rw [← hlen]
        exact choices_cons.mpr ⟨by omega, hrs⟩
      · rw [fisherYates_cons hxs, heq]

/-- **The shuffle is unbiased**: the sequences of draws and the arrangements of distinct items are as many
as each other, and each sequence gives one of them. -/
theorem bijOn_fisherYates (hl : l.Nodup) :
    Set.BijOn (fisherYates · l) {rs | Choices l.length rs} {l' | l'.Perm l} :=
  ⟨fun rs _ => fisherYates_perm rs l, fun _ h _ h' heq => fisherYates_injective hl h h' heq,
    fun _ h => exists_choices h⟩

lemma ncard_perm (hl : l.Nodup) : {l' : List α | l'.Perm l}.ncard = l.length.factorial := by
  classical
  have hset : {l' : List α | l'.Perm l} = (l.permutations.toFinset : Set (List α)) := by
    ext l'
    simp
  rw [hset, Set.ncard_coe_finset, List.toFinset_card_of_nodup (List.nodup_permutations l hl),
    List.length_permutations]

end Futils.Lib
