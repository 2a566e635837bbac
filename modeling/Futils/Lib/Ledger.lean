import Mathlib.Data.List.Basic
import Mathlib.Order.Nat

/-!
# Resources that are taken and given back

A ledger goes through the uses of resources in order.  It fails when a resource is given back that is not
held, and when more than `cap` would be held at once.  A stack is stricter: it fails when another resource than
the last one is given back, and it has a limit for each kind of them.
-/

namespace Futils.Lib

variable {R : Type*}

inductive Use (R : Type*)
  | take (r : R)
  | drop (r : R)
  deriving DecidableEq

variable [DecidableEq R]

/-- What is held after the uses. -/
def ledger (cap : ℕ) : List R → List (Use R) → Option (List R)
  | held, [] => some held
  | held, .take r :: uses => if held.length < cap then ledger cap (r :: held) uses else none
  | held, .drop r :: uses => if r ∈ held then ledger cap (held.erase r) uses else none

variable {cap : ℕ} {held : List R} {r : R} {us vs : List (Use R)}

lemma ledger_append :
    ledger cap held (us ++ vs) = (ledger cap held us).bind fun held => ledger cap held vs := by
  induction us generalizing held with
  | nil => rfl
  | cons u us ih =>
    cases u with
    | take r =>
      rw [List.cons_append, ledger, ledger]
      split_ifs
      · exact ih
      · rfl
    | drop r =>
      rw [List.cons_append, ledger, ledger]
      split_ifs
      · exact ih
      · rfl

/-! ### Stacks -/

section Stack

variable {κ : Type*} [DecidableEq κ] {kind : R → κ} {lim k l : κ → ℕ}

/-- What is held after the uses, the last one that was taken first; at most `lim c` of a kind `c`. -/
def stack (kind : R → κ) (lim : κ → ℕ) : List R → List (Use R) → Option (List R)
  | held, [] => some held
  | held, .take r :: uses =>
    if held.countP (kind · = kind r) < lim (kind r) then stack kind lim (r :: held) uses else none
  | held, .drop r :: uses => if held.head? = some r then stack kind lim held.tail uses else none

/-- The uses give back all that they take, the last one first, and nothing else; they hold at most `k c` of a
kind `c` at once. -/
def Nests (kind : R → κ) (k : κ → ℕ) (uses : List (Use R)) : Prop :=
  ∀ lim held, (∀ c, held.countP (kind · = c) + k c ≤ lim c) → stack kind lim held uses = some held

lemma stack_append : stack kind lim held (us ++ vs) =
    (stack kind lim held us).bind fun held => stack kind lim held vs := by
  induction us generalizing held with
  | nil => rfl
  | cons u us ih =>
    cases u with
    | take r =>
      rw [List.cons_append, stack, stack]
      split_ifs
      · exact ih
      · rfl
    | drop r =>
      rw [List.cons_append, stack, stack]
      split_ifs
      · exact ih
      · rfl

lemma nests_nil : Nests kind k ([] : List (Use R)) := fun _ _ _ => rfl

lemma Nests.append (hu : Nests kind k us) (hv : Nests kind k vs) : Nests kind k (us ++ vs) := by
  intro lim held hlim
  rw [stack_append, hu lim held hlim]
  exact hv lim held hlim

/-- **A resource is held while others are used.** -/
lemma Nests.wrap (h : Nests kind k us) (r : R) (hkl : ∀ c, k c + (if kind r = c then 1 else 0) ≤ l c) :
    Nests kind l (.take r :: us ++ [.drop r]) := by
  intro lim held hlim
  have hroom : held.countP (kind · = kind r) < lim (kind r) := by
    have hone := hkl (kind r)
    rw [if_pos rfl] at hone
    have hle := hlim (kind r)
    omega
  have hin : ∀ c, (r :: held).countP (kind · = c) + k c ≤ lim c := by
    intro c
    have hmore := hkl c
    have hle := hlim c
    rw [List.countP_cons]
    simp only [decide_eq_true_eq]
    omega
  rw [List.cons_append, stack, if_pos hroom, stack_append, h lim (r :: held) hin]
  change stack kind lim (r :: held) [.drop r] = some held
  rw [stack, if_pos List.head?_cons, List.tail_cons, stack]

end Stack

/-! ### Resources that are kept -/

/-- **The uses turn `pre` into `post`**, whatever else is held: they find what they give back and leave the
rest alone, as long as there is room for what they take. -/
def Changes (pre : List R) (uses : List (Use R)) (post : List R) : Prop :=
  ∀ cap held rest, held.Perm (pre ++ rest) → held.length + uses.length ≤ cap →
    ∃ after, ledger cap held uses = some after ∧ after.Perm (post ++ rest)

/-- Each use takes one resource at most. -/
lemma length_ledger {after : List R} (h : ledger cap held us = some after) :
    after.length ≤ held.length + us.length := by
  induction us generalizing held with
  | nil =>
    obtain rfl := Option.some.inj h
    exact Nat.le_refl _
  | cons u us ih =>
    cases u with
    | take r =>
      rw [ledger] at h
      split_ifs at h
      have hle := ih h
      simp only [List.length_cons] at hle ⊢
      omega
    | drop r =>
      rw [ledger] at h
      split_ifs at h with hr
      have hle := ih h
      rw [List.length_erase_of_mem hr] at hle
      rw [List.length_cons]
      omega

variable {pre mid post : List R}

lemma changes_nil : Changes pre [] pre := fun _ held _ hheld _ => ⟨held, rfl, hheld⟩

lemma changes_take (r : R) : Changes pre [.take r] (r :: pre) := by
  intro cap held rest hheld hcap
  rw [List.length_singleton] at hcap
  refine ⟨r :: held, ?_, hheld.cons r⟩
  rw [ledger, if_pos (by omega), ledger]

lemma changes_drop (r : R) : Changes (r :: pre) [.drop r] pre := by
  intro cap held rest hheld hcap
  have hr : r ∈ held := hheld.mem_iff.mpr (List.mem_cons_self ..)
  refine ⟨held.erase r, ?_, ?_⟩
  · rw [ledger, if_pos hr, ledger]
  · have herase := hheld.erase r
    rwa [List.cons_append, List.erase_cons_head] at herase

lemma Changes.append (hu : Changes pre us mid) (hv : Changes mid vs post) : Changes pre (us ++ vs) post := by
  intro cap held rest hheld hcap
  rw [List.length_append] at hcap
  obtain ⟨between, hbetween, hmid⟩ := hu cap held rest hheld (by omega)
  have hlen := length_ledger hbetween
  obtain ⟨after, hafter, hpost⟩ := hv cap between rest hmid (by omega)
  refine ⟨after, ?_, hpost⟩
  rw [ledger_append, hbetween]
  exact hafter

/-- What else is held is left alone. -/
lemma Changes.frame (h : Changes pre us post) (extra : List R) : Changes (pre ++ extra) us (post ++ extra) := by
  intro cap held rest hheld hcap
  rw [List.append_assoc] at hheld
  obtain ⟨after, hafter, hpost⟩ := h cap held (extra ++ rest) hheld hcap
  refine ⟨after, hafter, ?_⟩
  rwa [List.append_assoc]

/-- A resource is taken first. -/
lemma Changes.after_take (h : Changes [] us post) (r : R) : Changes [] ([.take r] ++ us) (post ++ [r]) :=
  (changes_take r).append (h.frame [r])

/-- The order in which resources are listed does not matter. -/
lemma Changes.perm {pre' post' : List R} (h : Changes pre us post) (hpre : pre.Perm pre')
    (hpost : post.Perm post') : Changes pre' us post' := by
  intro cap held rest hheld hcap
  obtain ⟨after, hafter, hperm⟩ := h cap held rest (hheld.trans (hpre.symm.append_right rest)) hcap
  exact ⟨after, hafter, hperm.trans (hpost.append_right rest)⟩

/-- Resources are taken one after the other. -/
lemma changes_takes (pre rs : List R) : Changes pre (rs.map .take) (rs.reverse ++ pre) := by
  induction rs generalizing pre with
  | nil => exact changes_nil
  | cons r rs ih =>
    rw [List.reverse_cons, List.append_assoc]
    exact (changes_take r).append (ih (r :: pre))

/-- And given back. -/
lemma changes_drops (rs : List R) : Changes rs (rs.map .drop) [] := by
  induction rs with
  | nil => exact changes_nil
  | cons r rs ih => exact (changes_drop r).append ih

end Futils.Lib
