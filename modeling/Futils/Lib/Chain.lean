import Mathlib.Data.List.Basic
import Mathlib.Data.List.Nodup

/-!
# Chains in a heap

A heap gives the block at each address, if one is allocated there; address `0` is the null pointer.
`Chain next heap p as` says that the pointer `p` is the start of a chain of the blocks at the
addresses `as`, linked by `next` and ended by a null pointer.
-/

namespace Futils.Lib

/-- The blocks that are allocated. -/
abbrev Heap (N : Type*) := ℕ → Option N

/-- A chain of blocks that starts at `p`. -/
def Chain {N : Type*} (next : N → ℕ) (heap : Heap N) : ℕ → List ℕ → Prop
  | p, [] => p = 0
  | p, a :: as => p = a ∧ a ≠ 0 ∧ ∃ e, heap a = some e ∧ Chain next heap (next e) as

/-- What `f` gives for the blocks at the addresses `as`. -/
def values {N β : Type*} (f : N → β) (heap : Heap N) (as : List ℕ) : List β :=
  as.filterMap fun a => (heap a).map f

variable {N β : Type*} {next : N → ℕ} {heap heap' : Heap N} {f : N → β} {p a b : ℕ}
  {as bs : List ℕ}

/-! ### The values of a chain -/

@[simp] lemma values_nil : values f heap [] = [] := rfl

lemma values_cons {e : N} (h : heap a = some e) :
    values f heap (a :: as) = f e :: values f heap as := by
  simp [values, h]

@[simp] lemma values_append : values f heap (as ++ bs) = values f heap as ++ values f heap bs := by
  simp [values]

lemma values_congr (h : ∀ a ∈ as, (heap' a).map f = (heap a).map f) :
    values f heap' as = values f heap as :=
  List.filterMap_congr h

/-! ### Chains -/

/-- A chain is the same in every heap that agrees on its blocks. -/
lemma Chain.congr (h : Chain next heap p as) (heq : ∀ a ∈ as, heap' a = heap a) :
    Chain next heap' p as := by
  induction as generalizing p with
  | nil => exact h
  | cons a as ih =>
    obtain ⟨hp, ha, e, he, hrest⟩ := h
    refine ⟨hp, ha, e, ?_, ih hrest fun b hb => heq b (List.mem_cons_of_mem _ hb)⟩
    rw [heq a List.mem_cons_self, he]

lemma Chain.live (h : Chain next heap p as) (ha : a ∈ as) : a ≠ 0 ∧ ∃ e, heap a = some e := by
  induction as generalizing p with
  | nil => cases ha
  | cons b as ih =>
    obtain ⟨-, hb, e, he, hrest⟩ := h
    rcases List.mem_cons.mp ha with rfl | ha
    · exact ⟨hb, e, he⟩
    · exact ih hrest ha

/-- A block that is not allocated is in no chain. -/
lemma Chain.not_mem (h : Chain next heap p as) (ha : heap a = none) : a ∉ as := by
  intro hmem
  obtain ⟨-, e, he⟩ := h.live hmem
  rw [ha] at he
  cases he

/-- Different values are in different blocks. -/
lemma Chain.nodup (h : Chain next heap p as) (hv : (values f heap as).Nodup) : as.Nodup := by
  induction as generalizing p with
  | nil => exact List.nodup_nil
  | cons a as ih =>
    obtain ⟨-, -, e, he, hrest⟩ := h
    rw [values_cons he, List.nodup_cons] at hv
    refine List.nodup_cons.mpr ⟨?_, ih hrest hv.2⟩
    intro ha
    refine hv.1 (List.mem_filterMap.mpr ⟨a, ha, ?_⟩)
    rw [he, Option.map_some]

/-- A new block is put in front of a chain. -/
lemma Chain.cons {e : N} (h : Chain next heap p as) (ha : a ≠ 0) (hnew : a ∉ as)
    (hother : ∀ b, b ≠ a → heap' b = heap b) (he : heap' a = some e) (hnext : next e = p) :
    Chain next heap' a (a :: as) := by
  refine ⟨rfl, ha, e, he, ?_⟩
  rw [hnext]
  refine h.congr fun b hb => hother b ?_
  rintro rfl
  exact hnew hb

/-- **A block is unlinked** by the block before it. -/
lemma Chain.unlink {eb ea eb' : N} (h : Chain next heap p (as ++ b :: a :: bs))
    (hnodup : (as ++ b :: a :: bs).Nodup) (ha : heap a = some ea) (hb : heap b = some eb)
    (hb' : heap' b = some eb') (hnext : next eb' = next ea)
    (hother : ∀ c, c ≠ a → c ≠ b → heap' c = heap c) :
    Chain next heap' p (as ++ b :: bs) := by
  induction as generalizing p with
  | nil =>
    obtain ⟨hp, hb0, e, he, -, ha0, e₁, he₁, hrest⟩ := h
    obtain rfl := Option.some.inj (ha.symm.trans he₁)
    refine ⟨hp, hb0, eb', hb', ?_⟩
    rw [hnext]
    simp only [List.nil_append, List.nodup_cons, List.mem_cons, not_or] at hnodup
    refine hrest.congr fun c hc => hother c ?_ ?_
    · rintro rfl
      exact hnodup.2.1 hc
    · rintro rfl
      exact hnodup.1.2 hc
  | cons c as ih =>
    obtain ⟨hp, hc0, e, he, hrest⟩ := h
    rw [List.cons_append, List.nodup_cons] at hnodup
    refine ⟨hp, hc0, e, ?_, ih hrest hnodup.2⟩
    rw [hother c ?_ ?_, he]
    · rintro rfl
      exact hnodup.1 (by simp)
    · rintro rfl
      exact hnodup.1 (by simp)

end Futils.Lib
