import Mathlib.Data.List.Chain
import Mathlib.Data.List.Nodup

/-!
# Circular doubly linked lists

`next` and `prev` give the links of the elements.  A circular list goes from its head through its
elements and back, and each link of it has its counterpart.  A place in the list is given by the elements
before it and those after it: `as.getLastD head` stands before the place and `bs.headD head` after it.
-/

namespace Futils.Lib

/-- `a` and `b` point to each other. -/
def Linked {α : Type*} (next prev : α → α) (a b : α) : Prop := next a = b ∧ prev b = a

/-- The circular list of `head` and the elements `l`. -/
structure Circular {α : Type*} (next prev : α → α) (head : α) (l : List α) : Prop where
  nodup : (head :: l).Nodup
  linked : (head :: l ++ [head]).IsChain (Linked next prev)

variable {α : Type*} {next prev next' prev' : α → α} {head a x : α} {l as bs : List α}

/-! ### Places -/

lemma headD_mem_cons (bs : List α) (head : α) : bs.headD head ∈ head :: bs := by
  rcases bs with _ | ⟨b, bs⟩
  · exact List.mem_singleton_self head
  · simp

/-- Each element but the last is different from the last. -/
lemma ne_getLastD (h : (head :: as).Nodup) (ha : a ∈ (head :: as).dropLast) :
    a ≠ as.getLastD head := by
  rcases List.eq_nil_or_concat' as with rfl | ⟨as, b, rfl⟩
  · cases ha
  · rw [← List.cons_append, List.dropLast_concat] at ha
    rw [← List.cons_append, List.nodup_append_comm] at h
    rintro rfl
    simp only [List.getLastD_concat, List.singleton_append, List.nodup_cons] at h ha
    exact h.1 ha

/-- Each element but the first is different from the first. -/
lemma ne_headD (h : (head :: bs).Nodup) (ha : a ∈ (bs ++ [head]).tail) : a ≠ bs.headD head := by
  rcases bs with _ | ⟨b, bs⟩
  · cases ha
  · simp only [List.nodup_cons, List.mem_cons, not_or, List.cons_append, List.tail_cons, List.mem_append,
      List.not_mem_nil, or_false, List.headD_cons] at h ha ⊢
    rintro rfl
    rcases ha with ha | rfl
    · exact h.2.1 ha
    · exact h.1.1 rfl

lemma not_mem_before (h : (as ++ a :: bs).Nodup) : a ∉ as :=
  fun ha => (List.nodup_append'.mp h).2.2 ha List.mem_cons_self

/-! ### Links -/

/-- A chain needs the next elements of all but the last, and the previous ones of all but the first. -/
lemma isChain_linked_congr (h : l.IsChain (Linked next prev))
    (hnext : ∀ a ∈ l.dropLast, next' a = next a) (hprev : ∀ a ∈ l.tail, prev' a = prev a) :
    l.IsChain (Linked next' prev') := by
  induction h with
  | nil => exact List.isChain_nil
  | singleton a => exact List.isChain_singleton a
  | @cons_cons a b l hab _ ih =>
    rw [List.dropLast_cons_cons] at hnext
    refine List.isChain_cons_cons.mpr ⟨⟨?_, ?_⟩, ih ?_ ?_⟩
    · rw [hnext a List.mem_cons_self, hab.1]
    · rw [hprev b List.mem_cons_self, hab.2]
    · intro c hc
      exact hnext c (List.mem_cons_of_mem _ hc)
    · intro c hc
      exact hprev c (List.mem_cons_of_mem _ hc)

/-- A circular list is cut at a place. -/
lemma circular_append : Circular next prev head (as ++ bs) ↔
    (head :: (as ++ bs)).Nodup ∧ (head :: as).IsChain (Linked next prev) ∧
      (bs ++ [head]).IsChain (Linked next prev) ∧
      Linked next prev (as.getLastD head) (bs.headD head) := by
  have hlast : (head :: as).getLast? = some (as.getLastD head) := by
    rw [List.getLast?_cons, List.getLastD_eq_getLast?]
  have hhead : (bs ++ [head]).head? = some (bs.headD head) := by
    rcases bs with _ | ⟨b, bs⟩ <;> rfl
  have hcut : (head :: (as ++ bs) ++ [head]).IsChain (Linked next prev) ↔
      (head :: as).IsChain (Linked next prev) ∧ (bs ++ [head]).IsChain (Linked next prev) ∧
        Linked next prev (as.getLastD head) (bs.headD head) := by
    rw [← List.cons_append, List.append_assoc, List.isChain_append, hlast, hhead]
    simp only [Option.mem_some_iff, forall_eq']
  exact ⟨fun h => ⟨h.nodup, hcut.mp h.linked⟩, fun h => ⟨h.1, hcut.mpr h.2⟩⟩

lemma Circular.gap (h : Circular next prev head (as ++ bs)) :
    Linked next prev (as.getLastD head) (bs.headD head) := (circular_append.mp h).2.2.2

lemma Circular.next_head (h : Circular next prev head l) : next head = l.headD head :=
  (Circular.gap (show Circular next prev head ([] ++ l) from h)).1

/-- A circular list is the same where the links of its elements are. -/
lemma Circular.congr (h : Circular next prev head l)
    (heq : ∀ a ∈ head :: l, next' a = next a ∧ prev' a = prev a) : Circular next' prev' head l := by
  have hmem : ∀ a ∈ head :: l ++ [head], a ∈ head :: l := by
    intro a ha
    rcases List.mem_append.mp ha with ha | ha
    · exact ha
    · rw [List.mem_singleton.mp ha]
      exact List.mem_cons_self
  refine ⟨h.nodup, isChain_linked_congr h.linked (fun a ha => ?_) (fun a ha => ?_)⟩
  · exact (heq a (hmem a (List.dropLast_subset _ ha))).1
  · exact (heq a (hmem a (List.mem_of_mem_tail ha))).2

/-- A circular list is one in the other direction. -/
lemma Circular.reverse (h : Circular next prev head l) : Circular prev next head l.reverse := by
  constructor
  · rw [List.nodup_cons, List.mem_reverse, List.nodup_reverse]
    exact List.nodup_cons.mp h.nodup
  · have hreverse : head :: l.reverse ++ [head] = (head :: l ++ [head]).reverse := by simp
    rw [hreverse, List.isChain_reverse]
    exact h.linked.imp fun a b hab => ⟨hab.2, hab.1⟩

/-- The two sides of a place stay, where only the links across it change. -/
lemma sides_congr (hnodup : (head :: (as ++ bs)).Nodup)
    (hnext : ∀ a ∈ head :: (as ++ bs), a ≠ as.getLastD head → next' a = next a)
    (hprev : ∀ a ∈ head :: (as ++ bs), a ≠ bs.headD head → prev' a = prev a)
    (has : (head :: as).IsChain (Linked next prev)) (hbs : (bs ++ [head]).IsChain (Linked next prev)) :
    (head :: as).IsChain (Linked next' prev') ∧ (bs ++ [head]).IsChain (Linked next' prev') := by
  have hnodup' := hnodup
  rw [← List.cons_append, List.nodup_append'] at hnodup'
  obtain ⟨hnodupAs, hnodupBs, hdisjoint⟩ := hnodup'
  have hheadBs : (head :: bs).Nodup :=
    List.nodup_cons.mpr ⟨hdisjoint List.mem_cons_self, hnodupBs⟩
  refine ⟨isChain_linked_congr has (fun a ha => ?_) (fun a ha => ?_),
    isChain_linked_congr hbs (fun a ha => ?_) (fun a ha => ?_)⟩
  · refine hnext a ?_ (ne_getLastD hnodupAs ha)
    exact List.mem_append_left bs (List.dropLast_subset _ ha)
  · refine hprev a (List.mem_cons_of_mem _ (List.mem_append_left bs ha)) ?_
    rintro rfl
    rcases List.mem_cons.mp (headD_mem_cons bs head) with h | h
    · exact (List.nodup_cons.mp hnodupAs).1 (h ▸ ha)
    · exact hdisjoint (List.mem_cons_of_mem _ ha) h
  · rw [List.dropLast_concat] at ha
    refine hnext a (List.mem_cons_of_mem _ (List.mem_append_right as ha)) ?_
    rintro rfl
    exact hdisjoint (List.getLastD_mem_cons) ha
  · refine hprev a ?_ (ne_headD hheadBs ha)
    rcases List.mem_append.mp (List.mem_of_mem_tail ha) with ha | ha
    · exact List.mem_cons_of_mem _ (List.mem_append_right as ha)
    · rw [List.mem_singleton.mp ha]
      exact List.mem_cons_self

/-! ### Operations -/

section Operations

variable [DecidableEq α]

/-- **An element is put in at a place.** -/
lemma Circular.insert (h : Circular next prev head (as ++ bs)) (hx : x ∉ head :: (as ++ bs))
    (hnext : ∀ a, next' a = if a = as.getLastD head then x else if a = x then bs.headD head else next a)
    (hprev : ∀ a, prev' a = if a = bs.headD head then x else if a = x then as.getLastD head else prev a) :
    Circular next' prev' head (as ++ x :: bs) := by
  obtain ⟨hnodup, has, hbs, -⟩ := circular_append.mp h
  have hne : ∀ a ∈ head :: (as ++ bs), a ≠ x := fun a ha => ne_of_mem_of_not_mem ha hx
  have hlast : as.getLastD head ∈ head :: (as ++ bs) :=
    List.mem_append_left bs (List.getLastD_mem_cons)
  have hhead : bs.headD head ∈ head :: (as ++ bs) := by
    rcases List.mem_cons.mp (headD_mem_cons bs head) with h | h
    · rw [h]
      exact List.mem_cons_self
    · exact List.mem_cons_of_mem _ (List.mem_append_right as h)
  obtain ⟨has', hbs'⟩ : (head :: as).IsChain (Linked next' prev') ∧
      (bs ++ [head]).IsChain (Linked next' prev') := sides_congr hnodup
    (fun a ha hp => by rw [hnext, if_neg hp, if_neg (hne a ha)])
    (fun a ha hn => by rw [hprev, if_neg hn, if_neg (hne a ha)]) has hbs
  have hnodup' : (head :: (as ++ x :: bs)).Nodup := by
    rw [← List.cons_append, List.nodup_middle]
    exact List.nodup_cons.mpr ⟨hx, hnodup⟩
  refine circular_append.mpr ⟨hnodup', has', ?_, ?_, ?_⟩
  · rw [List.cons_append, List.isChain_cons]
    refine ⟨fun y hy => ?_, hbs'⟩
    obtain rfl : y = bs.headD head := by
      rcases bs with _ | ⟨b, bs⟩
      · exact (Option.some.inj hy).symm
      · exact (Option.some.inj hy).symm
    constructor
    · rw [hnext, if_neg (hne _ hlast).symm, if_pos rfl]
    · rw [hprev, if_pos rfl]
  · rw [hnext, if_pos rfl, List.headD_cons]
  · rw [List.headD_cons, hprev, if_neg (hne _ hhead).symm, if_pos rfl]

/-- **An element is taken out.** -/
lemma Circular.detach (h : Circular next prev head (as ++ x :: bs))
    (hnext : ∀ a, next' a = if a = as.getLastD head then bs.headD head else next a)
    (hprev : ∀ a, prev' a = if a = bs.headD head then as.getLastD head else prev a) :
    Circular next' prev' head (as ++ bs) := by
  obtain ⟨hnodup, has, hxbs, -⟩ := circular_append.mp h
  have hsub : (head :: (as ++ bs)).Sublist (head :: (as ++ x :: bs)) :=
    ((List.sublist_cons_self x bs).append_left as).cons_cons head
  have hnodup' := hnodup.sublist hsub
  have hbs : (bs ++ [head]).IsChain (Linked next prev) := by
    rw [List.cons_append, List.isChain_cons] at hxbs
    exact hxbs.2
  obtain ⟨has', hbs'⟩ : (head :: as).IsChain (Linked next' prev') ∧
      (bs ++ [head]).IsChain (Linked next' prev') := sides_congr hnodup'
    (fun a _ hp => by rw [hnext, if_neg hp]) (fun a _ hn => by rw [hprev, if_neg hn]) has hbs
  refine circular_append.mpr ⟨hnodup', has', hbs', ?_, ?_⟩
  · rw [hnext, if_pos rfl]
  · rw [hprev, if_pos rfl]

end Operations

end Futils.Lib
