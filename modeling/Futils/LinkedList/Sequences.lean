import Futils.Lib.Circular
import Futils.LinkedList.Defs

/-!
# Lists are sequences

A memory holds disjoint circular lists, each of which is the sequence of its nodes.  An operation on
pointers is an operation on the sequences.
-/

namespace Futils.LinkedList

open Futils.Lib Function

/-- The nodes of each list, by its head. -/
abbrev Lists := ℕ → Option (List ℕ)

def Nodes.next (m : Nodes) (node : ℕ) : ℕ := (m node).next

def Nodes.prev (m : Nodes) (node : ℕ) : ℕ := (m node).prev

/-- The memory has the lists, and no node is in two of them or twice in one. -/
structure Holds (m : Nodes) (ls : Lists) : Prop where
  circular : ∀ {head l}, ls head = some l → Circular m.next m.prev head l
  disjoint : ∀ {head head' l l'}, ls head = some l → ls head' = some l' → head ≠ head' →
    List.Disjoint (head :: l) (head' :: l')

/-! ### Operations on sequences -/

/-- `novel` after `node`, if that is there. -/
def insertAfter (node novel : ℕ) : List ℕ → List ℕ
  | [] => []
  | a :: l => if a = node then a :: novel :: l else a :: insertAfter node novel l

/-- `novel` before `node`, if that is there. -/
def insertBefore (node novel : ℕ) : List ℕ → List ℕ
  | [] => []
  | a :: l => if a = node then novel :: a :: l else a :: insertBefore node novel l

/-- `list_add_after`: a node after the head is the first. -/
def Lists.addAfter (ls : Lists) (node novel : ℕ) : Lists := fun head =>
  (ls head).map fun l => if node = head then novel :: l else insertAfter node novel l

/-- `list_add_before`: a node before the head is the last. -/
def Lists.addBefore (ls : Lists) (node novel : ℕ) : Lists := fun head =>
  (ls head).map fun l => if node = head then l ++ [novel] else insertBefore node novel l

def Lists.del (ls : Lists) (node : ℕ) : Lists := fun head => (ls head).map fun l => l.erase node

def Lists.replace (ls : Lists) (old novel : ℕ) : Lists := fun head =>
  (ls head).map fun l => l.replace old novel

/-- A list without its first node. -/
def Lists.pop (ls : Lists) (list : ℕ) : Lists := fun head =>
  (ls head).map fun l => if head = list then l.tail else l

/-- A node or a head of some list. -/
def Lists.Member (ls : Lists) (a : ℕ) : Prop := ∃ head l, ls head = some l ∧ a ∈ head :: l

/-- A node of some list. -/
def Lists.Node (ls : Lists) (a : ℕ) : Prop := ∃ head l, ls head = some l ∧ a ∈ l

variable {m m' : Nodes} {ls : Lists} {head head' node novel a b x : ℕ} {l l' as bs : List ℕ}

lemma insertAfter_append (h : node ∉ as) :
    insertAfter node novel (as ++ node :: bs) = as ++ node :: novel :: bs := by
  induction as with
  | nil => exact if_pos rfl
  | cons a as ih =>
    rw [List.mem_cons, not_or] at h
    rw [List.cons_append, insertAfter, if_neg (Ne.symm h.1), ih h.2, List.cons_append]

lemma insertAfter_of_not_mem (h : node ∉ l) : insertAfter node novel l = l := by
  induction l with
  | nil => rfl
  | cons a l ih =>
    rw [List.mem_cons, not_or] at h
    rw [insertAfter, if_neg (Ne.symm h.1), ih h.2]

lemma insertBefore_append (h : node ∉ as) :
    insertBefore node novel (as ++ node :: bs) = as ++ novel :: node :: bs := by
  induction as with
  | nil => exact if_pos rfl
  | cons a as ih =>
    rw [List.mem_cons, not_or] at h
    rw [List.cons_append, insertBefore, if_neg (Ne.symm h.1), ih h.2, List.cons_append]

lemma insertBefore_of_not_mem (h : node ∉ l) : insertBefore node novel l = l := by
  induction l with
  | nil => rfl
  | cons a l ih =>
    rw [List.mem_cons, not_or] at h
    rw [insertBefore, if_neg (Ne.symm h.1), ih h.2]

/-! ### Lists that are not touched -/

lemma Holds.eq_head (h : Holds m ls) (hl : ls head = some l) (hl' : ls head' = some l')
    (ha : a ∈ head :: l) (ha' : a ∈ head' :: l') : head = head' := by
  by_contra hne
  exact h.disjoint hl hl' hne ha ha'

/-- One list is put in the place of another, and the others stay. -/
lemma Holds.set (h : Holds m ls) (hcircular : Circular m'.next m'.prev head l')
    (hother : ∀ {head₁ l₁}, ls head₁ = some l₁ → head₁ ≠ head →
      List.Disjoint (head₁ :: l₁) (head :: l'))
    (hframe : ∀ {head₁ l₁}, ls head₁ = some l₁ → head₁ ≠ head → ∀ a ∈ head₁ :: l₁, m' a = m a) :
    Holds m' (Function.update ls head (some l')) := by
  constructor
  · intro head₁ l₁ hl₁
    by_cases heq : head₁ = head
    · subst heq
      rw [update_self] at hl₁
      exact Option.some.inj hl₁ ▸ hcircular
    · rw [update_of_ne heq] at hl₁
      refine (h.circular hl₁).congr fun a ha => ?_
      have hsame := hframe hl₁ heq a ha
      exact ⟨congrArg ListNode.next hsame, congrArg ListNode.prev hsame⟩
  · intro head₁ head₂ l₁ l₂ hl₁ hl₂ hne
    by_cases heq₁ : head₁ = head
    · subst heq₁
      rw [update_self] at hl₁
      rw [update_of_ne hne.symm] at hl₂
      obtain rfl := Option.some.inj hl₁
      exact fun a ha ha' => hother hl₂ hne.symm ha' ha
    · rw [update_of_ne heq₁] at hl₁
      by_cases heq₂ : head₂ = head
      · subst heq₂
        rw [update_self] at hl₂
        obtain rfl := Option.some.inj hl₂
        exact hother hl₁ heq₁
      · rw [update_of_ne heq₂] at hl₂
        exact h.disjoint hl₁ hl₂ hne

/-- **The frame rule**: one list changes, by nodes that were in no list. -/
lemma Holds.update (h : Holds m ls) (hl : ls head = some l)
    (hcircular : Circular m'.next m'.prev head l') (hsub : ∀ a ∈ l', a ∈ l ∨ ¬ ls.Member a)
    (hframe : ∀ a, ls.Member a → a ∉ head :: l → m' a = m a) :
    Holds m' (Function.update ls head (some l')) := by
  refine h.set hcircular (fun {head₁ l₁} hl₁ hne a ha ha' => ?_) fun {head₁ l₁} hl₁ hne a ha => ?_
  · rcases List.mem_cons.mp ha' with rfl | ha'
    · exact h.disjoint hl₁ hl hne ha List.mem_cons_self
    · rcases hsub a ha' with hal | hnew
      · exact h.disjoint hl₁ hl hne ha (List.mem_cons_of_mem _ hal)
      · exact hnew ⟨head₁, l₁, hl₁, ha⟩
  · exact hframe a ⟨head₁, l₁, hl₁, ha⟩ fun ha' => h.disjoint hl₁ hl hne ha ha'

/-- A change of nodes that are in no list. -/
lemma Holds.frame (h : Holds m ls) (hframe : ∀ a, ls.Member a → m' a = m a) : Holds m' ls := by
  constructor
  · intro head l hl
    refine (h.circular hl).congr fun a ha => ?_
    have hsame := hframe a ⟨head, l, hl, ha⟩
    exact ⟨congrArg ListNode.next hsame, congrArg ListNode.prev hsame⟩
  · intro head head' l l' hl hl' hne
    exact h.disjoint hl hl' hne

/-- An operation on all lists that changes only one. -/
lemma map_eq_update {f : ℕ → List ℕ → List ℕ} (hl : ls head = some l) (hf : f head l = l')
    (hother : ∀ head₁ l₁, ls head₁ = some l₁ → head₁ ≠ head → f head₁ l₁ = l₁) :
    (fun head => (ls head).map (f head)) = Function.update ls head (some l') := by
  funext head₁
  by_cases heq : head₁ = head
  · subst heq
    rw [update_self, hl, Option.map_some, hf]
  · rw [update_of_ne heq]
    rcases hl₁ : ls head₁ with _ | l₁
    · rfl
    · rw [Option.map_some, hother head₁ l₁ hl₁ heq]

/-! ### Places -/

lemma Lists.Member.after (h : ls.Member node) :
    ∃ head as bs, ls head = some (as ++ bs) ∧ as.getLastD head = node := by
  obtain ⟨head, l, hl, hnode⟩ := h
  rcases List.mem_cons.mp hnode with rfl | hnode
  · exact ⟨node, [], l, hl, rfl⟩
  · obtain ⟨as, bs, rfl⟩ := List.append_of_mem hnode
    exact ⟨head, as ++ [node], bs, by rw [hl, List.append_cons], List.getLastD_concat ..⟩

lemma Lists.Member.before (h : ls.Member node) :
    ∃ head as bs, ls head = some (as ++ bs) ∧ bs.headD head = node := by
  obtain ⟨head, l, hl, hnode⟩ := h
  rcases List.mem_cons.mp hnode with rfl | hnode
  · exact ⟨node, l, [], by rw [hl, List.append_nil], rfl⟩
  · obtain ⟨as, bs, rfl⟩ := List.append_of_mem hnode
    exact ⟨head, as, node :: bs, hl, rfl⟩

lemma Lists.Node.place (h : ls.Node node) : ∃ head as bs, ls head = some (as ++ node :: bs) := by
  obtain ⟨head, l, hl, hnode⟩ := h
  obtain ⟨as, bs, rfl⟩ := List.append_of_mem hnode
  exact ⟨head, as, bs, hl⟩

lemma Lists.Node.member (h : ls.Node node) : ls.Member node := by
  obtain ⟨head, l, hl, hnode⟩ := h
  exact ⟨head, l, hl, List.mem_cons_of_mem _ hnode⟩

/-- A node is in no other list. -/
lemma Holds.not_mem (h : Holds m ls) (hl : ls head = some l) (ha : a ∈ head :: l)
    (hl' : ls head' = some l') (hne : head' ≠ head) : a ≠ head' ∧ a ∉ l' := by
  constructor
  · rintro rfl
    exact h.disjoint hl' hl hne List.mem_cons_self ha
  · intro ha'
    exact h.disjoint hl' hl hne (List.mem_cons_of_mem _ ha') ha

lemma Holds.addAfter_eq (h : Holds m ls) (hl : ls head = some (as ++ bs))
    (hnode : as.getLastD head = node) :
    ls.addAfter node novel = Function.update ls head (some (as ++ novel :: bs)) := by
  have hmem : node ∈ head :: (as ++ bs) :=
    hnode ▸ List.mem_append_left bs List.getLastD_mem_cons
  refine map_eq_update hl ?_ fun head₁ l₁ hl₁ hne => ?_
  · have hnodup := (h.circular hl).nodup
    rcases List.eq_nil_or_concat' as with rfl | ⟨as, a, rfl⟩
    · exact if_pos hnode.symm
    · rw [List.getLastD_concat] at hnode
      subst hnode
      rw [List.append_assoc, List.singleton_append] at hnodup ⊢
      obtain ⟨hhead, hnodup⟩ := List.nodup_cons.mp hnodup
      have hne : a ≠ head := by
        rintro rfl
        exact hhead (by simp)
      rw [if_neg hne, insertAfter_append (not_mem_before hnodup), List.append_assoc, List.singleton_append]
  · obtain ⟨hhead, hnot⟩ := h.not_mem hl hmem hl₁ hne
    rw [if_neg hhead, insertAfter_of_not_mem hnot]

lemma Holds.addBefore_eq (h : Holds m ls) (hl : ls head = some (as ++ bs))
    (hnode : bs.headD head = node) :
    ls.addBefore node novel = Function.update ls head (some (as ++ novel :: bs)) := by
  have hmem : node ∈ head :: (as ++ bs) := by
    rcases List.mem_cons.mp (headD_mem_cons bs head) with hhead | hbs
    · rw [← hnode, hhead]
      exact List.mem_cons_self
    · exact hnode ▸ List.mem_cons_of_mem _ (List.mem_append_right as hbs)
  refine map_eq_update hl ?_ fun head₁ l₁ hl₁ hne => ?_
  · have hnodup := (h.circular hl).nodup
    rcases bs with _ | ⟨b, bs⟩
    · rw [List.append_nil]
      exact if_pos hnode.symm
    · rw [List.headD_cons] at hnode
      subst hnode
      obtain ⟨hhead, hnodup⟩ := List.nodup_cons.mp hnodup
      have hne : b ≠ head := by
        rintro rfl
        exact hhead (by simp)
      rw [if_neg hne, insertBefore_append (not_mem_before hnodup)]
  · obtain ⟨hhead, hnot⟩ := h.not_mem hl hmem hl₁ hne
    rw [if_neg hhead, insertBefore_of_not_mem hnot]

lemma Holds.del_eq (h : Holds m ls) (hl : ls head = some (as ++ node :: bs)) :
    ls.del node = Function.update ls head (some (as ++ bs)) := by
  have hnodup := List.nodup_cons.mp (h.circular hl).nodup
  have hnot := not_mem_before hnodup.2
  refine map_eq_update hl ?_ fun head₁ l₁ hl₁ hne => ?_
  · rw [List.erase_append_right _ hnot, List.erase_cons_head]
  · exact List.erase_of_not_mem (h.not_mem hl (by simp) hl₁ hne).2

lemma Holds.replace_eq (h : Holds m ls) (hl : ls head = some (as ++ node :: bs)) :
    ls.replace node novel = Function.update ls head (some (as ++ novel :: bs)) := by
  have hnodup := List.nodup_cons.mp (h.circular hl).nodup
  have hnot := not_mem_before hnodup.2
  refine map_eq_update hl ?_ fun head₁ l₁ hl₁ hne => ?_
  · rw [List.replace_append_right hnot, List.replace_cons_self]
  · exact List.replace_of_not_mem (h.not_mem hl (by simp) hl₁ hne).2

end Futils.LinkedList
