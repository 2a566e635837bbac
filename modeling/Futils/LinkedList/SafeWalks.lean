import Futils.LinkedList.Refine
import Mathlib.Algebra.Group.Nat.Defs

/-!
# Walks that tolerate deletions (`include/futils/list.h`)

A safe walk saves the successor of a node before it comes to the body of the loop, which may take the node out.
Behind the node the list stays as it was, so that the saved successor is the next node of the list, whatever was
taken out before it.
-/

namespace Futils.LinkedList

open Futils.Lib Function

variable {σ α : Type*}

/-! ### The macros -/

/-- What the body of a loop does to the list: it leaves it alone, or takes the current node out. -/
inductive Action
  | keep
  | del
  | delInit
  deriving DecidableEq

def Action.run (m : Nodes) (node : ℕ) : Action → Nodes
  | .keep => m
  | .del => listDel m node
  | .delInit => listDelInit m node

/-- The nodes that are left of `l`. -/
def Action.left (node : ℕ) (l : List ℕ) : Action → List ℕ
  | .keep => l
  | .del => l.erase node
  | .delInit => l.erase node

/-- The body of a loop: from its own variables, the memory and `pos` come its variables and the memory after it,
and what it does to the list. -/
abbrev Body (σ α : Type*) := σ → Nodes → α → σ × Action × Nodes

/-- The end of a walk: the variables of the body, the memory, and what was visited, with what the body did. -/
structure Walked (σ α : Type*) where
  state : σ
  mem : Nodes
  visits : List (α × Action)

inductive Dir
  | forward
  | backward

def ListNode.step (node : ListNode) : Dir → ℕ
  | .forward => node.next
  | .backward => node.prev

/-- The rest of a safe walk, from `pos` on.  `node` is the node of a position, and `entry` the position of a
node. -/
def walkSafe (node : α → ℕ) (entry : ℕ → α) (dir : Dir) (body : Body σ α) (list : ℕ) :
    ℕ → σ → Nodes → α → α → Option (Walked σ α)
  | 0, _, _, _, _ => none
  | fuel + 1, s, m, pos, tmp =>
    if node pos ≠ list then
      let (s, action, m) := body s m pos
      (walkSafe node entry dir body list fuel s m tmp (entry ((m (node tmp)).step dir))).map fun w =>
        { w with visits := (pos, action) :: w.visits }
    else some ⟨s, m, []⟩

/-- What the four macros share. -/
def walkListSafe (node : α → ℕ) (entry : ℕ → α) (dir : Dir) (body : Body σ α) (s : σ) (m : Nodes)
    (list fuel : ℕ) : Option (Walked σ α) :=
  let pos := entry ((m list).step dir)
  let tmp := entry ((m (node pos)).step dir)
  walkSafe node entry dir body list fuel s m pos tmp

def listWalkForwardSafe (body : Body σ ℕ) : σ → Nodes → ℕ → ℕ → Option (Walked σ ℕ) :=
  walkListSafe id id .forward body

def listWalkBackwardSafe (body : Body σ ℕ) : σ → Nodes → ℕ → ℕ → Option (Walked σ ℕ) :=
  walkListSafe id id .backward body

/-- `list_entry`: the entry that has its member at `ptr`, for the offset `off` of the member. -/
def listEntry (off : UInt64) (ptr : ℕ) : UInt64 := ptr.toUInt64 - off

/-- `&pos->member` -/
def memberOf (off pos : UInt64) : ℕ := (pos + off).toNat

def listWalkEntryForwardSafe (off : UInt64) (body : Body σ UInt64) :
    σ → Nodes → ℕ → ℕ → Option (Walked σ UInt64) :=
  walkListSafe (memberOf off) (listEntry off) .forward body

def listWalkEntryBackwardSafe (off : UInt64) (body : Body σ UInt64) :
    σ → Nodes → ℕ → ℕ → Option (Walked σ UInt64) :=
  walkListSafe (memberOf off) (listEntry off) .backward body

/-! ### Bodies -/

/-- The body does nothing else to the list.  It may use a node that it takes out, and all other memory, as it
likes. -/
def Body.Tolerated (body : Body σ α) (list : ℕ) (node : α → ℕ) : Prop :=
  ∀ s m pos l, Circular m.next m.prev list l → node pos ∈ l →
    ∀ a ∈ list :: (body s m pos).2.1.left (node pos) l,
      (body s m pos).2.2 a = (body s m pos).2.1.run m (node pos) a

/-- A body that decides what to do to the list, and does nothing else to the memory. -/
def Body.deciding (node : α → ℕ) (decision : σ → Nodes → α → σ × Action) : Body σ α := fun s m pos =>
  ((decision s m pos).1, (decision s m pos).2, (decision s m pos).2.run m (node pos))

lemma Body.tolerated_deciding (node : α → ℕ) (decision : σ → Nodes → α → σ × Action) (list : ℕ) :
    (Body.deciding node decision).Tolerated list node := by
  intro s m pos l _ _ a _
  rfl

/-- The nodes that the body left in the list, in the order in which they were visited. -/
def Walked.kept (node : α → ℕ) (w : Walked σ α) : List ℕ :=
  (w.visits.filter fun v => v.2 = .keep).map fun v => node v.1

def Walked.removed (node : α → ℕ) (w : Walked σ α) : List ℕ :=
  (w.visits.filter fun v => v.2 ≠ .keep).map fun v => node v.1

variable {m m' : Nodes} {list a b : ℕ} {l as bs kept rest : List ℕ} {action : Action} {dir : Dir}

/-! ### Lists in the direction of a walk -/

/-- A list as it is walked. -/
def Dir.order (l : List ℕ) : Dir → List ℕ
  | .forward => l
  | .backward => l.reverse

/-- The memory has a list that is walked in the order `l`. -/
def Walks (dir : Dir) (m : Nodes) (list : ℕ) (l : List ℕ) : Prop := Circular m.next m.prev list (dir.order l)

lemma Dir.order_order (l : List ℕ) (dir : Dir) : dir.order (dir.order l) = l := by
  cases dir with
  | forward => rfl
  | backward => exact List.reverse_reverse l

lemma Dir.mem_order : a ∈ dir.order l ↔ a ∈ l := by
  cases dir with
  | forward => rfl
  | backward => exact List.mem_reverse

lemma Walks.nodup (h : Walks dir m list l) : (list :: l).Nodup := by
  have hnodup := Circular.nodup h
  cases dir with
  | forward => exact hnodup
  | backward =>
    rw [List.nodup_cons, Dir.mem_order] at hnodup
    exact List.nodup_cons.mpr ⟨hnodup.1, List.nodup_reverse.mp hnodup.2⟩

/-- A node is followed by the next one of the list, or by the head. -/
lemma Walks.step (h : Walks dir m list (as ++ b :: bs)) : (m b).step dir = bs.headD list := by
  cases dir with
  | forward =>
    have hcut : Circular m.next m.prev list ((as ++ [b]) ++ bs) := by
      rwa [List.append_assoc]
    have hnext := hcut.gap.1
    rwa [List.getLastD_concat] at hnext
  | backward =>
    have hcut : Circular m.prev m.next list ((as ++ [b]) ++ bs) := by
      have hreverse := Circular.reverse h
      rwa [Dir.order, List.reverse_reverse, List.append_cons] at hreverse
    have hprev := hcut.gap.1
    rwa [List.getLastD_concat] at hprev

/-- The head is followed by the first node. -/
lemma Walks.step_head (h : Walks dir m list l) : (m list).step dir = l.headD list := by
  cases dir with
  | forward => exact Circular.next_head h
  | backward =>
    have hreverse := Circular.reverse h
    rw [Dir.order, List.reverse_reverse] at hreverse
    exact hreverse.next_head

/-- The first node of a rest of the list is followed by the second one. -/
lemma Walks.step_headD (h : Walks dir m list (as ++ rest)) (hne : rest ≠ []) :
    (m (rest.headD list)).step dir = rest.tail.headD list := by
  rcases rest with _ | ⟨b, bs⟩
  · exact absurd rfl hne
  · rw [List.headD_cons, h.step, List.tail_cons]

lemma circular_listDelInit (h : Circular m.next m.prev list l) (ha : a ∈ l) :
    Circular (listDelInit m a).next (listDelInit m a).prev list (l.erase a) := by
  have hdel := (holds_single h).listDelInit ⟨list, l, update_self .., ha⟩
  refine hdel.circular ?_
  rw [Lists.del, update_self, Option.map_some]

/-- The body leaves a list of the nodes that it does not take out. -/
lemma circular_run (h : Circular m.next m.prev list l) (ha : a ∈ l) (action : Action) :
    Circular (action.run m a).next (action.run m a).prev list (action.left a l) := by
  cases action with
  | keep => exact h
  | del => exact circular_listDel h ha
  | delInit => exact circular_listDelInit h ha

lemma Action.left_order (hnodup : l.Nodup) (action : Action) :
    action.left a (dir.order l) = dir.order (action.left a l) := by
  have herase : l.reverse.erase a = (l.erase a).reverse := by
    rw [hnodup.erase_eq_filter, (List.nodup_reverse.mpr hnodup).erase_eq_filter, List.filter_reverse]
  cases dir with
  | forward => rfl
  | backward =>
    cases action with
    | keep => rfl
    | del => exact herase
    | delInit => exact herase

/-! ### Turns -/

variable {node : α → ℕ} {entry : ℕ → α} {body : Body σ α} {s : σ} {pos tmp : α}

/-- **A turn** leaves the list with the node or without it, and what is behind the node as it was. -/
lemma Walks.turn (hbody : body.Tolerated list node) (h : Walks dir m list (as ++ node pos :: bs)) (s : σ) :
    Walks dir (body s m pos).2.2 list ((body s m pos).2.1.left (node pos) (as ++ node pos :: bs)) := by
  have hmem : node pos ∈ dir.order (as ++ node pos :: bs) := by
    rw [Dir.mem_order]
    exact List.mem_append_right as List.mem_cons_self
  have hrun := circular_run h hmem (body s m pos).2.1
  have hframe := hbody s m pos _ h hmem
  unfold Walks
  rw [← Action.left_order (List.nodup_cons.mp h.nodup).2]
  refine hrun.congr ?_
  intro a ha
  have hsame := hframe a ha
  exact ⟨congrArg ListNode.next hsame, congrArg ListNode.prev hsame⟩

lemma Walked.kept_cons (node : α → ℕ) (w : Walked σ α) (pos : α) (action : Action) :
    ({ w with visits := (pos, action) :: w.visits } : Walked σ α).kept node =
      if action = .keep then node pos :: w.kept node else w.kept node := by
  unfold Walked.kept
  cases action with
  | keep => rfl
  | del => rfl
  | delInit => rfl

/-- What is in front of the next node after a turn. -/
lemma Action.left_append (hnodup : (as ++ b :: bs).Nodup) (action : Action) :
    action.left b (as ++ b :: bs) = (if action = .keep then as ++ [b] else as) ++ bs := by
  have herase : (as ++ b :: bs).erase b = as ++ bs := by
    rw [List.erase_append_right _ (not_mem_before hnodup), List.erase_cons_head]
  cases action with
  | keep => exact List.append_cons as b bs
  | del => exact herase
  | delInit => exact herase

/-- **The rest of a walk** visits the rest of the list, and leaves the nodes before it and those that are kept. -/
lemma walkSafe_eq (hbody : body.Tolerated list node) (hentry : ∀ a ∈ list :: rest, node (entry a) = a) (s : σ)
    (h : Walks dir m list (as ++ rest)) (htmp : rest ≠ [] → tmp = entry (rest.tail.headD list)) :
    ∃ w, (∀ fuel, rest.length < fuel →
        walkSafe node entry dir body list fuel s m (entry (rest.headD list)) tmp = some w) ∧
      w.visits.map Prod.fst = rest.map entry ∧ Walks dir w.mem list (as ++ w.kept node) := by
  induction rest generalizing s m as tmp with
  | nil =>
    refine ⟨⟨s, m, []⟩, ?_, rfl, h⟩
    intro fuel hfuel
    obtain ⟨fuel, rfl⟩ := Nat.exists_eq_add_one_of_ne_zero (Nat.ne_of_gt hfuel)
    have hnode : node (entry list) = list := hentry list List.mem_cons_self
    rw [List.headD_nil, walkSafe, if_neg (not_not.mpr hnode)]
  | cons b bs ih =>
    have hb : node (entry b) = b := hentry b (by simp)
    have hentry' : ∀ a ∈ list :: bs, node (entry a) = a := by
      intro a ha
      refine hentry a ?_
      rcases List.mem_cons.mp ha with rfl | ha
      · exact List.mem_cons_self
      · exact List.mem_cons_of_mem _ (List.mem_cons_of_mem _ ha)
    have hnext : node (entry (bs.headD list)) = bs.headD list := hentry' _ (headD_mem_cons bs list)
    have hnodup := List.nodup_cons.mp h.nodup
    have hne : b ≠ list := by
      rintro rfl
      exact hnodup.1 (List.mem_append_right as List.mem_cons_self)
    obtain rfl : tmp = entry (bs.headD list) := htmp (List.cons_ne_nil b bs)
    obtain ⟨s', action, m', hr⟩ : ∃ s' action m', body s m (entry b) = (s', action, m') := ⟨_, _, _, rfl⟩
    have hturn : Walks dir m' list ((if action = .keep then as ++ [b] else as) ++ bs) := by
      have h' : Walks dir m list (as ++ node (entry b) :: bs) := by rwa [hb]
      have hturn := h'.turn hbody s
      rwa [hr, hb, Action.left_append hnodup.2] at hturn
    -- behind the last node comes the head, of which the successor is not used
    have htmp' : bs ≠ [] → entry ((m' (node (entry (bs.headD list)))).step dir) =
        entry (bs.tail.headD list) := by
      intro hbs
      rw [hnext, hturn.step_headD hbs]
    obtain ⟨w, hwalk, hvisits, hleft⟩ := ih hentry' s' hturn htmp'
    refine ⟨{ w with visits := (entry b, action) :: w.visits }, ?_, ?_, ?_⟩
    · intro fuel hfuel
      obtain ⟨fuel, rfl⟩ := Nat.exists_eq_add_one_of_ne_zero (Nat.ne_of_gt (Nat.zero_lt_of_lt hfuel))
      rw [List.headD_cons, walkSafe, if_pos (by rwa [hb]), hr]
      dsimp only
      rw [hwalk fuel (Nat.lt_of_succ_lt_succ hfuel), Option.map_some]
    · rw [List.map_cons, hvisits, List.map_cons]
    · rw [Walked.kept_cons, hb]
      by_cases hkeep : action = .keep
      · rw [if_pos hkeep, List.append_assoc] at hleft
        rwa [if_pos hkeep]
      · rw [if_neg hkeep] at hleft
        rwa [if_neg hkeep]

/-! ### Walks -/

lemma Dir.order_filter (p : ℕ → Bool) (l : List ℕ) (dir : Dir) :
    dir.order (l.filter p) = (dir.order l).filter p := by
  cases dir with
  | forward => rfl
  | backward => exact List.filter_reverse.symm

/-- What is kept is what is not removed, when nothing is visited twice. -/
lemma Walked.kept_eq {w : Walked σ α} (hnodup : (w.visits.map fun v => node v.1).Nodup) :
    w.kept node = (w.visits.map fun v => node v.1).filter fun a => a ∉ w.removed node := by
  rw [List.filter_map]
  refine congrArg (List.map _) (List.filter_congr ?_)
  intro v hv
  rw [comp_apply, decide_eq_decide]
  constructor
  · intro hkeep hremoved
    obtain ⟨v', hv', heq⟩ := List.mem_map.mp hremoved
    obtain ⟨hmem, hnot⟩ := List.mem_filter.mp hv'
    obtain rfl := List.inj_on_of_nodup_map hnodup hmem hv heq
    exact of_decide_eq_true hnot hkeep
  · intro hnot
    by_contra hkeep
    exact hnot (List.mem_map.mpr ⟨v, List.mem_filter.mpr ⟨hv, decide_eq_true hkeep⟩, rfl⟩)

/-- The walk ends, after one turn for each node of `l`, in the given order, and leaves a list of the nodes that were
not removed. -/
def WalksSafely (node : α → ℕ) (entry : ℕ → α) (list : ℕ) (l order : List ℕ)
    (walk : ℕ → Option (Walked σ α)) : Prop :=
  ∃ w, (∀ fuel, l.length < fuel → walk fuel = some w) ∧ w.visits.map Prod.fst = order.map entry ∧
    Circular w.mem.next w.mem.prev list (l.filter fun a => a ∉ w.removed node)

lemma walkListSafe_safely (hbody : body.Tolerated list node) (hentry : ∀ a ∈ list :: l, node (entry a) = a)
    (h : Circular m.next m.prev list l) (s : σ) (dir : Dir) :
    WalksSafely node entry list l (dir.order l) (walkListSafe node entry dir body s m list) := by
  have hwalks : Walks dir m list ([] ++ dir.order l) := by
    unfold Walks
    rwa [List.nil_append, Dir.order_order]
  have hentry' : ∀ a ∈ list :: dir.order l, node (entry a) = a := by
    intro a ha
    refine hentry a ?_
    rwa [List.mem_cons, Dir.mem_order, ← List.mem_cons] at ha
  have hlength : (dir.order l).length = l.length := by
    cases dir with
    | forward => rfl
    | backward => exact List.length_reverse
  have hfirst : (m list).step dir = (dir.order l).headD list := hwalks.step_head
  have htmp : dir.order l ≠ [] → entry ((m (node (entry ((m list).step dir)))).step dir) =
      entry ((dir.order l).tail.headD list) := by
    intro hne
    rw [hfirst, hentry' _ (headD_mem_cons _ list), hwalks.step_headD hne]
  obtain ⟨w, hwalk, hvisits, hleft⟩ := walkSafe_eq hbody hentry' s hwalks htmp
  have hnodes : (w.visits.map fun v => node v.1) = dir.order l := by
    calc (w.visits.map fun v => node v.1) = (w.visits.map Prod.fst).map node := (List.map_map ..).symm
      _ = (dir.order l).map (node ∘ entry) := by rw [hvisits, List.map_map]
      _ = (dir.order l).map id := List.map_congr_left fun a ha => hentry' a (List.mem_cons_of_mem _ ha)
      _ = dir.order l := List.map_id _
  refine ⟨w, ?_, hvisits, ?_⟩
  · intro fuel hfuel
    unfold walkListSafe
    dsimp only
    rw [← hwalk fuel (hlength ▸ hfuel), hfirst]
  · have hnodup : (w.visits.map fun v => node v.1).Nodup := by
      rw [hnodes]
      exact (List.nodup_cons.mp hwalks.nodup).2
    have hkept := Walked.kept_eq hnodup
    unfold Walks at hleft
    rwa [List.nil_append, hkept, hnodes, Dir.order_filter, Dir.order_order] at hleft

/-- An entry has its member where its member is. -/
lemma memberOf_listEntry {off : UInt64} (ha : a < 2 ^ 64) : memberOf off (listEntry off a) = a := by
  unfold memberOf listEntry
  rw [UInt64.sub_add_cancel]
  exact UInt64.toNat_ofNat_of_lt ha

/-- **The safe walks tolerate the removal of the current node**, in both directions, and through the nodes or
through the entries that they are members of. -/
theorem list_walks_safe (h : Circular m.next m.prev list l) :
    (∀ (body : Body σ ℕ) (s : σ), body.Tolerated list id →
      WalksSafely id id list l l (listWalkForwardSafe body s m list) ∧
      WalksSafely id id list l l.reverse (listWalkBackwardSafe body s m list)) ∧
    ∀ (off : UInt64) (body : Body σ UInt64) (s : σ), (∀ a ∈ list :: l, a < 2 ^ 64) →
      body.Tolerated list (memberOf off) →
        WalksSafely (memberOf off) (listEntry off) list l l (listWalkEntryForwardSafe off body s m list) ∧
        WalksSafely (memberOf off) (listEntry off) list l l.reverse
          (listWalkEntryBackwardSafe off body s m list) := by
  refine ⟨?_, ?_⟩
  · intro body s hbody
    have hentry : ∀ a ∈ list :: l, id (id a) = a := fun a _ => rfl
    exact ⟨walkListSafe_safely hbody hentry h s .forward, walkListSafe_safely hbody hentry h s .backward⟩
  · intro off body s haddresses hbody
    have hentry : ∀ a ∈ list :: l, memberOf off (listEntry off a) = a := fun a ha =>
      memberOf_listEntry (haddresses a ha)
    exact ⟨walkListSafe_safely hbody hentry h s .forward, walkListSafe_safely hbody hentry h s .backward⟩

/-- Every other node is removed, and the entries are 8 bytes in front of their nodes. -/
theorem list_walks_safe_alternate :
    WalksSafely (memberOf 8) (listEntry 8) 16 [32, 48, 64] [64, 48, 32]
      (listWalkEntryBackwardSafe 8
        (Body.deciding (memberOf 8) fun odd _ _ => (!odd, if odd then .delInit else .keep)) true
        (listPush (listPush (listPush (listInit (fun _ => ⟨0, 0⟩) 16) 16 32) 16 48) 16 64) 16) := by
  have hlist : Circular (Nodes.next (listPush (listPush (listPush (listInit (fun _ => ⟨0, 0⟩) 16) 16 32) 16 48)
      16 64)) _ 16 [32, 48, 64] :=
    circular_listAddBefore (circular_listAddBefore (circular_listAddBefore (circular_listInit _ 16) (by simp))
      (by simp)) (by simp)
  exact ((list_walks_safe hlist).2 8 _ true (by simp) (Body.tolerated_deciding _ _ _)).2

end Futils.LinkedList
