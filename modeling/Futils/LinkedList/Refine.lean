import Futils.LinkedList.Sequences

/-!
# Pointer operations on sequences

Each operation joins the two sides of one place or of two, in any memory that holds disjoint lists.
-/

namespace Futils.LinkedList

open Futils.Lib Function

variable {m m' : Nodes} {ls : Lists} {head node novel old target moved a p n x : ℕ} {l as bs : List ℕ}

/-! ### Fields -/

lemma next_setNext : (m.setNext node x).next a = if a = node then x else m.next a := by
  unfold Nodes.next Nodes.setNext
  rw [update_apply]
  split_ifs <;> rfl

lemma prev_setNext : (m.setNext node x).prev a = m.prev a := by
  unfold Nodes.prev Nodes.setNext
  rw [update_apply]
  split_ifs with h
  · rw [h]
  · rfl

lemma next_setPrev : (m.setPrev node x).next a = m.next a := by
  unfold Nodes.next Nodes.setPrev
  rw [update_apply]
  split_ifs with h
  · rw [h]
  · rfl

lemma prev_setPrev : (m.setPrev node x).prev a = if a = node then x else m.prev a := by
  unfold Nodes.prev Nodes.setPrev
  rw [update_apply]
  split_ifs <;> rfl

lemma nodes_ext (hnext : ∀ a, m'.next a = m.next a) (hprev : ∀ a, m'.prev a = m.prev a) : m' = m := by
  funext a
  have hnext := hnext a
  have hprev := hprev a
  unfold Nodes.next at hnext
  unfold Nodes.prev at hprev
  rcases hm : m a with ⟨next, prev⟩
  rcases hm' : m' a with ⟨next', prev'⟩
  rw [hm, hm'] at hnext hprev
  rw [ListNode.mk.injEq]
  exact ⟨hnext, hprev⟩

lemma next_listAdd : (listAdd m novel p n).next a =
    if a = p then novel else if a = novel then n else m.next a := by
  unfold listAdd
  rw [next_setNext, next_setPrev, next_setPrev, next_setNext]

lemma prev_listAdd : (listAdd m novel p n).prev a =
    if a = n then novel else if a = novel then p else m.prev a := by
  unfold listAdd
  rw [prev_setNext, prev_setPrev, prev_setPrev, prev_setNext]

lemma next_listDetach : (listDetach m p n).next a = if a = p then n else m.next a := by
  unfold listDetach
  rw [next_setNext, next_setPrev]

lemma prev_listDetach : (listDetach m p n).prev a = if a = n then p else m.prev a := by
  unfold listDetach
  rw [prev_setNext, prev_setPrev]

lemma setNext_of_ne (h : a ≠ node) : m.setNext node x a = m a := update_of_ne h ..

lemma setPrev_of_ne (h : a ≠ node) : m.setPrev node x a = m a := update_of_ne h ..

lemma listNodeUnref_of_ne (h : a ≠ node) : listNodeUnref m node a = m a := by
  unfold listNodeUnref
  rw [setPrev_of_ne h, setNext_of_ne h]

lemma listInit_of_ne (h : a ≠ node) : listInit m node a = m a := by
  unfold listInit
  rw [setPrev_of_ne h, setNext_of_ne h]

lemma listAdd_of_ne (hx : a ≠ novel) (hp : a ≠ p) (hn : a ≠ n) : listAdd m novel p n a = m a := by
  unfold listAdd
  rw [setNext_of_ne hp, setPrev_of_ne hn, setPrev_of_ne hx, setNext_of_ne hx]

lemma listDetach_of_ne (hp : a ≠ p) (hn : a ≠ n) : listDetach m p n a = m a := by
  unfold listDetach
  rw [setNext_of_ne hp, setPrev_of_ne hn]

/-! ### One list -/

/-- Both ends of a place are in the list. -/
lemma mem_place : as.getLastD head ∈ head :: (as ++ bs) ∧ bs.headD head ∈ head :: (as ++ bs) := by
  constructor
  · exact List.mem_append_left bs List.getLastD_mem_cons
  · rcases List.mem_cons.mp (headD_mem_cons bs head) with h | h
    · rw [h]
      exact List.mem_cons_self
    · exact List.mem_cons_of_mem _ (List.mem_append_right as h)

/-- **A node is put in at a place.** -/
lemma Holds.listAdd (h : Holds m ls) (hl : ls head = some (as ++ bs)) (hnovel : ¬ ls.Member novel) :
    Holds (listAdd m novel (as.getLastD head) (bs.headD head))
      (Function.update ls head (some (as ++ novel :: bs))) := by
  have hnot : novel ∉ head :: (as ++ bs) := fun hmem => hnovel ⟨head, _, hl, hmem⟩
  refine h.update hl ?_ (fun a ha => ?_) (fun a hmember ha => ?_)
  · exact (h.circular hl).insert hnot (fun a => next_listAdd) (fun a => prev_listAdd)
  · rw [List.mem_append, List.mem_cons] at ha
    rcases ha with ha | rfl | ha
    · exact Or.inl (List.mem_append_left bs ha)
    · exact Or.inr hnovel
    · exact Or.inl (List.mem_append_right as ha)
  · have hne : a ≠ novel := by
      rintro rfl
      exact hnovel hmember
    exact listAdd_of_ne hne (ne_of_mem_of_not_mem mem_place.1 ha).symm
      (ne_of_mem_of_not_mem mem_place.2 ha).symm

/-- **A node is taken out.** -/
lemma Holds.listDetach (h : Holds m ls) (hl : ls head = some (as ++ node :: bs)) :
    Holds (listDetach m (as.getLastD head) (bs.headD head))
      (Function.update ls head (some (as ++ bs))) := by
  have hsub : ∀ a ∈ head :: (as ++ bs), a ∈ head :: (as ++ node :: bs) := by
    intro a ha
    simp only [List.mem_cons, List.mem_append] at ha ⊢
    tauto
  refine h.update hl ?_ (fun a ha => ?_) (fun a _ ha => ?_)
  · exact (h.circular hl).detach (fun a => next_listDetach) (fun a => prev_listDetach)
  · simp only [List.mem_cons, List.mem_append] at ha ⊢
    tauto
  · refine listDetach_of_ne ?_ ?_
    · exact (ne_of_mem_of_not_mem (hsub _ mem_place.1) ha).symm
    · exact (ne_of_mem_of_not_mem (hsub _ mem_place.2) ha).symm

/-- The neighbours of a node are the ends of its place. -/
lemma Holds.neighbours (h : Holds m ls) (hl : ls head = some (as ++ node :: bs)) :
    (m node).prev = as.getLastD head ∧ (m node).next = bs.headD head := by
  constructor
  · exact (h.circular hl).gap.2
  · have hcut : ls head = some ((as ++ [node]) ++ bs) := by
      rw [hl, List.append_cons]
    have hnext := (h.circular hcut).gap.1
    rwa [List.getLastD_concat] at hnext

/-! ### The operations -/

lemma Holds.listAddAfter (h : Holds m ls) (hnode : ls.Member node) (hnovel : ¬ ls.Member novel) :
    Holds (listAddAfter m node novel) (ls.addAfter node novel) := by
  obtain ⟨head, as, bs, hl, hplace⟩ := hnode.after
  have hnext : (m node).next = bs.headD head := hplace ▸ (h.circular hl).gap.1
  rw [h.addAfter_eq hl hplace]
  unfold LinkedList.listAddAfter
  rw [hnext, ← hplace]
  exact h.listAdd hl hnovel

lemma Holds.listAddBefore (h : Holds m ls) (hnode : ls.Member node) (hnovel : ¬ ls.Member novel) :
    Holds (listAddBefore m node novel) (ls.addBefore node novel) := by
  obtain ⟨head, as, bs, hl, hplace⟩ := hnode.before
  have hprev : (m node).prev = as.getLastD head := hplace ▸ (h.circular hl).gap.2
  rw [h.addBefore_eq hl hplace]
  unfold LinkedList.listAddBefore
  rw [hprev, ← hplace]
  exact h.listAdd hl hnovel

/-- What `list_del`, `list_del_init` and the moves begin with. -/
lemma Holds.detach (h : Holds m ls) (hnode : ls.Node node) :
    Holds (LinkedList.listDetach m (m node).prev (m node).next) (ls.del node) := by
  obtain ⟨head, as, bs, hl⟩ := hnode.place
  obtain ⟨hprev, hnext⟩ := h.neighbours hl
  rw [h.del_eq hl, hprev, hnext]
  exact h.listDetach hl

lemma Lists.Member.of_del (h : (ls.del node).Member a) : ls.Member a := by
  obtain ⟨head, l, hl, hmem⟩ := h
  unfold Lists.del at hl
  rw [Option.map_eq_some_iff] at hl
  obtain ⟨l, hl, rfl⟩ := hl
  refine ⟨head, l, hl, ?_⟩
  rcases List.mem_cons.mp hmem with rfl | hmem
  · exact List.mem_cons_self
  · exact List.mem_cons_of_mem _ (List.mem_of_mem_erase hmem)

/-- A node that is taken out is in no list. -/
lemma Holds.not_member_del (h : Holds m ls) (hnode : ls.Node node) : ¬ (ls.del node).Member node := by
  rintro ⟨head, l, hl, hmem⟩
  obtain ⟨head₁, l₁, hl₁, hnode⟩ := hnode
  unfold Lists.del at hl
  rw [Option.map_eq_some_iff] at hl
  obtain ⟨l, hl, rfl⟩ := hl
  have hnodup := List.nodup_cons.mp (h.circular hl).nodup
  obtain rfl : head₁ = head := by
    refine h.eq_head hl₁ hl (List.mem_cons_of_mem _ hnode) ?_
    rcases List.mem_cons.mp hmem with rfl | hmem
    · exact List.mem_cons_self
    · exact List.mem_cons_of_mem _ (List.mem_of_mem_erase hmem)
  obtain rfl := Option.some.inj (hl₁.symm.trans hl)
  rcases List.mem_cons.mp hmem with rfl | hmem
  · exact hnodup.1 hnode
  · exact hnodup.2.not_mem_erase hmem

lemma Holds.listDel (h : Holds m ls) (hnode : ls.Node node) : Holds (listDel m node) (ls.del node) := by
  refine (h.detach hnode).frame fun a ha => listNodeUnref_of_ne ?_
  rintro rfl
  exact h.not_member_del hnode ha

lemma Holds.listDelInit (h : Holds m ls) (hnode : ls.Node node) :
    Holds (listDelInit m node) (ls.del node) := by
  refine (h.detach hnode).frame fun a ha => listInit_of_ne ?_
  rintro rfl
  exact h.not_member_del hnode ha

lemma Lists.Member.del (h : ls.Member a) (hne : a ≠ node) : (ls.del node).Member a := by
  obtain ⟨head, l, hl, hmem⟩ := h
  refine ⟨head, l.erase node, by rw [Lists.del, hl, Option.map_some], ?_⟩
  rcases List.mem_cons.mp hmem with rfl | hmem
  · exact List.mem_cons_self
  · exact List.mem_cons_of_mem _ ((List.mem_erase_of_ne hne).mpr hmem)

lemma Holds.listMoveAfter (h : Holds m ls) (hmoved : ls.Node moved) (htarget : ls.Member target)
    (hne : target ≠ moved) : Holds (listMoveAfter m target moved) ((ls.del moved).addAfter target moved) :=
  (h.detach hmoved).listAddAfter (htarget.del hne) (h.not_member_del hmoved)

lemma Holds.listMoveBefore (h : Holds m ls) (hmoved : ls.Node moved) (htarget : ls.Member target)
    (hne : target ≠ moved) :
    Holds (listMoveBefore m target moved) ((ls.del moved).addBefore target moved) :=
  (h.detach hmoved).listAddBefore (htarget.del hne) (h.not_member_del hmoved)

/-- `list_replace` takes the old node out and puts the new one in at its place. -/
lemma listReplace_eq (hnext : old ≠ m.next old) (hnextNovel : m.next old ≠ novel) :
    listReplace m old novel =
      listAdd (listDetach m (m.prev old) (m.next old)) novel (m.prev old) (m.next old) := by
  obtain ⟨m₁, h₁⟩ : ∃ m₁, m₁ = m.setNext novel (m.next old) := ⟨_, rfl⟩
  obtain ⟨m₂, h₂⟩ : ∃ m₂, m₂ = m₁.setPrev (m₁.next novel) novel := ⟨_, rfl⟩
  obtain ⟨m₃, h₃⟩ : ∃ m₃, m₃ = m₂.setPrev novel (m₂.prev old) := ⟨_, rfl⟩
  have heq : listReplace m old novel = m₃.setNext (m₃.prev novel) novel := by
    rw [h₃, h₂, h₁]
    rfl
  have hread₁ : m₁.next novel = m.next old := by
    rw [h₁, next_setNext, if_pos rfl]
  have hread₂ : m₂.prev old = m.prev old := by
    rw [h₂, prev_setPrev, hread₁, if_neg hnext, h₁, prev_setNext]
  have hread₃ : m₃.prev novel = m.prev old := by
    rw [h₃, prev_setPrev, if_pos rfl, hread₂]
  rw [heq, hread₃]
  refine nodes_ext (fun a => ?_) (fun a => ?_)
  · rw [next_setNext, h₃, next_setPrev, h₂, next_setPrev, h₁, next_setNext, next_listAdd, next_listDetach]
    split_ifs <;> rfl
  · rw [prev_setNext, h₃, prev_setPrev, hread₂, h₂, prev_setPrev, hread₁, h₁, prev_setNext, prev_listAdd,
      prev_listDetach]
    by_cases hn : a = m.next old
    · rw [if_pos hn, if_pos hn, if_neg (hn ▸ hnextNovel)]
    · rw [if_neg hn, if_neg hn, if_neg hn]

lemma Holds.listReplace (h : Holds m ls) (hold : ls.Node old) (hnovel : ¬ ls.Member novel) :
    Holds (listReplace m old novel) (ls.replace old novel) := by
  obtain ⟨head, as, bs, hl⟩ := hold.place
  obtain ⟨hprev, hnext⟩ := h.neighbours hl
  have hsub : bs.headD head ∈ head :: (as ++ old :: bs) := by
    have hmem : bs.headD head ∈ head :: (as ++ bs) := mem_place.2
    simp only [List.mem_cons, List.mem_append] at hmem ⊢
    tauto
  have hne : old ≠ bs.headD head := by
    have hnodup := (h.circular hl).nodup
    rw [← List.cons_append, List.nodup_middle, List.nodup_cons] at hnodup
    exact (ne_of_mem_of_not_mem mem_place.2 hnodup.1).symm
  have hneNovel : bs.headD head ≠ novel := by
    rintro heq
    exact hnovel ⟨head, _, hl, heq ▸ hsub⟩
  have hdetach := h.listDetach hl
  have hnot : ¬ Lists.Member (Function.update ls head (some (as ++ bs))) novel := by
    rw [← h.del_eq hl]
    intro hmember
    exact hnovel hmember.of_del
  have hadd := hdetach.listAdd (update_self ..) hnot
  rw [update_idem] at hadd
  change m.prev old = _ at hprev
  change m.next old = _ at hnext
  rw [h.replace_eq hl, listReplace_eq (hnext ▸ hne) (hnext ▸ hneNovel), hprev, hnext]
  exact hadd

/-- The new node is in no other list, and the old one in none. -/
lemma Holds.not_member_replace (h : Holds m ls) (hold : ls.Node old) (hnovel : ¬ ls.Member novel) :
    ¬ (ls.replace old novel).Member old := by
  obtain ⟨head, as, bs, hl⟩ := hold.place
  have hdel := h.not_member_del hold
  rw [h.replace_eq hl]
  rw [h.del_eq hl] at hdel
  rintro ⟨head₁, l₁, hl₁, hmem⟩
  by_cases heq : head₁ = head
  · subst heq
    rw [update_self] at hl₁
    obtain rfl := Option.some.inj hl₁
    have hne : old ≠ novel := by
      rintro rfl
      exact hnovel hold.member
    refine hdel ⟨head₁, as ++ bs, update_self .., ?_⟩
    simp only [List.mem_cons, List.mem_append] at hmem ⊢
    tauto
  · rw [update_of_ne heq] at hl₁
    exact hdel ⟨head₁, l₁, by rw [update_of_ne heq, hl₁], hmem⟩

lemma Holds.listReplaceInit (h : Holds m ls) (hold : ls.Node old) (hnovel : ¬ ls.Member novel) :
    Holds (listReplaceInit m old novel) (ls.replace old novel) := by
  refine (h.listReplace hold hnovel).frame fun a ha => listInit_of_ne ?_
  rintro rfl
  exact h.not_member_replace hold hnovel ha

lemma Holds.listPop (h : Holds m ls) (hl : ls head = some l) :
    Holds (listPop m head).1 (ls.pop head) ∧ (listPop m head).2 = l.head? := by
  have hfirst : listFirst m head = l.headD head := (h.circular hl).next_head
  unfold LinkedList.listPop
  rw [hfirst]
  rcases l with _ | ⟨a, l⟩
  · have hpop : ls.pop head = ls := by
      funext head₁
      unfold Lists.pop
      rcases hl₁ : ls head₁ with _ | l₁
      · rfl
      · rw [Option.map_some]
        split_ifs with heq
        · rw [heq, hl] at hl₁
          obtain rfl := Option.some.inj hl₁
          rfl
        · rfl
    rw [hpop]
    dsimp only [List.headD_nil]
    rw [if_pos rfl]
    exact ⟨h, rfl⟩
  · have hne : a ≠ head := by
      rintro rfl
      exact (List.nodup_cons.mp (h.circular hl).nodup).1 List.mem_cons_self
    have hpop : ls.pop head = ls.del a := by
      rw [h.del_eq (show ls head = some ([] ++ a :: l) from hl)]
      refine map_eq_update hl (if_pos rfl) fun head₁ l₁ _ hne => if_neg hne
    dsimp only [List.headD_cons]
    rw [if_neg hne, hpop]
    exact ⟨h.listDel ⟨head, _, hl, List.mem_cons_self⟩, rfl⟩

/-- A new list is empty. -/
lemma circular_listInit (m : Nodes) (head : ℕ) :
    Circular (listInit m head).next (listInit m head).prev head [] := by
  refine ⟨List.nodup_singleton head, List.isChain_pair.mpr ⟨?_, ?_⟩⟩
  · exact next_setPrev.trans (next_setNext.trans (if_pos rfl))
  · exact prev_setPrev.trans (if_pos rfl)

lemma Holds.listInit (h : Holds m ls) (hnot : ¬ ls.Member head) :
    Holds (listInit m head) (Function.update ls head (some [])) := by
  refine h.set (circular_listInit m head) (fun {head₁ l₁} hl₁ _ a ha ha' => ?_)
    fun {head₁ l₁} hl₁ _ a ha => ?_
  · rw [List.mem_singleton.mp ha'] at ha
    exact hnot ⟨head₁, l₁, hl₁, ha⟩
  · refine listInit_of_ne ?_
    rintro rfl
    exact hnot ⟨head₁, l₁, hl₁, ha⟩

/-! ### Loops -/

/-- A loop visits what is left of a list. -/
lemma walkFrom_eq {step : ℕ → ℕ} {fuel : ℕ} (hhead : head ∉ bs)
    (hchain : (bs ++ [head]).IsChain fun a b => step a = b) (hfuel : bs.length < fuel) :
    walkFrom step head fuel (bs.headD head) = some bs := by
  induction bs generalizing fuel with
  | nil =>
    obtain ⟨fuel, rfl⟩ := Nat.exists_eq_add_one_of_ne_zero (Nat.ne_of_gt hfuel)
    rw [List.headD_nil, walkFrom, if_neg (not_not.mpr rfl)]
  | cons b bs ih =>
    obtain ⟨fuel, rfl⟩ := Nat.exists_eq_add_one_of_ne_zero (Nat.ne_of_gt (Nat.zero_lt_of_lt hfuel))
    rw [List.mem_cons, not_or] at hhead
    rw [List.cons_append, List.isChain_cons] at hchain
    have hstep : step b = bs.headD head := by
      refine hchain.1 _ ?_
      rcases bs with _ | ⟨c, bs⟩ <;> rfl
    rw [List.headD_cons, walkFrom, if_pos (Ne.symm hhead.1), hstep,
      ih hhead.2 hchain.2 (Nat.lt_of_succ_lt_succ hfuel), Option.map_some]

/-- The loop of `list_length` takes the same steps as the forward loop. -/
lemma listLengthLoop_eq (fuel length pos : ℕ) :
    listLengthLoop m head fuel length pos (m pos).next =
      (walkFrom (fun pos => (m pos).next) head fuel pos).map fun l => length + l.length := by
  induction fuel generalizing length pos with
  | zero => rfl
  | succ fuel ih =>
    rw [listLengthLoop, walkFrom]
    split_ifs
    · rw [ih, Option.map_map]
      refine congrArg (Option.map · _) (funext fun l => ?_)
      rw [comp_apply, List.length_cons]
      omega
    · rfl

lemma Circular.tail_chain {next prev : ℕ → ℕ} (h : Circular next prev head l) :
    head ∉ l ∧ (l ++ [head]).IsChain fun a b => next a = b := by
  refine ⟨(List.nodup_cons.mp h.nodup).1, ?_⟩
  have hlinked := h.linked
  rw [List.cons_append, List.isChain_cons] at hlinked
  exact hlinked.2.imp fun a b hab => hab.1

lemma listWalkForward_eq (h : Circular m.next m.prev head l) {fuel : ℕ} (hfuel : l.length < fuel) :
    listWalkForward m head fuel = some l := by
  have hfirst : (m head).next = l.headD head := h.next_head
  obtain ⟨hhead, hchain⟩ := Circular.tail_chain h
  unfold listWalkForward
  rw [hfirst]
  exact walkFrom_eq hhead hchain hfuel

lemma Holds.walkForward (h : Holds m ls) (hl : ls head = some l) {fuel : ℕ} (hfuel : l.length < fuel) :
    listWalkForward m head fuel = some l := listWalkForward_eq (h.circular hl) hfuel

lemma Holds.walkBackward (h : Holds m ls) (hl : ls head = some l) {fuel : ℕ} (hfuel : l.length < fuel) :
    listWalkBackward m head fuel = some l.reverse := by
  have hreverse := (h.circular hl).reverse
  have hlast : (m head).prev = l.reverse.headD head := hreverse.next_head
  obtain ⟨hhead, hchain⟩ := Circular.tail_chain hreverse
  unfold listWalkBackward
  rw [hlast]
  exact walkFrom_eq hhead hchain (l.length_reverse ▸ hfuel)

lemma Holds.length (h : Holds m ls) (hl : ls head = some l) {fuel : ℕ} (hfuel : l.length < fuel) :
    listLength m head fuel = some l.length := by
  have hwalk := h.walkForward hl hfuel
  unfold listWalkForward at hwalk
  unfold listLength
  dsimp only
  rw [listLengthLoop_eq, hwalk, Option.map_some, Nat.zero_add]

/-- Each element of a list is the neighbour of its neighbours. -/
lemma Holds.linked (h : Holds m ls) (ha : ls.Member a) :
    (m (m a).next).prev = a ∧ (m (m a).prev).next = a := by
  constructor
  · obtain ⟨head, as, bs, hl, hplace⟩ := ha.after
    obtain ⟨hnext, hprev⟩ := (h.circular hl).gap
    rw [hplace] at hnext hprev
    change (m (m.next a)).prev = a
    rw [hnext]
    exact hprev
  · obtain ⟨head, as, bs, hl, hplace⟩ := ha.before
    obtain ⟨hnext, hprev⟩ := (h.circular hl).gap
    rw [hplace] at hnext hprev
    change (m (m.prev a)).next = a
    rw [hprev]
    exact hnext

/-! ### A single list -/

lemma holds_single (h : Circular m.next m.prev head l) :
    Holds m (Function.update (fun _ => none) head (some l)) := by
  have hnone : Holds m fun _ => none := ⟨nofun, nofun⟩
  exact hnone.set h nofun nofun

lemma member_single : Lists.Member (Function.update (fun _ => none) head (some l)) a ↔ a ∈ head :: l := by
  constructor
  · rintro ⟨head₁, l₁, hl₁, ha⟩
    by_cases heq : head₁ = head
    · subst heq
      rw [update_self] at hl₁
      exact Option.some.inj hl₁ ▸ ha
    · rw [update_of_ne heq] at hl₁
      cases hl₁
  · intro ha
    exact ⟨head, l, update_self .., ha⟩

lemma circular_listAddBefore (h : Circular m.next m.prev head l) (hnovel : novel ∉ head :: l) :
    Circular (listAddBefore m head novel).next (listAddBefore m head novel).prev head (l ++ [novel]) := by
  have hadd := (holds_single h).listAddBefore (member_single.mpr List.mem_cons_self)
    (member_single.not.mpr hnovel)
  refine hadd.circular ?_
  rw [Lists.addBefore, update_self, Option.map_some, if_pos rfl]

lemma circular_listDel (h : Circular m.next m.prev head l) (ha : a ∈ l) :
    Circular (listDel m a).next (listDel m a).prev head (l.erase a) := by
  have hdel := (holds_single h).listDel ⟨head, l, update_self .., ha⟩
  refine hdel.circular ?_
  rw [Lists.del, update_self, Option.map_some]

lemma circular_listDel_foldl (h : Circular m.next m.prev head l) (hsub : as ⊆ l) (hnodup : as.Nodup) :
    Circular (Nodes.next (as.foldl listDel m)) (Nodes.prev (as.foldl listDel m)) head (l.diff as) := by
  induction as generalizing m l with
  | nil => exact h
  | cons a as ih =>
    obtain ⟨ha, hnodup⟩ := List.nodup_cons.mp hnodup
    rw [List.foldl_cons, List.diff_cons]
    refine ih (circular_listDel h (hsub List.mem_cons_self)) (fun b hb => ?_) hnodup
    have hne : b ≠ a := ne_of_mem_of_not_mem hb ha
    exact (List.mem_erase_of_ne hne).mpr (hsub (List.mem_cons_of_mem _ hb))

/-! ### Calls -/

/-- A call, with its arguments in the order of the source. -/
inductive Call
  | init (list : ℕ)
  | addAfter (node novel : ℕ)
  | addBefore (node novel : ℕ)
  | push (list elem : ℕ)
  | del (node : ℕ)
  | delInit (node : ℕ)
  | replace (old novel : ℕ)
  | replaceInit (old novel : ℕ)
  | moveAfter (target moved : ℕ)
  | moveBefore (target moved : ℕ)
  | pop (list : ℕ)

/-- The memory after a call, and the node that it returns, if any. -/
def Call.run (m : Nodes) : Call → Nodes × Option ℕ
  | init list => (listInit m list, none)
  | addAfter node novel => (listAddAfter m node novel, none)
  | addBefore node novel => (listAddBefore m node novel, none)
  | push list elem => (listPush m list elem, none)
  | del node => (listDel m node, none)
  | delInit node => (listDelInit m node, none)
  | replace old novel => (listReplace m old novel, none)
  | replaceInit old novel => (listReplaceInit m old novel, none)
  | moveAfter target moved => (listMoveAfter m target moved, none)
  | moveBefore target moved => (listMoveBefore m target moved, none)
  | pop list => listPop m list

/-- What a call does to the sequences, and the node that it returns, if any. -/
def Call.apply (ls : Lists) : Call → Lists × Option ℕ
  | init list => (Function.update ls list (some []), none)
  | addAfter node novel => (ls.addAfter node novel, none)
  | addBefore node novel => (ls.addBefore node novel, none)
  | push list elem => (ls.addBefore list elem, none)
  | del node => (ls.del node, none)
  | delInit node => (ls.del node, none)
  | replace old novel => (ls.replace old novel, none)
  | replaceInit old novel => (ls.replace old novel, none)
  | moveAfter target moved => ((ls.del moved).addAfter target moved, none)
  | moveBefore target moved => ((ls.del moved).addBefore target moved, none)
  | pop list => (ls.pop list, (ls list).bind List.head?)

/-- What a caller has to see to: nodes that are put in are in no list, and those that are taken out are
nodes of one. -/
def Call.Legal (ls : Lists) : Call → Prop
  | init list => ¬ ls.Member list
  | addAfter node novel | addBefore node novel | push node novel => ls.Member node ∧ ¬ ls.Member novel
  | del node | delInit node => ls.Node node
  | replace old novel | replaceInit old novel => ls.Node old ∧ ¬ ls.Member novel
  | moveAfter target moved | moveBefore target moved =>
    ls.Node moved ∧ ls.Member target ∧ target ≠ moved
  | pop list => ∃ l, ls list = some l

def Call.args : Call → List ℕ
  | init list => [list]
  | addAfter node novel | addBefore node novel | push node novel => [node, novel]
  | del node | delInit node => [node]
  | replace old novel | replaceInit old novel => [old, novel]
  | moveAfter target moved | moveBefore target moved => [target, moved]
  | pop list => [list]

variable {call : Call}

/-- **One call.** -/
lemma Holds.step (h : Holds m ls) (hlegal : call.Legal ls) :
    Holds (call.run m).1 (call.apply ls).1 ∧ (call.run m).2 = (call.apply ls).2 := by
  cases call with
  | init list => exact ⟨h.listInit hlegal, rfl⟩
  | addAfter node novel => exact ⟨h.listAddAfter hlegal.1 hlegal.2, rfl⟩
  | addBefore node novel => exact ⟨h.listAddBefore hlegal.1 hlegal.2, rfl⟩
  | push list elem => exact ⟨h.listAddBefore hlegal.1 hlegal.2, rfl⟩
  | del node => exact ⟨h.listDel hlegal, rfl⟩
  | delInit node => exact ⟨h.listDelInit hlegal, rfl⟩
  | replace old novel => exact ⟨h.listReplace hlegal.1 hlegal.2, rfl⟩
  | replaceInit old novel => exact ⟨h.listReplaceInit hlegal.1 hlegal.2, rfl⟩
  | moveAfter target moved => exact ⟨h.listMoveAfter hlegal.1 hlegal.2.1 hlegal.2.2, rfl⟩
  | moveBefore target moved => exact ⟨h.listMoveBefore hlegal.1 hlegal.2.1 hlegal.2.2, rfl⟩
  | pop list =>
    obtain ⟨l, hl⟩ := hlegal
    obtain ⟨hpop, hfirst⟩ := h.listPop hl
    refine ⟨hpop, hfirst.trans ?_⟩
    exact (congrArg (Option.bind · List.head?) hl).symm

/-- Lists that a call does not name stay. -/
lemma Call.apply_of_disjoint (hl : ls head = some l) (hargs : List.Disjoint call.args (head :: l)) :
    (call.apply ls).1 head = some l := by
  have hnot : ∀ a ∈ call.args, a ≠ head ∧ a ∉ l := by
    intro a ha
    have hmem : a ∉ head :: l := fun hmem => hargs ha hmem
    rwa [List.mem_cons, not_or] at hmem
  have hdel : ∀ {node}, node ∉ l → ls.del node head = some l := by
    intro node hnode
    rw [Lists.del, hl, Option.map_some, List.erase_of_not_mem hnode]
  have hafter : ∀ {ls' : Lists} {node novel}, ls' head = some l → node ≠ head ∧ node ∉ l →
      ls'.addAfter node novel head = some l := by
    intro ls' node novel hl' hnode
    rw [Lists.addAfter, hl', Option.map_some, if_neg hnode.1, insertAfter_of_not_mem hnode.2]
  have hbefore : ∀ {ls' : Lists} {node novel}, ls' head = some l → node ≠ head ∧ node ∉ l →
      ls'.addBefore node novel head = some l := by
    intro ls' node novel hl' hnode
    rw [Lists.addBefore, hl', Option.map_some, if_neg hnode.1, insertBefore_of_not_mem hnode.2]
  have hreplace : ∀ {old novel}, old ∉ l → ls.replace old novel head = some l := by
    intro old novel hold
    rw [Lists.replace, hl, Option.map_some, List.replace_of_not_mem hold]
  cases call with
  | init list => exact (update_of_ne (hnot list (by simp [args])).1.symm ..).trans hl
  | addAfter node novel => exact hafter hl (hnot node (by simp [args]))
  | addBefore node novel => exact hbefore hl (hnot node (by simp [args]))
  | push list elem => exact hbefore hl (hnot list (by simp [args]))
  | del node => exact hdel (hnot node (by simp [args])).2
  | delInit node => exact hdel (hnot node (by simp [args])).2
  | replace old novel => exact hreplace (hnot old (by simp [args])).2
  | replaceInit old novel => exact hreplace (hnot old (by simp [args])).2
  | moveAfter target moved =>
    exact hafter (hdel (hnot moved (by simp [args])).2) (hnot target (by simp [args]))
  | moveBefore target moved =>
    exact hbefore (hdel (hnot moved (by simp [args])).2) (hnot target (by simp [args]))
  | pop list =>
    have hne := (hnot list (by simp [args])).1.symm
    change (ls head).map _ = some l
    rw [hl, Option.map_some, if_neg hne]

/-- **Lists are sequences**: after a call the memory holds the lists that the call makes of the sequences,
those that it does not name are as before, and the loops over each list agree. -/
theorem list_calls (h : Holds m ls) (hlegal : call.Legal ls) :
    Holds (call.run m).1 (call.apply ls).1 ∧ (call.run m).2 = (call.apply ls).2 ∧
    (∀ head l, ls head = some l → List.Disjoint call.args (head :: l) →
      (call.apply ls).1 head = some l) ∧
    (∀ a, (call.apply ls).1.Member a →
      ((call.run m).1 ((call.run m).1 a).next).prev = a ∧
      ((call.run m).1 ((call.run m).1 a).prev).next = a) ∧
    ∀ head l, (call.apply ls).1 head = some l → ∀ fuel, l.length < fuel →
      listWalkForward (call.run m).1 head fuel = some l ∧
      listWalkBackward (call.run m).1 head fuel = some l.reverse ∧
      listLength (call.run m).1 head fuel = some l.length := by
  obtain ⟨hholds, hresult⟩ := h.step hlegal
  refine ⟨hholds, hresult, fun head l hl hargs => Call.apply_of_disjoint hl hargs,
    fun a ha => hholds.linked ha, fun head l hl fuel hfuel => ?_⟩
  exact ⟨hholds.walkForward hl hfuel, hholds.walkBackward hl hfuel, hholds.length hl hfuel⟩

/-- The heads 1 and 4, with the nodes 2 and 3, and 5. -/
def twoLists : Lists := fun head => if head = 1 then some [2, 3] else if head = 4 then some [5] else none

def twoListsNodes : Nodes := fun node =>
  ([⟨0, 0⟩, ⟨2, 3⟩, ⟨3, 1⟩, ⟨1, 2⟩, ⟨5, 5⟩, ⟨4, 4⟩] : List ListNode).getD node ⟨0, 0⟩

lemma holds_twoLists : Holds twoListsNodes twoLists := by
  have hcases : ∀ {head l}, twoLists head = some l → head = 1 ∧ l = [2, 3] ∨ head = 4 ∧ l = [5] := by
    intro head l hl
    unfold twoLists at hl
    split_ifs at hl with hone hfour
    · exact .inl ⟨hone, (Option.some.inj hl).symm⟩
    · exact .inr ⟨hfour, (Option.some.inj hl).symm⟩
  constructor
  · intro head l hl
    rcases hcases hl with ⟨rfl, rfl⟩ | ⟨rfl, rfl⟩
    · exact ⟨by decide, by simp [Linked, Nodes.next, Nodes.prev, twoListsNodes]⟩
    · exact ⟨by decide, by simp [Linked, Nodes.next, Nodes.prev, twoListsNodes]⟩
  · intro head head' l l' hl hl' hne
    rcases hcases hl with ⟨rfl, rfl⟩ | ⟨rfl, rfl⟩ <;> rcases hcases hl' with ⟨rfl, rfl⟩ | ⟨rfl, rfl⟩
    · exact absurd rfl hne
    · simp
    · simp
    · exact absurd rfl hne

/-- A node is moved behind the next one, and another one to the other list. -/
theorem list_calls_moves :
    listWalkForward (listMoveAfter twoListsNodes 3 2) 1 3 = some [3, 2] ∧
      listWalkForward (listMoveAfter twoListsNodes 5 3) 1 3 = some [2] ∧
      listWalkBackward (listMoveAfter twoListsNodes 5 3) 4 3 = some [3, 5] := by
  have hnode : ∀ a ∈ [2, 3], twoLists.Node a := fun a ha => ⟨1, [2, 3], rfl, ha⟩
  have hneighbours : (Call.moveAfter 3 2).Legal twoLists :=
    ⟨hnode 2 (by simp), ⟨1, [2, 3], rfl, by simp⟩, by simp⟩
  have hlists : (Call.moveAfter 5 3).Legal twoLists :=
    ⟨hnode 3 (by simp), ⟨4, [5], rfl, by simp⟩, by simp⟩
  have hmoved := (list_calls holds_twoLists hneighbours).2.2.2.2
  have htaken := (list_calls holds_twoLists hlists).2.2.2.2
  exact ⟨(hmoved 1 [3, 2] rfl 3 (by simp)).1, (htaken 1 [2] rfl 3 (by simp)).1, (htaken 4 [5, 3] rfl 3 (by simp)).2.1⟩

end Futils.LinkedList
