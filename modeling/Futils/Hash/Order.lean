import Futils.Hash.Refine
import Futils.LinkedList.Refine

/-!
# The list of the entries

The list `hash->entries` has the entries of all chains, in the order in which they were inserted: a new
key comes last, and a key that is removed leaves the others in their order.
-/

namespace Futils.Hash

open Futils.Lib Futils.LinkedList List

/-- The bindings of a table, the oldest first. -/
abbrev Bindings := List (Σ _ : UInt32, Value)

/-- Both kinds of insertion. -/
def Bindings.insertNew (l : Bindings) (block : Option ℕ) (key : UInt32) (v : Value) : Bindings :=
  match block with
  | none => l
  | some _ => if key ∈ l.keys then l else l ++ [⟨key, v⟩]

/-- What a call does to the bindings in their order. -/
def Bindings.step (l : Bindings) : Call → Bindings
  | .insert block key data => l.insertNew block key ⟨data, false⟩
  | .insertConst block key data => l.insertNew block key ⟨data, true⟩
  | .remove key => l.kerase key
  | .removeAll | .destroy => []
  | .lookup _ _ | .lookupConst _ _ => l

/-- What the allocator returns is fresh, and is not the list head in the table. -/
def Call.Allocates (s : State) (c : Call) : Prop :=
  c.Fresh s ∧ match c with
    | .insert block _ _ | .insertConst block _ _ => s.tab.entries ∉ block
    | _ => True

/-- The list has the entries of the chains. -/
structure Ordered (s : State) (chains : ℕ → List ℕ) (order : List ℕ) : Prop where
  circular : Circular s.nodes.next s.nodes.prev s.tab.entries order
  mem : ∀ a, a ∈ order ↔ ∃ i, a ∈ chains i

/-- The bindings of the table are `l`, in their order, and no chain has more than `n` entries. -/
def InOrder (s : State) (l : Bindings) (n : ℕ) : Prop :=
  ∃ chains bs order, Holds s chains bs ∧ (∀ i, (chains i).length ≤ n) ∧ Ordered s chains order ∧
    bindings s.heap order = l ∧ l.NodupKeys

variable {s s' : State} {chains : ℕ → List ℕ} {bs : ℕ → Bindings} {order : List ℕ} {l : Bindings}
  {key : UInt32} {fuel n p i : ℕ} {c : Call} {cs : List Call}

lemma nodes_congr {nodes nodes' : Nodes} {head : ℕ}
    (h : Circular nodes.next nodes.prev head order) (heq : ∀ a ∈ head :: order, nodes' a = nodes a) :
    Circular nodes'.next nodes'.prev head order :=
  h.congr fun a ha => ⟨congrArg ListNode.next (heq a ha), congrArg ListNode.prev (heq a ha)⟩

/-- A key that the list has is the one that its bucket has. -/
lemma Ordered.keys_iff (ho : Ordered s chains order) (h : Holds s chains bs) :
    key ∈ (bindings s.heap order).keys ↔ key ∈ (bs (s.tab.index key)).keys := by
  have hmem : ∀ x, x ∈ bindings s.heap order ↔ ∃ i, x ∈ bs i := by
    intro x
    unfold bindings values
    simp only [mem_filterMap, ho.mem]
    constructor
    · rintro ⟨a, ⟨i, ha⟩, hx⟩
      refine ⟨i, ?_⟩
      rw [← h.binds i]
      exact mem_filterMap.mpr ⟨a, ha, hx⟩
    · rintro ⟨i, hx⟩
      rw [← h.binds i] at hx
      obtain ⟨a, ha, hx⟩ := mem_filterMap.mp hx
      exact ⟨a, ⟨i, ha⟩, hx⟩
  constructor
  · intro hkey
    obtain ⟨v, hv⟩ := exists_of_mem_keys hkey
    obtain ⟨i, hi⟩ := (hmem _).mp hv
    obtain rfl := h.buckets.home i _ hi
    exact mem_keys_of_mem hi
  · intro hkey
    obtain ⟨v, hv⟩ := exists_of_mem_keys hkey
    exact mem_keys_of_mem ((hmem _).mpr ⟨_, hv⟩)

/-- The entries once a chain is another one. -/
lemma exists_update {chain : List ℕ} {a : ℕ} :
    (∃ j, a ∈ Function.update chains i chain j) ↔ a ∈ chain ∨ ∃ j ≠ i, a ∈ chains j :=
  Function.exists_update_iff chains fun _ chain => a ∈ chain

lemma exists_chain (chains : ℕ → List ℕ) (i a : ℕ) :
    (∃ j, a ∈ chains j) ↔ a ∈ chains i ∨ ∃ j ≠ i, a ∈ chains j := by
  rw [← exists_update, Function.update_eq_self]

/-! ### Insertion -/

/-- A block of the allocator is not in the list. -/
lemma Ordered.not_mem (ho : Ordered s chains order) (h : Holds s chains bs) (hp : Fresh s p)
    (hhead : p ≠ s.tab.entries) : p ∉ s.tab.entries :: order := by
  rw [mem_cons, not_or, ho.mem]
  exact ⟨hhead, fun ⟨i, hi⟩ => h.fresh hp i hi⟩

/-- A block of the allocator is no part of the list yet. -/
lemma Ordered.alloc (ho : Ordered s chains order) (hnot : p ∉ s.tab.entries :: order) :
    Ordered { s with nodes := Function.update s.nodes p ⟨0, 0⟩ } chains order where
  circular := nodes_congr ho.circular fun _ ha => Function.update_of_ne (ne_of_mem_of_not_mem ha hnot) ..
  mem := ho.mem

/-- The list with an entry behind it, of which the bindings have the new one behind them. -/
lemma Ordered.putIn (ho : Ordered s chains order) (h : Holds s chains bs) (hp : Fresh s p)
    (hhead : p ≠ s.tab.entries) (isConst : Bool) (data : ℕ) (key : UInt32) :
    Ordered (putIn s p isConst data key)
        (Function.update chains (s.tab.index key) (p :: chains (s.tab.index key))) (order ++ [p]) ∧
      bindings (putIn s p isConst data key).heap (order ++ [p]) =
        bindings s.heap order ++ [⟨key, data, isConst⟩] := by
  have hnot := ho.not_mem h hp hhead
  refine ⟨⟨circular_listAddBefore (ho.alloc hnot).circular hnot, fun a => ?_⟩, ?_⟩
  · rw [mem_append, mem_singleton, ho.mem, exists_update, exists_chain chains (s.tab.index key), mem_cons,
      or_comm, or_assoc]
  · have hrest : bindings (Hash.putIn s p isConst data key).heap order = bindings s.heap order := by
      refine bindings_congr fun a ha => ?_
      obtain ⟨i, hi⟩ := (ho.mem a).mp ha
      exact putIn_heap h hp hi
    have hself : (Hash.putIn s p isConst data key).heap p =
        some ⟨isConst, data, key, s.tab.buckets (s.tab.index key)⟩ := Function.update_self ..
    have hlast : bindings (Hash.putIn s p isConst data key).heap [p] = [⟨key, data, isConst⟩] :=
      bindings_cons hself
    exact values_append.trans (congrArg₂ (· ++ ·) hrest hlast)

lemma insertAs_inOrder (h : InOrder s l n) (hfuel : n < fuel) (hsize : s.tab.size ≠ 0)
    {block : Option ℕ} (hfresh : ∀ p ∈ block, Fresh s p) (hhead : s.tab.entries ∉ block) (isConst : Bool)
    (key : UInt32) (data : ℕ) :
    ∃ ret s', insertAs isConst fuel s block key data = some (ret, s') ∧
      InOrder s' (l.insertNew block key ⟨data, isConst⟩) (n + 1) ∧ SameTable s s' := by
  obtain ⟨chains, bs, order, hholds, hlen, ho, rfl, hkeys⟩ := h
  have hlen' : ∀ i, (chains i).length ≤ n + 1 := fun i => (hlen i).trans n.le_succ
  have henough : Enough chains fuel := fun i => (hlen i).trans_lt hfuel
  rcases block with _ | p
  · exact ⟨_, s, rfl, ⟨chains, bs, order, hholds, hlen', ho, rfl, hkeys⟩, .refl⟩
  · have hp : Fresh s p := hfresh p rfl
    have hne : p ≠ s.tab.entries := by
      rintro rfl
      exact hhead rfl
    unfold Bindings.insertNew
    dsimp only
    split_ifs with hkey
    · rw [ho.keys_iff hholds] at hkey
      obtain ⟨v, hv⟩ := Option.isSome_iff_exists.mp (dlookup_isSome.mpr hkey)
      have ho' := ho.alloc (ho.not_mem hholds hp hne)
      refine ⟨_, _, insertAs_exists hholds hsize henough hp hv, ?_, ⟨rfl, rfl, rfl⟩⟩
      exact ⟨chains, bs, order, ⟨hholds.chain, hholds.outside, hholds.binds, hholds.buckets⟩, hlen', ho',
        rfl, hkeys⟩
    · have hnew := hkey
      rw [ho.keys_iff hholds, ← dlookup_eq_none] at hnew
      obtain ⟨ho', hbindings⟩ := ho.putIn hholds hp hne isConst data key
      refine ⟨_, _, insertAs_putIn hholds hsize henough hp isConst data hnew, ?_, ⟨rfl, rfl, rfl⟩⟩
      refine ⟨_, _, _, putIn_holds hholds hsize hp isConst data hnew,
        length_update_le hlen' _ (Nat.succ_le_succ (hlen _)), ho', hbindings, ?_⟩
      unfold NodupKeys at hkeys ⊢
      rw [keys_append, nodup_append']
      refine ⟨hkeys, nodup_singleton key, fun a ha ha' => ?_⟩
      obtain rfl := mem_singleton.mp ha'
      exact hkey ha

/-! ### Removal -/

/-- The list without an entry, of which the bindings are those without its key. -/
lemma Ordered.takenOut {xs ys : List ℕ} {a : ℕ} {e : HashEntry} {v : Value}
    (ho : Ordered s chains order) (prev : ℕ) (h : Holds s chains bs) (hsplit : chains i = xs ++ a :: ys)
    (he : s.heap a = some e) (hb : e.binding = ⟨key, v⟩)
    (hkeys : (bindings s.heap order).NodupKeys) :
    Ordered (takenOut s i prev a e) (Function.update chains i (xs ++ ys)) (order.erase a) ∧
      bindings (takenOut s i prev a e).heap (order.erase a) =
        (bindings s.heap order).kerase key := by
  have hmemChain : a ∈ chains i := by simp [hsplit]
  have hmem : a ∈ order := (ho.mem a).mpr ⟨i, hmemChain⟩
  have hnodup : order.Nodup := (nodup_cons.mp ho.circular.nodup).2
  have htab : SameTable s (Hash.takenOut s i prev a e) := takenOut_sameTable
  have hnodes : (Hash.takenOut s i prev a e).nodes = listDel s.nodes a := by
    unfold Hash.takenOut
    split_ifs <;> rfl
  refine ⟨⟨?_, fun b => ?_⟩, ?_⟩
  · rw [hnodes, htab.entries]
    exact circular_listDel ho.circular hmem
  · have hnodupChain := h.nodup i
    rw [hsplit, nodup_middle, nodup_cons] at hnodupChain
    have hother : ∀ j, j ≠ i → a ∉ chains j := fun j hj ha => hj (h.disjoint ha hmemChain)
    rw [hnodup.mem_erase_iff, ho.mem, exists_update, exists_chain chains i, hsplit, mem_append, mem_append,
      mem_cons]
    by_cases hba : b = a
    · subst hba
      rw [mem_append] at hnodupChain
      simp only [ne_eq, not_true_eq_false, false_and, false_iff, not_or, not_exists, not_and]
      exact ⟨not_or.mp hnodupChain.1, hother⟩
    · simp [hba]
  · obtain ⟨os, os', rfl⟩ := append_of_mem hmem
    have hnot : a ∉ os := not_mem_before hnodup
    have hbindings : bindings s.heap (os ++ a :: os') =
        bindings s.heap os ++ e.binding :: bindings s.heap os' := by
      rw [← bindings_cons he]
      exact values_append
    have hbefore : key ∉ (bindings s.heap os).keys := by
      unfold NodupKeys at hkeys
      rw [hbindings, keys_append, keys_cons, hb] at hkeys
      exact not_mem_before hkeys
    rw [erase_append_right _ hnot, erase_cons_head]
    refine bindings_unlink he hb hbefore fun c hc => takenOut_binding ?_
    rw [nodup_middle, nodup_cons] at hnodup
    exact ne_of_mem_of_not_mem hc hnodup.1

lemma remove_inOrder (h : InOrder s l n) (hfuel : n < fuel) (hsize : s.tab.size ≠ 0) (key : UInt32) :
    ∃ ret s' fr, futilsHashRemove fuel s key = some (ret, s', fr) ∧
      InOrder s' (l.kerase key) (n + 1) ∧ SameTable s s' := by
  obtain ⟨chains, bs, order, hholds, hlen, ho, rfl, hkeys⟩ := h
  have henough : Enough chains fuel := fun i => (hlen i).trans_lt hfuel
  have hlen' : ∀ i, (chains i).length ≤ n + 1 := fun i => (hlen i).trans n.le_succ
  rcases hkey : (bs (s.tab.index key)).dlookup key with _ | v
  · refine ⟨_, s, _, remove_absent hholds hsize henough hkey, ?_, .refl⟩
    have hnot : key ∉ (bindings s.heap order).keys := by
      rw [ho.keys_iff hholds]
      exact dlookup_eq_none.mp hkey
    rw [kerase_of_notMem_keys hnot]
    exact ⟨chains, bs, order, hholds, hlen', ho, rfl, hkeys⟩
  · obtain ⟨xs, a, ys, e, hsplit, he, hb, hrun, hholds'⟩ := remove_takenOut hholds hsize henough hkey
    obtain ⟨ho', hbindings⟩ :=
      ho.takenOut (xs.getLastD 0) hholds hsplit he hb hkeys
    refine ⟨_, _, _, hrun, ⟨_, _, _, hholds', fun i => ?_, ho', hbindings, hkeys.kerase key⟩,
      takenOut_sameTable⟩
    refine length_update_le hlen' _ ?_ i
    have hle := hlen' (s.tab.index key)
    rw [hsplit, length_append, length_cons] at hle
    rw [length_append]
    omega

/-! ### Removing everything -/

/-- One bucket is emptied. -/
lemma Ordered.removeBucket {s₁ : State} (ho : Ordered s chains order) (h : Holds s chains bs)
    (hs₁ : s₁ = dropped s (chains i) ((chains i).foldl listDel s.nodes)) :
    Ordered (emptied s₁ i) (Function.update chains i []) (order.diff (chains i)) := by
  have hnodup : order.Nodup := (nodup_cons.mp ho.circular.nodup).2
  subst hs₁
  constructor
  · exact circular_listDel_foldl ho.circular (fun a ha => (ho.mem a).mpr ⟨i, ha⟩) (h.nodup i)
  · intro a
    rw [hnodup.mem_sdiff_iff, ho.mem, exists_update, exists_chain chains i]
    constructor
    · rintro ⟨hi | hother, hnot⟩
      · exact absurd hi hnot
      · exact Or.inr hother
    · rintro (hi | ⟨j, hj, ha⟩)
      · cases hi
      · exact ⟨Or.inr ⟨j, hj, ha⟩, fun hi => hj (h.disjoint ha hi)⟩

lemma removeAllLoop_ordered {left : ℕ} {fr : List ℕ} (h : Holds s chains bs)
    (ho : Ordered s chains order) (hleft : i + left ≤ s.tab.size.toNat) (hfuel : Enough chains fuel)
    (hrun : removeAllLoop fuel left s i = some (s', fr)) :
    ∃ order', Ordered s' (cleared chains i left) order' := by
  induction left generalizing s i chains bs order fr with
  | zero =>
    obtain ⟨rfl, -⟩ := Prod.mk.inj (Option.some.inj hrun)
    have hsame : cleared chains i 0 = chains := by
      funext j
      exact if_neg (by omega)
    refine ⟨order, ?_⟩
    rwa [hsame]
  | succ left ih =>
    obtain ⟨s₁, hs₁, hloop, htab, hholds⟩ := removeBucket h (show i < s.tab.size.toNat by omega) hfuel
    have hbucket := ho.removeBucket h hs₁
    rw [removeAllLoop, hloop] at hrun
    dsimp only at hrun
    rw [← emptied] at hrun
    rcases hrest : removeAllLoop fuel left (emptied s₁ i) (i + 1) with _ | ⟨s₂, fr₂⟩
    · rw [hrest] at hrun
      cases hrun
    · rw [hrest] at hrun
      obtain ⟨rfl, -⟩ := Prod.mk.inj (Option.some.inj hrun)
      obtain ⟨order', ho'⟩ := ih hholds hbucket (by rw [htab.size]; omega) (hfuel.clear i) hrest
      exact ⟨order', cleared_succ chains i left ▸ ho'⟩

lemma removeAll_inOrder (h : InOrder s l n) (hfuel : n < fuel) :
    ∃ ret s' fr, futilsHashRemoveAll fuel s = some (ret, s', fr) ∧ InOrder s' [] (n + 1) ∧
      SameTable s s' := by
  obtain ⟨chains, bs, order, hholds, hlen, ho, -, -⟩ := h
  have henough : Enough chains fuel := fun i => (hlen i).trans_lt hfuel
  have hleft : 0 + s.tab.size.toNat ≤ s.tab.size.toNat := (Nat.zero_add _).le
  obtain ⟨s', hloop, htab, hholds'⟩ := removeAllLoop_eq (i := 0) hholds hleft henough
  obtain ⟨order', ho'⟩ := removeAllLoop_ordered hholds ho hleft henough hloop
  have hnil : ∀ i, cleared chains 0 s.tab.size.toNat i = [] := by
    intro i
    unfold cleared
    split_ifs with hi
    · rfl
    · exact hholds.outside i (by omega)
  obtain rfl : order' = [] := by
    refine eq_nil_iff_forall_not_mem.mpr fun a ha => ?_
    obtain ⟨i, hi⟩ := (ho'.mem a).mp ha
    rw [hnil i] at hi
    cases hi
  refine ⟨_, s', _, by rw [futilsHashRemoveAll, hloop], ?_, htab⟩
  refine ⟨_, _, [], hholds', fun i => ?_, ho', rfl, nodupKeys_nil⟩
  rw [hnil i]
  exact Nat.zero_le _

/-! ### Runs -/

/-- A lookup is done with what it finds, and leaves the table. -/
lemma lookup_inOrder (h : InOrder s l n) (hfuel : n < fuel) (hsize : s.tab.size ≠ 0) (key : UInt32)
    (data : Option ℕ) :
    (∃ ans, step fuel s (.lookup key data) = some (ans, s, [])) ∧
      ∃ ans, step fuel s (.lookupConst key data) = some (ans, s, []) := by
  obtain ⟨chains, bs, order, hholds, hlen, -⟩ := h
  have henough : Enough chains fuel := fun i => (hlen i).trans_lt hfuel
  rcases hkey : (bs (s.tab.index key)).dlookup key with _ | v
  · have hrun := lookupEntry_none hholds hsize henough hkey
    constructor
    · exact ⟨_, by rw [step, futilsHashLookup, hrun]; rfl⟩
    · exact ⟨_, by rw [step, futilsHashLookupConst, hrun]; rfl⟩
  · obtain ⟨e, -, hrun⟩ := lookupEntry_some hholds hsize henough hkey
    constructor
    · rw [step, futilsHashLookup, hrun]
      dsimp only
      split_ifs
      · exact ⟨_, rfl⟩
      · exact ⟨_, rfl⟩
    · exact ⟨_, by rw [step, futilsHashLookupConst, hrun]; rfl⟩

/-- **One call.** -/
lemma step_inOrder (h : InOrder s l n) (hfuel : n < fuel) (hsize : s.tab.size ≠ 0)
    (hlegal : c.Allocates s) (hdestroy : c ≠ .destroy) :
    ∃ ans s' fr, step fuel s c = some (ans, s', fr) ∧ InOrder s' (l.step c) (n + 1) ∧ SameTable s s' := by
  have hread : InOrder s l (n + 1) := by
    obtain ⟨chains, bs, order, hholds, hlen, ho⟩ := h
    exact ⟨chains, bs, order, hholds, fun i => (hlen i).trans n.le_succ, ho⟩
  cases c with
  | insert block key data =>
    obtain ⟨ret, s', hrun, hin, htab⟩ :=
      insertAs_inOrder h hfuel hsize hlegal.1 hlegal.2 false key data
    exact ⟨_, s', _, by rw [step, futilsHashInsert, hrun]; rfl, hin, htab⟩
  | insertConst block key data =>
    obtain ⟨ret, s', hrun, hin, htab⟩ :=
      insertAs_inOrder h hfuel hsize hlegal.1 hlegal.2 true key data
    exact ⟨_, s', _, by rw [step, futilsHashInsertConst, hrun]; rfl, hin, htab⟩
  | remove key =>
    obtain ⟨ret, s', fr, hrun, hin, htab⟩ := remove_inOrder h hfuel hsize key
    exact ⟨_, s', _, by rw [step, hrun]; rfl, hin, htab⟩
  | removeAll =>
    obtain ⟨ret, s', fr, hrun, hin, htab⟩ := removeAll_inOrder h hfuel
    exact ⟨_, s', _, by rw [step, hrun]; rfl, hin, htab⟩
  | lookup key data =>
    obtain ⟨ans, hrun⟩ := (lookup_inOrder h hfuel hsize key data).1
    exact ⟨ans, s, [], hrun, hread, .refl⟩
  | lookupConst key data =>
    obtain ⟨ans, hrun⟩ := (lookup_inOrder h hfuel hsize key data).2
    exact ⟨ans, s, [], hrun, hread, .refl⟩
  | destroy => exact absurd rfl hdestroy

/-- **Any calls** keep the order, and the table but for its buckets. -/
lemma run_keeps (h : InOrder s l n) (hsize : s.tab.size ≠ 0)
    (halloc : Along (next fuel) (fun s c => c.Allocates s) s cs) (hdestroy : .destroy ∉ cs)
    (hfuel : n + cs.length ≤ fuel) :
    ∃ answers s', run fuel s cs = some (answers, s') ∧
      InOrder s' (cs.foldl Bindings.step l) (n + cs.length) ∧ SameTable s s' := by
  induction cs generalizing s l n with
  | nil => exact ⟨_, s, rfl, h, .refl⟩
  | cons c cs ih =>
    rw [length_cons] at hfuel
    rw [mem_cons, not_or] at hdestroy
    obtain ⟨ans, s₁, fr, hstep, hin, htab⟩ :=
      step_inOrder h (show n < fuel by omega) hsize halloc.1 (Ne.symm hdestroy.1)
    have hrest := halloc.2
    rw [next_eq hstep] at hrest
    obtain ⟨answers, s', hrun, hin', htab'⟩ :=
      ih hin (htab.size ▸ hsize) hrest hdestroy.2 (by omega)
    refine ⟨ans :: answers, s', by rw [run, hstep, Option.bind_some, hrun]; rfl, ?_, htab.trans htab'⟩
    rw [length_cons, foldl_cons, show n + (cs.length + 1) = n + 1 + cs.length by omega]
    exact hin'

lemma run_inOrder (h : InOrder s l n) (hsize : s.tab.size ≠ 0)
    (halloc : Along (next fuel) (fun s c => c.Allocates s) s cs) (hdestroy : .destroy ∉ cs)
    (hfuel : n + cs.length ≤ fuel) :
    ∃ answers s', run fuel s cs = some (answers, s') ∧
      InOrder s' (cs.foldl Bindings.step l) (n + cs.length) := by
  obtain ⟨answers, s', hrun, hin, -⟩ := run_keeps h hsize halloc hdestroy hfuel
  exact ⟨answers, s', hrun, hin⟩

/-- A new table is empty. -/
lemma inOrder_init {heap : Heap HashEntry} {nodes : Nodes} {hash size : ℕ} {hfree calloc : Bool}
    (hinit : futilsHashInit heap nodes hash size hfree calloc = (0, s)) : InOrder s [] 0 := by
  obtain ⟨⟨chains, bs, hholds, -, hlen⟩, -, -⟩ := represents_init hinit
  have hcircular : Circular s.nodes.next s.nodes.prev s.tab.entries [] := by
    cases calloc with
    | false =>
      have hret : -ENOMEM = 0 := congrArg Prod.fst hinit
      exact absurd hret (by decide)
    | true =>
      obtain rfl := congrArg Prod.snd hinit
      exact circular_listInit nodes hash
  refine ⟨chains, bs, [], hholds, hlen, ⟨hcircular, fun a => ?_⟩, rfl, nodupKeys_nil⟩
  refine iff_of_false not_mem_nil ?_
  rintro ⟨i, hi⟩
  rw [length_eq_zero_iff.mp (Nat.le_zero.mp (hlen i))] at hi
  cases hi

/-- What the two structures of a table are: chains that end, in which each entry is once and in the bucket
of its key, all keys being different; and a circular list of the same entries. -/
structure Consistent (s : State) (chains : ℕ → List ℕ) (order : List ℕ) : Prop where
  chain : ∀ i < s.tab.size.toNat, Chain HashEntry.next s.heap (s.tab.buckets i) (chains i)
  outside : ∀ i, s.tab.size.toNat ≤ i → chains i = []
  home : ∀ i, ∀ a ∈ chains i, ∃ e, s.heap a = some e ∧ (hash32 e.key % s.tab.size).toNat = i
  nodup : ∀ i, (chains i).Nodup
  disjoint : ∀ i j, i ≠ j → List.Disjoint (chains i) (chains j)
  keys : ((bindings s.heap order).map Sigma.fst).Nodup
  circular : Circular s.nodes.next s.nodes.prev s.tab.entries order
  entries : order.Perm ((range s.tab.size.toNat).flatMap chains)

lemma Ordered.consistent (ho : Ordered s chains order) (h : Holds s chains bs)
    (hkeys : (bindings s.heap order).NodupKeys) : Consistent s chains order := by
  have hdisjoint : ∀ i j, i ≠ j → List.Disjoint (chains i) (chains j) :=
    fun i j hij a hi hj => hij (h.disjoint hi hj)
  refine ⟨h.chain, h.outside, fun i a ha => ?_, h.nodup, hdisjoint, hkeys, ho.circular, ?_⟩
  · obtain ⟨-, e, he⟩ := (h.chain i (h.lt ha)).live ha
    refine ⟨e, he, h.buckets.home i e.binding ?_⟩
    rw [← h.binds i]
    exact mem_filterMap.mpr ⟨a, ha, by rw [he, Option.map_some]⟩
  · have hnodup : ((range s.tab.size.toNat).flatMap chains).Nodup := by
      refine nodup_flatMap.mpr ⟨fun i _ => h.nodup i, ?_⟩
      exact nodup_range.imp fun {i j} hij => hdisjoint i j hij
    refine (perm_ext_iff_of_nodup (nodup_cons.mp ho.circular.nodup).2 hnodup).mpr fun a => ?_
    rw [ho.mem, mem_flatMap]
    constructor
    · rintro ⟨i, hi⟩
      exact ⟨i, mem_range.mpr (h.lt hi), hi⟩
    · rintro ⟨i, -, hi⟩
      exact ⟨i, hi⟩

/-- **The chains and the list stay consistent**, and the list has the bindings in the order in which they
were inserted. -/
theorem entries_in_order {heap : Heap HashEntry} {nodes : Nodes} {hash size : ℕ} {hfree calloc : Bool}
    {s : State} {calls : List Call} {fuel : ℕ}
    (hinit : futilsHashInit heap nodes hash size hfree calloc = (0, s))
    (halloc : Along (next fuel) (fun s c => c.Allocates s) s calls) (hdestroy : .destroy ∉ calls)
    (hfuel : calls.length ≤ fuel) :
    ∃ answers s' chains order, run fuel s calls = some (answers, s') ∧ Consistent s' chains order ∧
      bindings s'.heap order = calls.foldl Bindings.step [] ∧
      ∀ fuel, order.length < fuel → listWalkForward s'.nodes s'.tab.entries fuel = some order := by
  obtain ⟨-, hsize, -⟩ := represents_init hinit
  obtain ⟨answers, s', hrun, chains, bs, order, hholds, -, ho, hl, hkeys⟩ :=
    run_inOrder (inOrder_init hinit) hsize halloc hdestroy (by omega)
  exact ⟨answers, s', chains, order, hrun, ho.consistent hholds (hl ▸ hkeys), hl,
    fun fuel hlt => listWalkForward_eq ho.circular hlt⟩

/-- The calls of the example: a key that is removed and inserted again comes last. -/
def againCalls : List Call :=
  [.insert (some 8) 7 100, .insertConst (some 16) 9 200, .remove 7, .insert (some 24) 7 300]

theorem entries_in_order_again :
    ∃ answers s' chains order,
      run 4 (futilsHashInit (fun _ => none) (fun _ => ⟨0, 0⟩) 40 0 true true).2 againCalls =
        some (answers, s') ∧ Consistent s' chains order ∧
      bindings s'.heap order = [⟨9, 200, true⟩, ⟨7, 300, false⟩] ∧
      ∀ fuel, order.length < fuel → listWalkForward s'.nodes s'.tab.entries fuel = some order :=
  entries_in_order
    (show futilsHashInit (fun _ => none) (fun _ => ⟨0, 0⟩) 40 0 true true = (0, _) from rfl)
    (by
      refine ⟨⟨?_, by decide +kernel⟩, ⟨?_, by decide +kernel⟩, ⟨trivial, trivial⟩,
        ⟨?_, by decide +kernel⟩, trivial⟩
      all_goals
        rintro p ⟨⟩
        exact ⟨by decide, by decide +kernel⟩)
    (by decide) (by decide)

end Futils.Hash
