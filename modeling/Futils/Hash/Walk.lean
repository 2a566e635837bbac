import Futils.Hash.Order
import Futils.LinkedList.SafeWalks

/-!
# Removing entries in a walk over them

`list_walk_entry_forward_safe` on `hash->entries`, of which the body removes the entries that meet a
condition with `futils_hash_remove`.  The entry is unlinked from its chain and from the list and freed, so
that the walk goes on with the successor that it has saved.
-/

namespace Futils.Hash

open Futils.Lib Futils.LinkedList List

/-- The body of the loop. -/
def removeIf (drop : (Σ _ : UInt32, Value) → Bool) (fuel : ℕ) (s : State) (e : HashEntry) :
    Option (ℤ × State × List ℕ) :=
  if drop e.binding then futilsHashRemove fuel s e.key else some (0, s, [])

/-- The rest of the walk, from `pos` on: the state, the entries visited and the calls of `hfree`.  An entry
that was freed is not read. -/
def walkRemove (drop : (Σ _ : UInt32, Value) → Bool) (fuel : ℕ) :
    ℕ → State → ℕ → ℕ → Option (State × List ℕ × List ℕ)
  | 0, _, _, _ => none
  | turns + 1, s, pos, tmp =>
    if pos ≠ s.tab.entries then do
      let e ← s.heap pos
      let (_, s, freed) ← removeIf drop fuel s e
      let (s, visited, rest) ← walkRemove drop fuel turns s tmp (s.nodes tmp).next
      return (s, pos :: visited, freed ++ rest)
    else some (s, [], [])

/-- The walk. -/
def walkEntriesRemove (drop : (Σ _ : UInt32, Value) → Bool) (fuel turns : ℕ) (s : State) :
    Option (State × List ℕ × List ℕ) :=
  let pos := (s.nodes s.tab.entries).next
  walkRemove drop fuel turns s pos (s.nodes pos).next

variable {s s' : State} {chains : ℕ → List ℕ} {order as : List ℕ} {heap heap' : Heap HashEntry} {fuel n a b : ℕ}
  {e e' : HashEntry}

/-! ### Entries and their keys -/

lemma binding_mem (ha : a ∈ as) (he : heap a = some e) : e.binding ∈ bindings heap as :=
  mem_filterMap.mpr ⟨a, ha, by rw [he, Option.map_some]⟩

lemma key_mem (ha : a ∈ as) (he : heap a = some e) : e.key ∈ (bindings heap as).keys :=
  mem_keys_of_mem (binding_mem ha he)

/-- An entry is found by its key. -/
lemma eq_of_key (hkeys : (bindings heap as).NodupKeys) (ha : a ∈ as) (hb : b ∈ as) (he : heap a = some e)
    (he' : heap b = some e') (hkey : e.key = e'.key) : a = b := by
  induction as with
  | nil => cases ha
  | cons c as ih =>
    rcases hc : heap c with _ | ec
    · have htail : bindings heap (c :: as) = bindings heap as := by
        unfold bindings values
        rw [filterMap_cons_none (by rw [hc, Option.map_none])]
      have hne : ∀ x ∈ c :: as, (heap x).isSome → x ∈ as := by
        intro x hx hsome
        rcases mem_cons.mp hx with rfl | hx
        · rw [hc] at hsome
          cases hsome
        · exact hx
      exact ih (htail ▸ hkeys) (hne a ha (by rw [he]; rfl)) (hne b hb (by rw [he']; rfl))
    · rw [bindings_cons hc, nodupKeys_cons] at hkeys
      rcases mem_cons.mp ha with rfl | hat
      · rcases mem_cons.mp hb with rfl | hbt
        · rfl
        · obtain rfl := Option.some.inj (hc.symm.trans he)
          refine absurd ?_ hkeys.1
          change ec.key ∈ _
          rw [hkey]
          exact key_mem hbt he'
      · rcases mem_cons.mp hb with rfl | hbt
        · obtain rfl := Option.some.inj (hc.symm.trans he')
          refine absurd ?_ hkeys.1
          change ec.key ∈ _
          rw [← hkey]
          exact key_mem hat he
        · exact ih hkeys.2 hat hbt

/-! ### Tables -/

/-- The table has these entries, in this order, and no chain has more than `n` of them. -/
def Lists (s : State) (order : List ℕ) (n : ℕ) : Prop :=
  ∃ chains bs, Holds s chains bs ∧ (∀ i, (chains i).length ≤ n) ∧ Ordered s chains order ∧
    (bindings s.heap order).NodupKeys

lemma Lists.walks (h : Lists s order n) : Walks .forward s.nodes s.tab.entries order := by
  obtain ⟨chains, bs, -, -, ho, -⟩ := h
  exact ho.circular

/-- An entry of the list is in memory. -/
lemma Lists.live (h : Lists s order n) (ha : a ∈ order) : ∃ e, s.heap a = some e := by
  obtain ⟨chains, bs, hholds, -, ho, -⟩ := h
  obtain ⟨i, hi⟩ := (ho.mem a).mp ha
  exact ((hholds.chain i (hholds.lt hi)).live hi).2

/-- **An entry of the list is removed** by its key, and the others stay as they are. -/
lemma Lists.remove (h : Lists s order n) (hfuel : n < fuel) (hsize : s.tab.size ≠ 0) (ha : a ∈ order)
    (he : s.heap a = some e) :
    ∃ s', futilsHashRemove fuel s e.key = some (0, s', s.tab.frees e) ∧ Lists s' (order.erase a) n ∧
      SameTable s s' ∧
      ∀ c ∈ order.erase a, (s'.heap c).map HashEntry.binding = (s.heap c).map HashEntry.binding := by
  obtain ⟨chains, bs, hholds, hlen, ho, hkeys⟩ := h
  have hnodup : order.Nodup := (nodup_cons.mp ho.circular.nodup).2
  have henough : Enough chains fuel := fun i => (hlen i).trans_lt hfuel
  obtain ⟨i, hi⟩ := (ho.mem a).mp ha
  have hmem : e.binding ∈ bs i := by
    rw [← hholds.binds i]
    exact binding_mem hi he
  obtain rfl : s.tab.index e.key = i := hholds.buckets.home i e.binding hmem
  have hlookup : (bs (s.tab.index e.key)).dlookup e.key = some ⟨e.data, e.isConst⟩ :=
    mem_dlookup (hholds.buckets.nodupKeys _) hmem
  obtain ⟨xs, a', ys, e', hsplit, he', hb, hrun, hholds'⟩ := remove_takenOut hholds hsize henough hlookup
  have ha' : a' ∈ order := (ho.mem a').mpr ⟨_, by rw [hsplit]; exact mem_append_right _ mem_cons_self⟩
  obtain rfl : a = a' := eq_of_key hkeys ha ha' he he' (congrArg Sigma.fst hb).symm
  obtain rfl := Option.some.inj (he.symm.trans he')
  obtain ⟨ho', hbindings⟩ := ho.takenOut (xs.getLastD 0) hholds hsplit he hb hkeys
  refine ⟨_, hrun, ⟨_, _, hholds', fun i => ?_, ho', ?_⟩, takenOut_sameTable, fun c hc => ?_⟩
  · refine length_update_le hlen _ ?_ i
    have hle := hlen (s.tab.index e.key)
    rw [hsplit, length_append, length_cons] at hle
    rw [length_append]
    omega
  · rw [hbindings]
    exact hkeys.kerase e.key
  · exact takenOut_binding ((hnodup.mem_erase_iff.mp hc).1)

/-! ### The walk -/

lemma freed_of_sameTable (h : SameTable s s') : freed s' = freed s := by
  funext l
  unfold freed
  rw [h.hfree]

/-- One turn: the entry is removed or kept, and the saved successor is the next one of those behind it. -/
lemma Lists.turn {rest : List ℕ} (h : Lists s (as ++ a :: rest) n) (hfuel : n < fuel) (hsize : s.tab.size ≠ 0)
    (he : s.heap a = some e) (drop : (Σ _ : UInt32, Value) → Bool) :
    ∃ ret s₁, removeIf drop fuel s e = some (ret, s₁, freed s ([e.binding].filter drop)) ∧
      Lists s₁ ((if drop e.binding then as else as ++ [a]) ++ rest) n ∧ SameTable s s₁ ∧
      bindings s₁.heap rest = bindings s.heap rest ∧
      bindings s₁.heap (if drop e.binding then as else as ++ [a]) =
        bindings s.heap as ++ [e.binding].filter fun x => !drop x := by
  unfold removeIf
  by_cases hdrop : drop e.binding
  · have ha : a ∈ as ++ a :: rest := mem_append_right _ mem_cons_self
    obtain ⟨s₁, hrun, hlists, htab, hsame⟩ := h.remove hfuel hsize ha he
    have hnodup := (nodup_cons.mp h.walks.nodup).2
    have herase : (as ++ a :: rest).erase a = as ++ rest := by
      rw [erase_append_right _ (not_mem_before hnodup), erase_cons_head]
    rw [herase] at hlists hsame
    have hfreed : freed s ([e.binding].filter drop) = s.tab.frees e := by
      rw [filter_cons_of_pos hdrop, filter_nil]
      rfl
    refine ⟨0, s₁, ?_, ?_, htab, values_congr fun c hc => hsame c (mem_append_right _ hc), ?_⟩
    · rw [if_pos hdrop, hfreed, hrun]
    · rwa [if_pos hdrop]
    · rw [if_pos hdrop, filter_cons_of_neg (by simp [hdrop]), filter_nil, append_nil]
      exact values_congr fun c hc => hsame c (mem_append_left _ hc)
  · refine ⟨0, s, ?_, ?_, ⟨rfl, rfl, rfl⟩, rfl, ?_⟩
    · rw [if_neg hdrop, filter_cons_of_neg hdrop, filter_nil]
      unfold freed
      split_ifs <;> rfl
    · rwa [if_neg hdrop, append_assoc]
    · have hlast : bindings s.heap [a] = [e.binding] := bindings_cons he
      rw [if_neg hdrop, filter_cons_of_pos (by simp [hdrop]), filter_nil, ← hlast]
      exact values_append

/-- **The rest of the walk** removes the entries of the rest of the list that meet the condition. -/
lemma walkRemove_eq {rest : List ℕ} {tmp : ℕ} (h : Lists s (as ++ rest) n) (hfuel : n < fuel)
    (hsize : s.tab.size ≠ 0) (htmp : rest ≠ [] → tmp = rest.tail.headD s.tab.entries)
    (drop : (Σ _ : UInt32, Value) → Bool) :
    ∃ s' kept, (∀ turns, rest.length < turns →
        walkRemove drop fuel turns s (rest.headD s.tab.entries) tmp =
          some (s', rest, freed s ((bindings s.heap rest).filter drop))) ∧
      Lists s' (as ++ kept) n ∧ SameTable s s' ∧
      bindings s'.heap (as ++ kept) = bindings s.heap as ++ (bindings s.heap rest).filter fun x => !drop x := by
  induction rest generalizing s as tmp with
  | nil =>
    refine ⟨s, [], ?_, h, ⟨rfl, rfl, rfl⟩, ?_⟩
    · intro turns hturns
      obtain ⟨turns, rfl⟩ := Nat.exists_eq_add_one_of_ne_zero (Nat.ne_of_gt hturns)
      rw [headD_nil, walkRemove, if_neg (not_not.mpr rfl)]
      unfold freed
      split_ifs <;> rfl
    · rw [append_nil]
      exact (append_nil _).symm
  | cons a rest ih =>
    obtain ⟨e, he⟩ := h.live (mem_append_right _ mem_cons_self)
    have hhead : a ≠ s.tab.entries := by
      rintro rfl
      exact (nodup_cons.mp h.walks.nodup).1 (mem_append_right _ mem_cons_self)
    obtain rfl : tmp = rest.headD s.tab.entries := htmp (cons_ne_nil a rest)
    obtain ⟨ret, s₁, hrun, hlists, htab, hrest, hbefore⟩ := h.turn hfuel hsize he drop
    have hnext : rest ≠ [] →
        (s₁.nodes (rest.headD s.tab.entries)).next = rest.tail.headD s₁.tab.entries := by
      intro hne
      rw [← htab.entries]
      exact hlists.walks.step_headD hne
    obtain ⟨s', kept, hwalk, hlists', htab', hbindings⟩ :=
      ih hlists (by rw [htab.size]; exact hsize) hnext
    rw [hrest, htab.entries, freed_of_sameTable htab] at hwalk
    rw [hrest, hbefore] at hbindings
    refine ⟨s', if drop e.binding then kept else a :: kept, ?_, ?_, htab.trans htab', ?_⟩
    · intro turns hturns
      obtain ⟨turns, rfl⟩ := Nat.exists_eq_add_one_of_ne_zero (Nat.ne_of_gt (Nat.zero_lt_of_lt hturns))
      rw [length_cons] at hturns
      have hfreed : freed s ((bindings s.heap (a :: rest)).filter drop) =
          freed s ([e.binding].filter drop) ++ freed s ((bindings s.heap rest).filter drop) := by
        rw [bindings_cons he, ← singleton_append, filter_append]
        unfold freed
        split_ifs
        · exact map_append
        · rfl
      rw [headD_cons, walkRemove, if_pos hhead, he, hfreed]
      simp only [Option.bind_eq_bind, Option.bind_some, hrun, hwalk turns (Nat.lt_of_succ_lt_succ hturns)]
      rfl
    · split_ifs at hlists' ⊢ with hdrop
      · exact hlists'
      · rwa [append_assoc] at hlists'
    · rw [bindings_cons he, ← singleton_append (l := bindings s.heap rest), filter_append, ← append_assoc,
        ← hbindings]
      split_ifs
      · rfl
      · rw [append_assoc]
        rfl

/-- **Removing in a walk is filtering.**  After any calls on a new table, a walk that removes the entries that
meet a condition visits all entries once, in the order in which they were inserted, and reads none that is
freed.  The table is consistent and has the other bindings, in their order, and the callback is called with
the data of the ones that were removed. -/
theorem walkEntriesRemove_filters {nodes : Nodes} {hash size : ℕ} {hfree calloc : Bool} {calls : List Call}
    (hinit : futilsHashInit heap nodes hash size hfree calloc = (0, s))
    (halloc : Along (next fuel) (fun s c => c.Allocates s) s calls) (hdestroy : .destroy ∉ calls)
    (hfuel : calls.length < fuel) (drop : (Σ _ : UInt32, Value) → Bool) :
    ∃ answers s₁ order s' chains kept, run fuel s calls = some (answers, s₁) ∧
      bindings s₁.heap order = calls.foldl Bindings.step [] ∧
      (∀ turns, order.length < turns → walkEntriesRemove drop fuel turns s₁ =
        some (s', order,
          if hfree then ((calls.foldl Bindings.step []).filter drop).map fun x => x.2.data else [])) ∧
      Consistent s' chains kept ∧
      bindings s'.heap kept = (calls.foldl Bindings.step []).filter fun x => !drop x := by
  obtain ⟨-, hsize, hcallback⟩ := represents_init hinit
  have hlt : 0 + calls.length < fuel := by omega
  obtain ⟨answers, s₁, hrun, ⟨chains, bs, order, hholds, hlen, ho, hl, hkeys⟩, htab⟩ :=
    run_keeps (inOrder_init hinit) hsize halloc hdestroy hlt.le
  have hlists : Lists s₁ ([] ++ order) (0 + calls.length) := ⟨chains, bs, hholds, hlen, ho, hl ▸ hkeys⟩
  have htmp : order ≠ [] →
      (s₁.nodes (order.headD s₁.tab.entries)).next = order.tail.headD s₁.tab.entries :=
    fun hne => hlists.walks.step_headD hne
  obtain ⟨s', kept, hwalk, ⟨chains', bs', hholds', -, ho', hkeys'⟩, -, hbindings⟩ :=
    walkRemove_eq hlists hlt (htab.size ▸ hsize) htmp drop
  rw [hl] at hwalk hbindings
  refine ⟨answers, s₁, order, s', chains', kept, hrun, hl, fun turns hturns => ?_,
    ho'.consistent hholds' hkeys', hbindings⟩
  have hfirst : (s₁.nodes s₁.tab.entries).next = order.headD s₁.tab.entries := hlists.walks.step_head
  have hfree₁ : s₁.tab.hfree = hfree := htab.hfree.trans hcallback
  have hrest := hwalk turns hturns
  unfold freed at hrest
  rw [hfree₁] at hrest
  unfold walkEntriesRemove
  dsimp only
  rw [hfirst]
  exact hrest

/-- What is not constant is removed; the entries are visited in the order in which they were inserted last. -/
theorem walkEntriesRemove_filters_again :
    ∃ answers s₁ order s' chains kept,
      run 5 (futilsHashInit (fun _ => none) (fun _ => ⟨0, 0⟩) 40 0 true true).2 againCalls =
        some (answers, s₁) ∧
      bindings s₁.heap order = [⟨9, 200, true⟩, ⟨7, 300, false⟩] ∧
      (∀ turns, order.length < turns →
        walkEntriesRemove (fun x => !x.2.isConst) 5 turns s₁ = some (s', order, [300])) ∧
      Consistent s' chains kept ∧ bindings s'.heap kept = [⟨9, 200, true⟩] :=
  walkEntriesRemove_filters
    (show futilsHashInit (fun _ => none) (fun _ => ⟨0, 0⟩) 40 0 true true = (0, _) from rfl)
    (by
      refine ⟨⟨?_, by decide +kernel⟩, ⟨?_, by decide +kernel⟩, ⟨trivial, trivial⟩,
        ⟨?_, by decide +kernel⟩, trivial⟩
      all_goals
        rintro p ⟨⟩
        exact ⟨by decide, by decide +kernel⟩)
    (by decide) (by decide) fun x => !x.2.isConst

end Futils.Hash
