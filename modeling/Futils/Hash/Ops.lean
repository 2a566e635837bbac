import Futils.Hash.Chains

/-!
# What each hash function does to the chains

One specification for each function, on a table whose chains are shorter than the fuel.
-/

namespace Futils.Hash

open Futils.Lib Futils.LinkedList List

/-- The chains are shorter than the fuel. -/
def Enough (chains : ℕ → List ℕ) (fuel : ℕ) : Prop := ∀ i, (chains i).length < fuel

variable {s s' : State} {chains : ℕ → List ℕ} {bs : ℕ → List (Σ _ : UInt32, Value)}
  {key : UInt32} {fuel p i n data : ℕ} {isConst : Bool} {v : Value} {out : Option ℕ}

/-- The chains are not longer with another one that is not. -/
lemma length_update_le {chain : List ℕ} (hlen : ∀ i, (chains i).length ≤ n) (i : ℕ)
    (hchain : chain.length ≤ n) : ∀ j, (Function.update chains i chain j).length ≤ n :=
  (Function.forall_update_iff chains fun _ chain => chain.length ≤ n).mpr ⟨hchain, fun j _ => hlen j⟩

/-! ### Lookup -/

lemma lookupEntry_none (h : Holds s chains bs) (hsize : s.tab.size ≠ 0) (hfuel : Enough chains fuel)
    (hkey : (bs (s.tab.index key)).dlookup key = none) :
    futilsHashLookupEntry fuel s key = some (-ENOENT, none) := by
  rw [← h.binds] at hkey
  obtain ⟨prev, hfind⟩ :=
    findLoop_none 0 (h.chain _ (HashTab.index_lt hsize key)) (hfuel _) hkey
  simp [futilsHashLookupEntry, hsize, hfind]

lemma lookupEntry_some (h : Holds s chains bs) (hsize : s.tab.size ≠ 0) (hfuel : Enough chains fuel)
    (hkey : (bs (s.tab.index key)).dlookup key = some v) :
    ∃ e, e.binding = ⟨key, v⟩ ∧ futilsHashLookupEntry fuel s key = some (0, some e) := by
  rw [← h.binds] at hkey
  obtain ⟨xs, a, ys, e, -, ha, he, hb, -, hfind⟩ :=
    findLoop_some 0 (h.chain _ (HashTab.index_lt hsize key)) (hfuel _) hkey
  exact ⟨e, hb, by simp [futilsHashLookupEntry, hsize, hfind, ha, he]⟩

/-! ### Insertion -/

/-- A fresh block is not allocated yet. -/
def Fresh (s : State) (p : ℕ) : Prop := p ≠ 0 ∧ s.heap p = none

lemma Holds.fresh (h : Holds s chains bs) (hp : Fresh s p) (i : ℕ) : p ∉ chains i := by
  intro hmem
  exact (h.chain i (h.lt hmem)).not_mem hp.2 hmem

/-- The state with the block that `calloc` returns and the entry filled in. -/
def withEntry (s : State) (p : ℕ) (e : HashEntry) : State :=
  { s with heap := Function.update s.heap p (some e), nodes := Function.update s.nodes p ⟨0, 0⟩ }

lemma insertLoop_withEntry (h : Holds s chains bs) (hsize : s.tab.size ≠ 0)
    (hfuel : Enough chains fuel) (hp : Fresh s p) (key : UInt32) (e : HashEntry) :
    insertLoop (withEntry s p e).heap key fuel (s.tab.buckets (s.tab.index key)) =
      some (if (bs (s.tab.index key)).dlookup key = none then 0 else -EEXIST) := by
  have hsame : ∀ a ∈ chains (s.tab.index key), (withEntry s p e).heap a = s.heap a := by
    intro a ha
    refine Function.update_of_ne ?_ _ _
    rintro rfl
    exact h.fresh hp _ ha
  rw [insertLoop_eq ((h.chain _ (HashTab.index_lt hsize key)).congr hsame) (hfuel _),
    bindings_congr hsame, h.binds]

/-- **A key that is there already** is not inserted, and the block is freed again. -/
lemma insertAs_exists (h : Holds s chains bs) (hsize : s.tab.size ≠ 0) (hfuel : Enough chains fuel)
    (hp : Fresh s p) (hkey : (bs (s.tab.index key)).dlookup key = some v) :
    insertAs isConst fuel s (some p) key data =
      some (-EEXIST, { s with nodes := Function.update s.nodes p ⟨0, 0⟩ }) := by
  have hloop := insertLoop_withEntry h hsize hfuel hp key ⟨isConst, data, key, 0⟩
  have hfreed : Function.update s.heap p none = s.heap := by
    rw [← hp.2, Function.update_eq_self]
  have hneg : (0 : ℤ) < EEXIST := by decide
  simp only [withEntry, hkey] at hloop
  simp [insertAs, futilsHashInsertEntry, hsize, hloop, hneg, hfreed]

/-- The state once an entry is in front of its bucket. -/
def putIn (s : State) (p : ℕ) (isConst : Bool) (data : ℕ) (key : UInt32) : State where
  tab := { s.tab with buckets := Function.update s.tab.buckets (s.tab.index key) p }
  heap := Function.update s.heap p (some ⟨isConst, data, key, s.tab.buckets (s.tab.index key)⟩)
  nodes := listAddBefore (Function.update s.nodes p ⟨0, 0⟩) s.tab.entries p

lemma insertAs_putIn (h : Holds s chains bs) (hsize : s.tab.size ≠ 0) (hfuel : Enough chains fuel)
    (hp : Fresh s p) (isConst : Bool) (data : ℕ)
    (hkey : (bs (s.tab.index key)).dlookup key = none) :
    insertAs isConst fuel s (some p) key data = some (0, putIn s p isConst data key) := by
  have hloop := insertLoop_withEntry h hsize hfuel hp key ⟨isConst, data, key, 0⟩
  rw [if_pos hkey] at hloop
  have hnext : setNext (withEntry s p ⟨isConst, data, key, 0⟩).heap p
      (s.tab.buckets (s.tab.index key)) = (putIn s p isConst data key).heap := by
    simp [setNext, withEntry, putIn]
  simp only [withEntry] at hloop hnext
  simp [insertAs, futilsHashInsertEntry, hsize, hloop, hnext]
  rfl

/-- The blocks of the table are not the new one. -/
lemma putIn_heap (h : Holds s chains bs) (hp : Fresh s p) {a : ℕ} (ha : a ∈ chains i) :
    (putIn s p isConst data key).heap a = s.heap a := by
  refine Function.update_of_ne ?_ _ _
  rintro rfl
  exact h.fresh hp i ha

lemma putIn_holds (h : Holds s chains bs) (hsize : s.tab.size ≠ 0) (hp : Fresh s p) (isConst : Bool)
    (data : ℕ) (hkey : (bs (s.tab.index key)).dlookup key = none) :
    Holds (putIn s p isConst data key)
      (Function.update chains (s.tab.index key) (p :: chains (s.tab.index key)))
      (Function.update bs (s.tab.index key)
        (⟨key, data, isConst⟩ :: bs (s.tab.index key))) := by
  set i := s.tab.index key with hi
  have hlt : i < s.tab.size.toNat := HashTab.index_lt hsize key
  have hself : (putIn s p isConst data key).heap p =
      some ⟨isConst, data, key, s.tab.buckets i⟩ := Function.update_self ..
  have hbucket : (putIn s p isConst data key).tab.buckets i = p := Function.update_self ..
  have hbinds : bindings (putIn s p isConst data key).heap (p :: chains i) =
      ⟨key, data, isConst⟩ :: bs i := by
    rw [bindings_cons hself, bindings_congr fun a ha => putIn_heap h hp ha, h.binds]
    rfl
  have hchain : Chain HashEntry.next (putIn s p isConst data key).heap
      ((putIn s p isConst data key).tab.buckets i) (p :: chains i) := by
    rw [hbucket]
    exact (h.chain i hlt).cons hp.1 (h.fresh hp i) (fun a ha => Function.update_of_ne ha _ _) hself rfl
  rw [← hbinds]
  refine h.replace hlt ⟨rfl, rfl, rfl⟩ ?_ (fun j _ a ha => putIn_heap h hp ha) hchain ?_
  · intro j hj
    exact Function.update_of_ne hj _ _
  · rw [hbinds]
    exact h.buckets.cons hkey

/-- **A new key** is bound at the front of its bucket. -/
lemma insertAs_new (h : Holds s chains bs) (hsize : s.tab.size ≠ 0) (hfuel : Enough chains fuel)
    (hp : Fresh s p) (isConst : Bool) (data : ℕ)
    (hkey : (bs (s.tab.index key)).dlookup key = none) :
    ∃ s', insertAs isConst fuel s (some p) key data = some (0, s') ∧ SameTable s s' ∧
      Holds s'
        (Function.update chains (s.tab.index key) (p :: chains (s.tab.index key)))
        (Function.update bs (s.tab.index key)
          (⟨key, data, isConst⟩ :: bs (s.tab.index key))) :=
  ⟨_, insertAs_putIn h hsize hfuel hp isConst data hkey, ⟨rfl, rfl, rfl⟩,
    putIn_holds h hsize hp isConst data hkey⟩

/-! ### Removal -/

/-- What `hfree` is called with for a binding that leaves the table. -/
def freed (s : State) (l : List (Σ _ : UInt32, Value)) : List ℕ :=
  if s.tab.hfree then l.map fun x => x.2.data else []

lemma remove_absent (h : Holds s chains bs) (hsize : s.tab.size ≠ 0) (hfuel : Enough chains fuel)
    (hkey : (bs (s.tab.index key)).dlookup key = none) :
    futilsHashRemove fuel s key = some (-ENOENT, s, []) := by
  rw [← h.binds] at hkey
  obtain ⟨prev, hfind⟩ :=
    findLoop_none 0 (h.chain _ (HashTab.index_lt hsize key)) (hfuel _) hkey
  simp [futilsHashRemove, hsize, hfind]

/-- What unlinking leaves of a chain, whether the entry was the first or came after another. -/
lemma bindings_unlink {heap heap' : Heap HashEntry} {xs ys : List ℕ} {a : ℕ} {e : HashEntry}
    (he : heap a = some e) (hb : e.binding = ⟨key, v⟩) (hxs : key ∉ (bindings heap xs).keys)
    (hsame : ∀ c ∈ xs ++ ys, (heap' c).map HashEntry.binding = (heap c).map HashEntry.binding) :
    bindings heap' (xs ++ ys) = (bindings heap (xs ++ a :: ys)).kerase key := by
  have hcongr : bindings heap' (xs ++ ys) = bindings heap (xs ++ ys) := values_congr hsame
  have hsplit : bindings heap (xs ++ a :: ys) =
      bindings heap xs ++ e.binding :: bindings heap ys := by
    rw [← bindings_cons he]
    exact values_append
  rw [hcongr, hsplit, kerase_append_right hxs, kerase_cons_eq (by rw [hb])]
  exact values_append

/-- The state once the entry `e` at `a`, which comes after `prev` in bucket `i`, is taken out. -/
def takenOut (s : State) (i prev a : ℕ) (e : HashEntry) : State :=
  let s' :=
    if prev = 0 then { s with tab := { s.tab with buckets := Function.update s.tab.buckets i e.next } }
    else { s with heap := setNext s.heap prev e.next }
  { s' with nodes := listDel s'.nodes a, heap := Function.update s'.heap a none }

lemma takenOut_sameTable {prev a : ℕ} {e : HashEntry} : SameTable s (takenOut s i prev a e) := by
  unfold takenOut
  split_ifs <;> exact ⟨rfl, rfl, rfl⟩

lemma takenOut_buckets {prev a j : ℕ} {e : HashEntry} (hj : j ≠ i) :
    (takenOut s i prev a e).tab.buckets j = s.tab.buckets j := by
  unfold takenOut
  split_ifs
  · exact Function.update_of_ne hj _ _
  · rfl

lemma takenOut_heap {prev a c : ℕ} {e : HashEntry} (ha : c ≠ a) (hprev : prev ≠ 0 → c ≠ prev) :
    (takenOut s i prev a e).heap c = s.heap c := by
  unfold takenOut
  split_ifs with h0
  · exact Function.update_of_ne ha _ _
  · exact (Function.update_of_ne ha _ _).trans (Function.update_of_ne (hprev h0) _ _)

/-- The entries that are left keep their bindings: at most the link of one of them changes. -/
lemma takenOut_binding {prev a c : ℕ} {e : HashEntry} (ha : c ≠ a) :
    ((takenOut s i prev a e).heap c).map HashEntry.binding =
      (s.heap c).map HashEntry.binding := by
  by_cases hc : c = prev
  · subst hc
    unfold takenOut
    split_ifs with h0
    · exact congrArg _ (Function.update_of_ne ha _ _)
    · have hnext : Function.update (setNext s.heap c e.next) a none c =
          (s.heap c).map fun e' => { e' with next := e.next } :=
        (Function.update_of_ne ha _ _).trans (Function.update_self ..)
      refine (congrArg _ hnext).trans ?_
      rw [Option.map_map]
      rfl
  · rw [takenOut_heap ha fun _ => hc]

/-- **The entry is unlinked**, from the bucket or from the entry before it. -/
lemma takenOut_chain {xs ys : List ℕ} {a : ℕ} {e : HashEntry}
    (h : Chain HashEntry.next s.heap (s.tab.buckets i) (xs ++ a :: ys))
    (hnodup : (xs ++ a :: ys).Nodup) (he : s.heap a = some e) :
    Chain HashEntry.next (takenOut s i (xs.getLastD 0) a e).heap
      ((takenOut s i (xs.getLastD 0) a e).tab.buckets i) (xs ++ ys) := by
  rcases xs.eq_nil_or_concat with rfl | ⟨xs, b, rfl⟩
  · obtain ⟨-, -, e', he', hrest⟩ := h
    obtain rfl := Option.some.inj (he.symm.trans he')
    have hbucket : (takenOut s i 0 a e).tab.buckets i = e.next := Function.update_self ..
    rw [getLastD_nil, hbucket]
    refine hrest.congr fun c hc => takenOut_heap ?_ (absurd rfl)
    rintro rfl
    exact (nodup_cons.mp hnodup).1 hc
  · rw [concat_eq_append] at *
    have hlast : (xs ++ [b]).getLastD 0 = b := by simp
    rw [hlast]
    obtain ⟨hb0, eb, heb⟩ := h.live (a := b) (by simp)
    rw [append_assoc, cons_append, nil_append] at h hnodup ⊢
    have hab : b ≠ a := by
      rintro rfl
      simp [nodup_append] at hnodup
    have hbucket : (takenOut s i b a e).tab.buckets i = s.tab.buckets i := by
      simp [takenOut, hb0]
    have hnext : (takenOut s i b a e).heap b = some { eb with next := e.next } := by
      simp [takenOut, hb0, hab, setNext, heb]
    rw [hbucket]
    exact h.unlink hnodup he heb hnext rfl fun c hca hcb => takenOut_heap hca fun _ => hcb

/-- The entry that is taken out, and what its chain is then. -/
lemma remove_takenOut (h : Holds s chains bs) (hsize : s.tab.size ≠ 0) (hfuel : Enough chains fuel)
    (hkey : (bs (s.tab.index key)).dlookup key = some v) :
    ∃ xs a ys e, chains (s.tab.index key) = xs ++ a :: ys ∧ s.heap a = some e ∧
      e.binding = ⟨key, v⟩ ∧
      futilsHashRemove fuel s key =
        some (0, takenOut s (s.tab.index key) (xs.getLastD 0) a e, freed s [⟨key, v⟩]) ∧
      Holds (takenOut s (s.tab.index key) (xs.getLastD 0) a e)
        (Function.update chains (s.tab.index key) (xs ++ ys))
        (Function.update bs (s.tab.index key) ((bs (s.tab.index key)).kerase key)) := by
  set i := s.tab.index key with hi
  have hlt : i < s.tab.size.toNat := HashTab.index_lt hsize key
  have hchain := h.chain i hlt
  have hbs := h.binds i
  rw [← hbs] at hkey
  obtain ⟨xs, a, ys, e, hsplit, ha, he, hb, hxs, hfind⟩ :=
    findLoop_some 0 hchain (hfuel i) hkey
  have hnodup := h.nodup i
  have hdata : e.data = v.data := congrArg (fun x => x.2.data) hb
  rw [hsplit] at hchain hnodup hbs
  have hmem : ∀ c ∈ xs ++ ys, c ≠ a := by
    rintro c hc rfl
    exact (nodup_middle.mp hnodup).notMem hc
  have hbinds : bindings (takenOut s i (xs.getLastD 0) a e).heap (xs ++ ys) =
      (bs i).kerase key := by
    rw [← hbs]
    exact bindings_unlink he hb hxs fun c hc => takenOut_binding (hmem c hc)
  refine ⟨xs, a, ys, e, hsplit, he, hb, ?_, ?_⟩
  · simp only [futilsHashRemove, if_neg hsize, ← hi, hfind, if_neg ha, he]
    unfold takenOut
    split_ifs <;> simp [freed, HashTab.frees, hdata]
  · rw [← hbinds]
    refine h.replace hlt takenOut_sameTable (fun j hj => takenOut_buckets hj) ?_
      (takenOut_chain hchain hnodup he) ?_
    · intro j hj c hc
      have hother : ∀ b ∈ chains i, c ≠ b := by
        rintro b hb rfl
        exact hj (h.disjoint hc hb)
      refine takenOut_heap (hother a (by simp [hsplit])) fun hlast => hother _ ?_
      rcases xs.eq_nil_or_concat with rfl | ⟨xs, b, rfl⟩
      · exact absurd rfl hlast
      · simp [hsplit]
    · rw [hbinds]
      exact h.buckets.kerase key

/-- **A key that is there** is unbound, and its entry given to `hfree`. -/
lemma remove_present (h : Holds s chains bs) (hsize : s.tab.size ≠ 0) (hfuel : Enough chains fuel)
    (hkey : (bs (s.tab.index key)).dlookup key = some v) :
    ∃ s' as, futilsHashRemove fuel s key = some (0, s', freed s [⟨key, v⟩]) ∧ SameTable s s' ∧
      Holds s' (Function.update chains (s.tab.index key) as)
        (Function.update bs (s.tab.index key) ((bs (s.tab.index key)).kerase key)) ∧
      as.length < (chains (s.tab.index key)).length := by
  obtain ⟨xs, a, ys, e, hsplit, -, -, hrun, hholds⟩ := remove_takenOut h hsize hfuel hkey
  exact ⟨_, xs ++ ys, hrun, takenOut_sameTable, hholds, by simp [hsplit]⟩

/-! ### Removing everything -/

/-- The state once the entries at the addresses `as` are freed. -/
def dropped (s : State) (as : List ℕ) (nodes : Nodes) : State :=
  { s with heap := fun a => if a ∈ as then none else s.heap a, nodes := nodes }

lemma removeChainLoop_eq {as : List ℕ} (h : Chain HashEntry.next s.heap p as) (hnodup : as.Nodup)
    (hfuel : as.length < fuel) :
    removeChainLoop fuel s p =
      some (dropped s as (as.foldl listDel s.nodes), freed s (bindings s.heap as)) := by
  induction as generalizing p fuel s with
  | nil =>
    obtain rfl : p = 0 := h
    cases fuel with
    | zero => cases hfuel
    | succ fuel => simp [removeChainLoop, dropped, freed, bindings]
  | cons a as ih =>
    obtain ⟨rfl, hp, e, he, hrest⟩ := h
    cases fuel with
    | zero => cases hfuel
    | succ fuel =>
      let s₁ : State :=
        { s with nodes := listDel s.nodes p, heap := Function.update s.heap p none }
      have hsame : ∀ a ∈ as, s₁.heap a = s.heap a := by
        intro a ha
        refine Function.update_of_ne ?_ _ _
        rintro rfl
        exact (nodup_cons.mp hnodup).1 ha
      have hloop :=
        ih (hrest.congr hsame) (nodup_cons.mp hnodup).2 (Nat.lt_of_succ_lt_succ hfuel)
      have hdrop : dropped s₁ as (as.foldl listDel s₁.nodes) =
          dropped s (p :: as) ((p :: as).foldl listDel s.nodes) := by
        unfold dropped
        congr 1
        funext a
        by_cases ha : a = p
        · simp [ha, s₁]
        · simp [ha, s₁]
      have hfreed : s.tab.frees e ++ freed s₁ (bindings s₁.heap as) =
          freed s (bindings s.heap (p :: as)) := by
        rw [bindings_congr hsame, bindings_cons he]
        by_cases hfree : s.tab.hfree
        · simp [HashTab.frees, freed, hfree, s₁, HashEntry.binding]
        · simp [HashTab.frees, freed, hfree, s₁]
      rw [← hdrop, ← hfreed]
      unfold removeChainLoop
      rw [if_neg hp, he]
      simp only
      rw [hloop]

/-- The state once bucket `i` is a null pointer. -/
def emptied (s : State) (i : ℕ) : State :=
  { s with tab := { s.tab with buckets := Function.update s.tab.buckets i 0 } }

/-- **One bucket is emptied.** -/
lemma removeBucket (h : Holds s chains bs) (hi : i < s.tab.size.toNat)
    (hfuel : Enough chains fuel) :
    ∃ s₁, s₁ = dropped s (chains i) ((chains i).foldl listDel s.nodes) ∧
      removeChainLoop fuel s (s.tab.buckets i) = some (s₁, freed s (bs i)) ∧
      SameTable s (emptied s₁ i) ∧
      Holds (emptied s₁ i) (Function.update chains i []) (Function.update bs i []) := by
  have hloop := removeChainLoop_eq (h.chain i hi) (h.nodup i) (hfuel i)
  rw [h.binds] at hloop
  have htab : SameTable s (emptied (dropped s (chains i) ((chains i).foldl listDel s.nodes)) i) :=
    ⟨rfl, rfl, rfl⟩
  refine ⟨_, rfl, hloop, htab, ?_⟩
  refine h.replace hi htab ?_ ?_ ?_ (h.buckets.clear i)
  · intro j hj
    exact Function.update_of_ne hj _ _
  · intro j hj a ha
    refine if_neg ?_
    intro hai
    exact hj (h.disjoint ha hai)
  · exact Function.update_self ..

lemma Enough.clear (h : Enough chains fuel) (i : ℕ) : Enough (Function.update chains i []) fuel :=
  (Function.forall_update_iff chains fun _ chain => chain.length < fuel).mpr
    ⟨Nat.zero_lt_of_lt (h i), fun j _ => h j⟩

lemma SameTable.trans {s₁ s₂ s₃ : State} (h₁ : SameTable s₁ s₂) (h₂ : SameTable s₂ s₃) :
    SameTable s₁ s₃ :=
  ⟨h₂.size.trans h₁.size, h₂.entries.trans h₁.entries, h₂.hfree.trans h₁.hfree⟩

/-- `f` without what it gives from `i` to `i + left`. -/
def cleared {α : Type*} (f : ℕ → List α) (i left : ℕ) (j : ℕ) : List α :=
  if i ≤ j ∧ j < i + left then [] else f j

lemma cleared_succ {α : Type*} (f : ℕ → List α) (i left : ℕ) :
    cleared (Function.update f i []) (i + 1) left = cleared f i (left + 1) := by
  funext j
  unfold cleared
  by_cases hj : j = i
  · subst hj
    simp
  · rw [Function.update_of_ne hj]
    refine if_congr ?_ rfl rfl
    omega

lemma SameTable.freed (h : SameTable s s') (l : List (Σ _ : UInt32, Value)) :
    freed s' l = freed s l := by
  unfold Hash.freed
  rw [h.hfree]

lemma freed_append (l₁ l₂ : List (Σ _ : UInt32, Value)) :
    freed s (l₁ ++ l₂) = freed s l₁ ++ freed s l₂ := by
  unfold freed
  split_ifs <;> simp

/-- **The buckets are emptied one after the other.** -/
lemma removeAllLoop_eq {left : ℕ} (h : Holds s chains bs) (hleft : i + left ≤ s.tab.size.toNat)
    (hfuel : Enough chains fuel) :
    ∃ s', removeAllLoop fuel left s i = some (s', freed s ((List.range' i left).flatMap bs)) ∧
      SameTable s s' ∧ Holds s' (cleared chains i left) (cleared bs i left) := by
  induction left generalizing s i chains bs with
  | zero =>
    have hsame : ∀ {α : Type} (f : ℕ → List α), cleared f i 0 = f := by
      intro α f
      funext j
      exact if_neg (by omega)
    refine ⟨s, by simp [removeAllLoop, freed], ⟨rfl, rfl, rfl⟩, ?_⟩
    rwa [hsame, hsame]
  | succ left ih =>
    have hlt : i < s.tab.size.toNat := by omega
    obtain ⟨s₁, -, hloop, htab, hholds⟩ := removeBucket h hlt hfuel
    obtain ⟨s', hrest, htab', hholds'⟩ :=
      ih (i := i + 1) hholds (by rw [htab.size]; omega) (hfuel.clear i)
    have hflat : (List.range' (i + 1) left).flatMap (Function.update bs i []) =
        (List.range' (i + 1) left).flatMap bs := by
      refine flatMap_congr fun j hj => ?_
      rw [Function.update_of_ne]
      have := (mem_range'_1.mp hj).1
      omega
    refine ⟨s', ?_, htab.trans htab', ?_⟩
    · unfold removeAllLoop
      rw [hloop]
      simp only
      rw [← emptied, hrest, hflat, htab.freed, range'_succ, flatMap_cons, freed_append]
    · rwa [cleared_succ, cleared_succ] at hholds'

end Futils.Hash
