import Futils.Hash.Defs
import Futils.Lib.Buckets

/-!
# The chains of the hash table

What the loops over a chain compute, and what inserting, unlinking and clearing do to the chains of
a table: `Holds s chains bs` says that `chains i` are the entries in bucket `i`, and `bs i` their
bindings.
-/

namespace Futils.Hash

open Futils.Lib Futils.LinkedList List

/-- What a key is bound to. -/
structure Value where
  data : ℕ
  isConst : Bool
  deriving DecidableEq

/-- The binding that an entry stands for. -/
def HashEntry.binding (e : HashEntry) : Σ _ : UInt32, Value := ⟨e.key, ⟨e.data, e.isConst⟩⟩

/-- The bindings of the entries at the addresses `as`. -/
def bindings (heap : Heap HashEntry) (as : List ℕ) : List (Σ _ : UInt32, Value) :=
  values HashEntry.binding heap as

/-- The entries of each bucket form a chain, and their bindings are those of `bs`, in which each key
is in its own bucket. -/
structure Holds (s : State) (chains : ℕ → List ℕ) (bs : ℕ → List (Σ _ : UInt32, Value)) : Prop where
  chain : ∀ i < s.tab.size.toNat, Chain HashEntry.next s.heap (s.tab.buckets i) (chains i)
  outside : ∀ i, s.tab.size.toNat ≤ i → chains i = []
  binds : ∀ i, bindings s.heap (chains i) = bs i
  buckets : Buckets s.tab.index bs

variable {s s' : State} {chains : ℕ → List ℕ} {bs : ℕ → List (Σ _ : UInt32, Value)}
  {heap heap' : Heap HashEntry} {key : UInt32} {fuel p i : ℕ} {as : List ℕ}

/-! ### The loops -/

lemma bindings_cons {e : HashEntry} {a : ℕ} (h : heap a = some e) :
    bindings heap (a :: as) = e.binding :: bindings heap as := values_cons h

lemma insertLoop_eq (h : Chain HashEntry.next heap p as) (hfuel : as.length < fuel) :
    insertLoop heap key fuel p =
      some (if (bindings heap as).dlookup key = none then 0 else -EEXIST) := by
  induction as generalizing p fuel with
  | nil =>
    obtain rfl : p = 0 := h
    cases fuel with
    | zero => cases hfuel
    | succ fuel => rfl
  | cons a as ih =>
    obtain ⟨rfl, hp, e, he, hrest⟩ := h
    cases fuel with
    | zero => cases hfuel
    | succ fuel =>
      unfold insertLoop
      rw [if_neg hp, he, bindings_cons he]
      by_cases hk : e.key = key
      · subst hk
        have hfound : (e.binding :: bindings heap as).dlookup e.key = some e.binding.2 :=
          dlookup_cons_eq _ _ _
        simp [hfound]
      · have hne : key ≠ e.binding.1 := fun hc => hk hc.symm
        rw [dlookup_cons_ne _ _ hne]
        simpa [hk] using ih hrest (Nat.lt_of_succ_lt_succ hfuel)

lemma findLoop_none (prev : ℕ) (h : Chain HashEntry.next heap p as) (hfuel : as.length < fuel)
    (hkey : (bindings heap as).dlookup key = none) :
    ∃ prev', findLoop heap key fuel prev p = some (prev', 0) := by
  induction as generalizing p fuel prev with
  | nil =>
    obtain rfl : p = 0 := h
    cases fuel with
    | zero => cases hfuel
    | succ fuel => exact ⟨prev, rfl⟩
  | cons a as ih =>
    obtain ⟨rfl, hp, e, he, hrest⟩ := h
    cases fuel with
    | zero => cases hfuel
    | succ fuel =>
      rw [bindings_cons he, dlookup_eq_none, keys_cons, mem_cons, not_or] at hkey
      have hk : e.key ≠ key := fun hc => hkey.1 hc.symm
      unfold findLoop
      simpa [hp, he, hk] using
        ih p hrest (Nat.lt_of_succ_lt_succ hfuel) (dlookup_eq_none.mpr hkey.2)

/-- The entry that is found is the first with the key, and what is kept of the others is the last
one before it. -/
lemma findLoop_some (prev : ℕ) {v : Value} (h : Chain HashEntry.next heap p as)
    (hfuel : as.length < fuel) (hkey : (bindings heap as).dlookup key = some v) :
    ∃ xs a ys e, as = xs ++ a :: ys ∧ a ≠ 0 ∧ heap a = some e ∧ e.binding = ⟨key, v⟩ ∧
      key ∉ (bindings heap xs).keys ∧
      findLoop heap key fuel prev p = some (xs.getLastD prev, a) := by
  induction as generalizing p fuel prev with
  | nil => cases hkey
  | cons a as ih =>
    obtain ⟨rfl, hp, e, he, hrest⟩ := h
    cases fuel with
    | zero => cases hfuel
    | succ fuel =>
      rw [bindings_cons he] at hkey
      unfold findLoop
      by_cases hk : e.key = key
      · refine ⟨[], p, as, e, rfl, hp, he, ?_, not_mem_nil, ?_⟩
        · subst hk
          have hfound : (e.binding :: bindings heap as).dlookup e.key = some e.binding.2 :=
            dlookup_cons_eq _ _ _
          obtain rfl := Option.some.inj (hfound.symm.trans hkey)
          rfl
        · simp [hp, he, hk]
      · have hne : key ≠ e.binding.1 := fun hc => hk hc.symm
        rw [dlookup_cons_ne _ _ hne] at hkey
        obtain ⟨xs, a, ys, e', rfl, ha, he', hb, hxs, hfind⟩ :=
          ih p hrest (Nat.lt_of_succ_lt_succ hfuel) hkey
        refine ⟨p :: xs, a, ys, e', rfl, ha, he', hb, ?_, ?_⟩
        · rw [bindings_cons he, keys_cons, mem_cons, not_or]
          exact ⟨hne, hxs⟩
        · rw [getLastD_cons]
          simpa [hp, he, hk] using hfind

/-! ### One bucket changes -/

lemma bindings_congr (h : ∀ a ∈ as, heap' a = heap a) : bindings heap' as = bindings heap as :=
  values_congr fun a ha => by rw [h a ha]

/-- The table is the same, but for what is in its buckets. -/
structure SameTable (s s' : State) : Prop where
  size : s'.tab.size = s.tab.size
  entries : s'.tab.entries = s.tab.entries
  hfree : s'.tab.hfree = s.tab.hfree

lemma SameTable.index (h : SameTable s s') : s'.tab.index = s.tab.index := by
  funext key
  unfold HashTab.index
  rw [h.size]

lemma HashTab.index_lt {tab : HashTab} (h : tab.size ≠ 0) (key : UInt32) :
    tab.index key < tab.size.toNat := by
  unfold HashTab.index
  rw [UInt32.toNat_mod]
  refine Nat.mod_lt _ (Nat.pos_of_ne_zero ?_)
  intro hz
  exact h (UInt32.toNat_inj.mp hz)

lemma Holds.lt (h : Holds s chains bs) {a : ℕ} (ha : a ∈ chains i) : i < s.tab.size.toNat := by
  by_contra hge
  rw [h.outside i (not_lt.mp hge)] at ha
  cases ha

/-- An entry is in its bucket once. -/
lemma Holds.nodup (h : Holds s chains bs) (i : ℕ) : (chains i).Nodup := by
  by_cases hi : i < s.tab.size.toNat
  · refine (h.chain i hi).nodup (f := HashEntry.binding) ?_
    change (bindings s.heap (chains i)).Nodup
    rw [h.binds]
    exact (h.buckets.nodupKeys i).nodup
  · rw [h.outside i (not_lt.mp hi)]
    exact nodup_nil

/-- An entry is in one bucket only. -/
lemma Holds.disjoint (h : Holds s chains bs) {a j : ℕ} (hi : a ∈ chains i) (hj : a ∈ chains j) :
    i = j := by
  obtain ⟨-, e, he⟩ := (h.chain i (h.lt hi)).live hi
  have hhome : ∀ k, a ∈ chains k → s.tab.index e.key = k := by
    intro k hk
    refine h.buckets.home k e.binding ?_
    rw [← h.binds k]
    exact mem_filterMap.mpr ⟨a, hk, by rw [he, Option.map_some]⟩
  exact (hhome i hi).symm.trans (hhome j hj)

/-- **One bucket gets other entries**, and the blocks of the other buckets stay as they are. -/
lemma Holds.replace (h : Holds s chains bs) (hi : i < s.tab.size.toNat) (htab : SameTable s s')
    (hother : ∀ j, j ≠ i → s'.tab.buckets j = s.tab.buckets j)
    (hheap : ∀ j, j ≠ i → ∀ a ∈ chains j, s'.heap a = s.heap a)
    (hchain : Chain HashEntry.next s'.heap (s'.tab.buckets i) as)
    (hbuckets : Buckets s.tab.index (Function.update bs i (bindings s'.heap as))) :
    Holds s' (Function.update chains i as) (Function.update bs i (bindings s'.heap as)) := by
  constructor
  · intro j hj
    rw [htab.size] at hj
    by_cases hji : j = i
    · subst hji
      rwa [Function.update_self]
    · rw [Function.update_of_ne hji, hother j hji]
      exact (h.chain j hj).congr (hheap j hji)
  · intro j hj
    rw [htab.size] at hj
    rw [Function.update_of_ne (by omega)]
    exact h.outside j hj
  · intro j
    by_cases hji : j = i
    · subst hji
      rw [Function.update_self, Function.update_self]
    · rw [Function.update_of_ne hji, Function.update_of_ne hji, bindings_congr (hheap j hji),
        h.binds j]
  · rwa [htab.index]

end Futils.Hash
