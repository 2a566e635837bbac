import Mathlib.Data.Finmap
import Mathlib.Data.Multiset.Bind

/-!
# Maps in buckets

A finite map whose bindings are spread over association lists, one for each bucket: a key is in the
bucket `home k` only, and there at most once.  An operation on a key touches the list of one bucket,
and `Buckets.Of` says which map the lists make up.
-/

namespace Futils.Lib

open List

variable {K : Type*} {V : K → Type*} {home : K → ℕ} {bs : ℕ → List (Sigma V)} {m : Finmap V}
  {k : K} {v : V k} {i : ℕ}

/-- Each key is in its own bucket, at most once. -/
structure Buckets (home : K → ℕ) (bs : ℕ → List (Sigma V)) : Prop where
  home : ∀ i, ∀ x ∈ bs i, home x.1 = i
  nodupKeys : ∀ i, (bs i).NodupKeys

/-- The buckets make up the map `m`. -/
def Buckets.Of [DecidableEq K] (home : K → ℕ) (bs : ℕ → List (Sigma V)) (m : Finmap V) : Prop :=
  ∀ k, m.lookup k = (bs (home k)).dlookup k

/-! ### Keeping the keys in their buckets -/

lemma Buckets.update (h : Buckets home bs) {l : List (Sigma V)} (hhome : ∀ x ∈ l, home x.1 = i)
    (hnodup : l.NodupKeys) : Buckets home (Function.update bs i l) := by
  constructor
  · intro j x hx
    by_cases hj : j = i
    · subst hj
      rw [Function.update_self] at hx
      exact hhome x hx
    · rw [Function.update_of_ne hj] at hx
      exact h.home j x hx
  · intro j
    by_cases hj : j = i
    · subst hj
      rwa [Function.update_self]
    · rw [Function.update_of_ne hj]
      exact h.nodupKeys j

lemma Buckets.nil : Buckets home fun _ => ([] : List (Sigma V)) := by
  refine ⟨?_, fun _ => nodupKeys_nil⟩
  intro i x hx
  cases hx

lemma Buckets.clear (h : Buckets home bs) (i : ℕ) : Buckets home (Function.update bs i []) := by
  refine h.update ?_ nodupKeys_nil
  intro x hx
  cases hx

variable [DecidableEq K]

/-- A new key is put at the front of its bucket. -/
lemma Buckets.cons (h : Buckets home bs) (hk : (bs (home k)).dlookup k = none) :
    Buckets home (Function.update bs (home k) (⟨k, v⟩ :: bs (home k))) := by
  apply h.update
  · intro x hx
    rcases mem_cons.mp hx with rfl | hx
    · rfl
    · exact h.home _ x hx
  · exact nodupKeys_cons.mpr ⟨dlookup_eq_none.mp hk, h.nodupKeys _⟩

lemma Buckets.kerase (h : Buckets home bs) (k : K) :
    Buckets home (Function.update bs (home k) ((bs (home k)).kerase k)) := by
  apply h.update
  · intro x hx
    exact h.home _ x ((kerase_sublist k _).subset hx)
  · exact (h.nodupKeys _).kerase k

/-! ### The map of the buckets -/

lemma Buckets.Of.empty : Buckets.Of home (fun _ => []) (∅ : Finmap V) := by
  intro k
  rw [Finmap.lookup_empty, dlookup_nil]

/-- What a bucket operation does to its own key is all it does. -/
lemma Buckets.Of.update {m' : Finmap V} {l : List (Sigma V)} (h : Buckets.Of home bs m)
    (hself : m'.lookup k = l.dlookup k)
    (hne : ∀ k', k' ≠ k →
      m'.lookup k' = m.lookup k' ∧ l.dlookup k' = (bs (home k)).dlookup k') :
    Buckets.Of home (Function.update bs (home k) l) m' := by
  intro k'
  by_cases hk : k' = k
  · subst hk
    rw [Function.update_self, hself]
  · obtain ⟨hm, hl⟩ := hne k' hk
    by_cases hi : home k' = home k
    · rw [hi, Function.update_self, hm, hl, h k', hi]
    · rw [Function.update_of_ne hi, hm, h k']

theorem Buckets.Of.insert (h : Buckets.Of home bs m) (k : K) (v : V k) :
    Buckets.Of home (Function.update bs (home k) (⟨k, v⟩ :: bs (home k))) (m.insert k v) := by
  apply h.update
  · rw [Finmap.lookup_insert, dlookup_cons_eq]
  · intro k' hk
    exact ⟨Finmap.lookup_insert_of_ne m hk, dlookup_cons_ne _ _ hk⟩

theorem Buckets.Of.erase (h : Buckets.Of home bs m) (hbs : Buckets home bs) (k : K) :
    Buckets.Of home (Function.update bs (home k) ((bs (home k)).kerase k)) (m.erase k) := by
  apply h.update
  · rw [Finmap.lookup_erase, dlookup_kerase k (hbs.nodupKeys _)]
  · intro k' hk
    exact ⟨Finmap.lookup_erase_ne hk, dlookup_kerase_ne hk⟩

/-! ### The bindings of the buckets -/

/-- **The buckets hold the bindings of the map**, each once. -/
theorem Buckets.Of.entries_eq (h : Buckets.Of home bs m) (hbs : Buckets home bs) {n : ℕ}
    (hn : ∀ i, n ≤ i → bs i = []) :
    m.entries = ↑((List.range n).flatMap bs) := by
  have hnodup : ((List.range n).flatMap bs).Nodup := by
    refine nodup_flatMap.mpr ⟨fun i _ => (hbs.nodupKeys i).nodup, ?_⟩
    refine nodup_range.imp ?_
    intro i j hij x hi hj
    exact hij ((hbs.home i x hi).symm.trans (hbs.home j x hj))
  refine (Multiset.Nodup.ext m.nodup_entries (Multiset.coe_nodup.mpr hnodup)).mpr ?_
  rintro ⟨k, v⟩
  rw [← Finmap.lookup_eq_some_iff, h k, ← Option.mem_def, mem_dlookup_iff (hbs.nodupKeys _)]
  constructor
  · intro hmem
    have hlt : home k < n := by
      by_contra hge
      rw [hn _ (not_lt.mp hge)] at hmem
      cases hmem
    exact mem_flatMap.mpr ⟨home k, mem_range.mpr hlt, hmem⟩
  · intro hmem
    obtain ⟨i, -, hi⟩ := mem_flatMap.mp hmem
    rwa [← hbs.home i _ hi] at hi

end Futils.Lib
