import Futils.Hash.Refine

/-!
# What the free callback is called with

The callback of a table owns the values of `futils_hash_insert` only: those of
`futils_hash_insert_const` are never handed out but as constants.  The functions that take entries
out of the table do not look at `is_const`.
-/

namespace Futils.Hash

open Futils.Lib List

/-- The values that the callback is to be called with when the call takes bindings out of the map. -/
def Map.owned (m : Map) (c : Call) : Multiset ℕ :=
  ((m.leaving c).filter fun x => x.2.isConst = false).map fun x => x.2.data

/-- The table and the map side by side. -/
def both (fuel : ℕ) (x : State × Map) (c : Call) : State × Map := (next fuel x.1 c, (x.2.step c).2)

/-- The callback is called once with each value that it owns and that leaves, and with no other. -/
def FreesRight (fuel : ℕ) (x : State × Map) (c : Call) : Prop :=
  ∃ ans s' fr, step fuel x.1 c = some (ans, s', fr) ∧ (fr : Multiset ℕ) = x.2.owned c

/-- No constant leaves the table. -/
def KeepsConst (x : State × Map) (c : Call) : Prop := ∀ y ∈ x.2.leaving c, y.2.isConst = false

variable {s s' : State} {m : Map} {n fuel : ℕ} {c : Call} {cs : List Call}

/-- The callback is there as long as the table is. -/
def HasCallback (s : State) : Prop := s.tab.hfree = true ∨ s.tab.size = 0

/-- A table without buckets is empty. -/
lemma Represents.eq_empty (h : Represents s m n) (hsize : s.tab.size = 0) : m = ∅ := by
  obtain ⟨chains, bs, hholds, hof, -⟩ := h
  apply Finmap.ext_lookup
  intro k
  rw [hof k, ← hholds.binds, hholds.outside, Finmap.lookup_empty]
  · rfl
  · rw [hsize]
    exact Nat.zero_le _

lemma Simulates.hasCallback {fr : List ℕ} (h : Simulates s s' m n c fr) (hs : HasCallback s) :
    HasCallback s' := by
  by_cases hc : c = .destroy
  · exact Or.inr (h.destroyed hc)
  · have htab := h.table hc
    unfold HasCallback
    rw [htab.hfree, htab.size]
    exact hs

/-- All that leaves goes to the callback. -/
lemma Simulates.freed_eq {fr : List ℕ} (h : Simulates s s' m n c fr) (hrep : Represents s m n)
    (hlegal : c.Legal s) (hs : HasCallback s) :
    (fr : Multiset ℕ) = (m.leaving c).map fun x => x.2.data := by
  rw [h.freed]
  rcases hs with hfree | hsize
  · rw [if_pos hfree]
  · obtain rfl := hrep.eq_empty hsize
    have hnone : Map.leaving ∅ c = 0 := by
      rcases hlegal.2 hsize with rfl | rfl <;> rfl
    rw [hnone]
    split_ifs <;> rfl

/-- **One call** is right about ownership exactly when no constant leaves. -/
lemma freesRight_iff (hrep : Represents s m n) (hfuel : n < fuel) (hlegal : c.Legal s)
    (hs : HasCallback s) : FreesRight fuel (s, m) c ↔ KeepsConst (s, m) c := by
  obtain ⟨s', fr, hstep, hsim⟩ := step_simulates hrep hfuel hlegal
  have hfr := hsim.freed_eq hrep hlegal hs
  constructor
  · rintro ⟨ans, s₁, fr₁, hstep₁, hfr₁⟩
    obtain ⟨-, -, rfl⟩ : _ ∧ _ ∧ fr = fr₁ := by simpa using hstep.symm.trans hstep₁
    have hcard := congrArg Multiset.card (hfr.symm.trans hfr₁)
    rw [Map.owned, Multiset.card_map, Multiset.card_map] at hcard
    refine Multiset.filter_eq_self.mp (Multiset.eq_of_le_of_card_le (Multiset.filter_le _ _) ?_)
    exact hcard.le
  · intro hkeep
    refine ⟨_, s', fr, hstep, ?_⟩
    rw [hfr, Map.owned, Multiset.filter_eq_self.mpr hkeep]

/-- **A run** is right about ownership exactly when no constant leaves in it. -/
lemma freesRight_along (hrep : Represents s m n) (hs : HasCallback s)
    (hlegal : Along (both fuel) (fun x c => c.Legal x.1) (s, m) cs) (hfuel : n + cs.length ≤ fuel) :
    Along (both fuel) (FreesRight fuel) (s, m) cs ↔ Along (both fuel) KeepsConst (s, m) cs := by
  induction cs generalizing s m n with
  | nil => exact Iff.rfl
  | cons c cs ih =>
    rw [length_cons] at hfuel
    have hlt : n < fuel := by omega
    obtain ⟨s₁, fr, hstep, hsim⟩ := step_simulates hrep hlt hlegal.1
    have hboth : both fuel (s, m) c = (s₁, (m.step c).2) := by
      unfold both
      rw [next_eq hstep]
    have hrest := hlegal.2
    rw [hboth] at hrest
    unfold Along
    rw [hboth]
    exact and_congr (freesRight_iff hrep hlt hlegal.1 hs)
      (ih hsim.represents (hsim.hasCallback hs) hrest (by omega))

/-- **The callback gets what it owns, and nothing else, in every run in which no constant leaves the
table**, and only in those. -/
theorem frees_owned_iff {heap : Heap HashEntry} {nodes : LinkedList.Nodes} {hash size : ℕ}
    {calloc : Bool} {s : State} {calls : List Call} {fuel : ℕ}
    (hinit : futilsHashInit heap nodes hash size true calloc = (0, s))
    (hlegal : Along (both fuel) (fun x c => c.Legal x.1) (s, ∅) calls)
    (hfuel : calls.length ≤ fuel) :
    Along (both fuel) (FreesRight fuel) (s, ∅) calls ↔ Along (both fuel) KeepsConst (s, ∅) calls := by
  obtain ⟨hrep, -, hfree⟩ := represents_init hinit
  exact freesRight_along hrep (Or.inl hfree) hlegal (by omega)

/-- A new table with a callback. -/
def newTable : State := (futilsHashInit (fun _ => none) (fun _ => ⟨0, 0⟩) 40 0 true true).2

lemma newTable_init :
    futilsHashInit (fun _ => none) (fun _ => ⟨0, 0⟩) 40 0 true true = (0, newTable) := rfl

/-- A value and a constant are inserted, and the value is removed. -/
def ownedCalls : List Call := [.insert (some 8) 7 100, .insertConst (some 16) 9 200, .remove 7]

lemma ownedCalls_legal :
    Along (both 3) (fun x c => c.Legal x.1) (newTable, ∅) ownedCalls := by
  refine ⟨⟨?_, fun hz => absurd hz (by decide +kernel)⟩,
    ⟨?_, fun hz => absurd hz (by decide +kernel)⟩,
    ⟨trivial, fun hz => absurd hz (by decide +kernel)⟩, trivial⟩
  · rintro p ⟨⟩
    exact ⟨by decide, by decide +kernel⟩
  · rintro p ⟨⟩
    exact ⟨by decide, by decide +kernel⟩

theorem frees_owned_iff_removed :
    Along (both 3) (FreesRight 3) (newTable, ∅) ownedCalls ↔
      Along (both 3) KeepsConst (newTable, ∅) ownedCalls :=
  frees_owned_iff newTable_init ownedCalls_legal (by decide)

/-- **A constant is freed** by a removal. -/
theorem const_freed :
    ¬ ∀ (heap : Heap HashEntry) (nodes : LinkedList.Nodes) (hash size : ℕ) (calloc : Bool) (s : State)
        (calls : List Call) (fuel : ℕ),
      futilsHashInit heap nodes hash size true calloc = (0, s) →
      Along (both fuel) (fun x c => c.Legal x.1) (s, ∅) calls → calls.length ≤ fuel →
      Along (both fuel) (FreesRight fuel) (s, ∅) calls := by
  intro h
  have hlegal : Along (both 2) (fun x c => c.Legal x.1) (newTable, ∅)
      [.insertConst (some 8) 7 100, .remove 7] := by
    refine ⟨⟨?_, fun hz => absurd hz (by decide +kernel)⟩,
      ⟨trivial, fun hz => absurd hz (by decide +kernel)⟩, trivial⟩
    rintro p ⟨⟩
    exact ⟨by decide, by decide +kernel⟩
  obtain ⟨ans, s', fr, hstep, hfr⟩ := (h _ _ _ _ _ _ _ _ newTable_init hlegal le_rfl).2.1
  have hfreed : (step 2 (both 2 (newTable, ∅) (.insertConst (some 8) 7 100)).1 (.remove 7)).map
      (fun r => r.2.2) = some [100] := by decide +kernel
  have howned : (both 2 (newTable, ∅) (.insertConst (some 8) 7 100)).2.owned (.remove 7) = 0 := by
    decide +kernel
  rw [hstep, Option.map_some] at hfreed
  obtain rfl : fr = [100] := Option.some.inj hfreed
  rw [howned] at hfr
  exact absurd hfr (by decide)

end Futils.Hash
