import Futils.Lib.Terms
import Mathlib.Algebra.Order.Group.Multiset

/-!
# What cannot be derived

The books of the keys account for the cells that were made: those that became a key are used, each for one key, and
no key makes its stream twice.  A cell is then derived from other cells by way of the key that made it, and that key by
way of the cells that it is made of: so that who holds neither these nor the key that made them does not derive it.
What a key is made of is known to its holder: the cells of a live key are used, but for no other key.
-/

namespace Futils.Lib

variable {σ : Type*} {keys old live live' : Set (KeyTerm σ)} {cells : Set (CellTerm σ)} {past : Set σ} {b : CellTerm σ}
  {all used served lost : Multiset (CellTerm σ)} {k : KeyTerm σ} {keySize size n : ℕ} {f : Feed (KeyTerm σ) (CellTerm σ)}

/-- The cells that some keys and some cells are enough for.  A key that was made of cells is these cells, so that its
holder has them as well. -/
inductive Derives (keys : Set (KeyTerm σ)) (cells : Set (CellTerm σ)) : CellTerm σ → Prop
  | held {b : CellTerm σ} (h : b ∈ cells) : Derives keys cells b
  | stream {k : KeyTerm σ} (h : k ∈ keys) (i : ℕ) : Derives keys cells (k, i)
  | part {l : List (CellTerm σ)} (h : .made l ∈ keys) {b : CellTerm σ} (hb : b ∈ l) : Derives keys cells b
  | made {l : List (CellTerm σ)} (h : ∀ b ∈ l, Derives keys cells b) (i : ℕ) : Derives keys cells (.made l, i)

/-- **Secrets stay secret** when each is of a key that takes another secret to make. -/
lemma Derives.notMem (secret : Set (CellTerm σ)) (hcells : ∀ b ∈ cells, b ∉ secret)
    (hkeys : ∀ k ∈ keys, ∀ i, (k, i) ∉ secret) (hparts : ∀ l, .made l ∈ keys → ∀ b ∈ l, b ∉ secret)
    (hmade : ∀ l i, (.made l, i) ∈ secret → ∃ b ∈ l, b ∈ secret) (h : Derives keys cells b) : b ∉ secret := by
  induction h with
  | held h => exact hcells _ h
  | stream h i => exact hkeys _ h i
  | part h hb => exact hparts _ h _ hb
  | made _ i ih =>
    intro hsecret
    obtain ⟨b, hb, hsecret⟩ := hmade _ i hsecret
    exact ih b hb hsecret

/-- A key that has made nothing so far, or the key of a cell. -/
def Named (live : Set (KeyTerm σ)) (all : Multiset (CellTerm σ)) (k : KeyTerm σ) : Prop :=
  k ∈ live ∨ ∃ b ∈ all, b.1 = k

/-- The books: the cells that were made since the keys `old`, those that became keys, and the keys that have made
nothing so far. -/
structure KeyBooks (old live : Set (KeyTerm σ)) (past : Set σ) (all used : Multiset (CellTerm σ)) : Prop where
  nodup : all.Nodup
  used_le : used ≤ all
  unused : ∀ b ∈ all, b.1 ∉ live ∧ b.1 ∉ old
  new : ∀ k ∈ live, k ∉ old
  grounded : ∀ l, Named live all (.made l) → l ≠ [] ∧ ∀ b ∈ l, b ∈ used
  apart : ∀ l l', Named live all (.made l) → Named live all (.made l') → ∀ b ∈ l, b ∈ l' → l = l'
  closed : ∀ l, .made l ∈ old → l ≠ [] ∧ ∀ b ∈ l, b.1 ∈ old
  seeds : ∀ s, (.seed s ∈ old ∨ Named live all (.seed s)) → s ∈ past

namespace KeyBooks

/-- Nothing was made. -/
lemma empty (past : Set σ) : KeyBooks ∅ ∅ past 0 0 := by
  constructor <;> simp [Named]

/-- More seeds are past. -/
lemma later (h : KeyBooks old live past all used) {past' : Set σ} (hsub : past ⊆ past') :
    KeyBooks old live past' all used where
  __ := h
  seeds s hs := hsub (h.seeds s hs)

/-- Keys that are not needed any more. -/
lemma forget (h : KeyBooks old live past all used) (hsub : live' ⊆ live) : KeyBooks old live' past all used := by
  have hnamed : ∀ k, Named live' all k → Named live all k := fun k hk => hk.imp_left fun hlive => hsub hlive
  exact {
    nodup := h.nodup
    used_le := h.used_le
    unused := fun b hb => ⟨fun hk => (h.unused b hb).1 (hsub hk), (h.unused b hb).2⟩
    new := fun k hk => h.new k (hsub hk)
    grounded := fun l hl => h.grounded l (hnamed _ hl)
    apart := fun l l' hl hl' => h.apart l l' (hnamed _ hl) (hnamed _ hl')
    closed := h.closed
    seeds := fun s hs => h.seeds s (hs.imp_right (hnamed _)) }

/-- **A seed** that there was not before. -/
lemma seed (h : KeyBooks old live past all used) {s : σ} (hs : s ∉ past) :
    KeyBooks old {.seed s} (insert s past) all used := by
  have hmade : ∀ l, Named {.seed s} all (.made l) → Named live all (.made l) := by
    rintro l (hk | hcell)
    · cases hk
    · exact .inr hcell
  refine ⟨h.nodup, h.used_le, ?_, ?_, fun l hl => h.grounded l (hmade l hl),
    fun l l' hl hl' => h.apart l l' (hmade l hl) (hmade l' hl'), h.closed, ?_⟩
  · intro b hb
    refine ⟨?_, (h.unused b hb).2⟩
    intro hk
    exact hs (h.seeds s (.inr (.inr ⟨b, hb, hk⟩)))
  · intro k hk
    rw [Set.mem_singleton_iff.mp hk]
    exact fun hold => hs (h.seeds s (.inl hold))
  · rintro s' (hold | hk | hcell)
    · exact .inr (h.seeds s' (.inl hold))
    · exact .inl (KeyTerm.seed.inj hk)
    · exact .inr (h.seeds s' (.inr (.inr hcell)))

/-- **A stream** is made, once. -/
lemma stream (h : KeyBooks old live past all used) (hk : k ∈ live) (keySize n : ℕ) :
    KeyBooks old (live \ {k}) past (all + ((termCipher σ keySize).stream k n : Multiset (CellTerm σ))) used := by
  have hmem : ∀ b, b ∈ (termCipher σ keySize).stream k n → b.1 = k := by
    intro b hb
    obtain ⟨i, -, rfl⟩ := List.mem_map.mp hb
    rfl
  have hnamed : ∀ k', Named (live \ {k}) (all + ((termCipher σ keySize).stream k n : Multiset (CellTerm σ))) k' →
      Named live all k' := by
    rintro k' (hlive | ⟨b, hb, rfl⟩)
    · exact .inl hlive.1
    · rcases Multiset.mem_add.mp hb with hb | hb
      · exact .inr ⟨b, hb, rfl⟩
      · exact .inl (hmem b (Multiset.mem_coe.mp hb) ▸ hk)
  refine ⟨?_, h.used_le.trans (Multiset.le_add_right _ _), ?_, fun k' hk' => h.new k' hk'.1,
    fun l hl => h.grounded l (hnamed _ hl), fun l l' hl hl' => h.apart l l' (hnamed _ hl) (hnamed _ hl'), h.closed,
    fun s hs => h.seeds s (hs.imp_right (hnamed _))⟩
  · refine Multiset.nodup_add.mpr ⟨h.nodup, ?_, ?_⟩
    · exact Multiset.coe_nodup.mpr (List.nodup_range.map (Prod.mk_right_injective k))
    · refine Multiset.disjoint_left.mpr fun {b} hb hb' => ?_
      exact (h.unused b hb).1 (hmem b (Multiset.mem_coe.mp hb') ▸ hk)
  · intro b hb
    rcases Multiset.mem_add.mp hb with hb | hb
    · exact ⟨fun hlive => (h.unused b hb).1 hlive.1, (h.unused b hb).2⟩
    · rw [hmem b (Multiset.mem_coe.mp hb)]
      exact ⟨fun hlive => hlive.2 rfl, h.new k hk⟩

/-- A cell that becomes part of a key was not used. -/
lemma notMem_used (h : KeyBooks old live past all used) {l : List (CellTerm σ)} (hle : used + l ≤ all) (hb : b ∈ l) :
    b ∉ used := by
  have hnodup := Multiset.nodup_add.mp (Multiset.nodup_of_le hle h.nodup)
  exact fun hused => Multiset.disjoint_left.mp hnodup.2.2 hused (Multiset.mem_coe.mpr hb)

/-- The key of cells that are not used is a new one. -/
lemma made_new (h : KeyBooks old live past all used) {l : List (CellTerm σ)} (hle : used + l ≤ all) :
    ¬ Named live all (.made l) := by
  intro hl
  obtain ⟨hne, hused⟩ := h.grounded l hl
  obtain ⟨b, hb⟩ := List.exists_mem_of_ne_nil l hne
  exact h.notMem_used hle hb (hused b hb)

/-- **A key** is made of cells that were not used. -/
lemma take (h : KeyBooks old live past all used) {l : List (CellTerm σ)} (hne : l ≠ []) (hle : used + l ≤ all) :
    KeyBooks old (insert (.made l) live) past all (used + l) := by
  have hmem : ∀ b ∈ l, b ∈ all := fun b hb =>
    Multiset.mem_of_le hle (Multiset.mem_add.mpr (.inr (Multiset.mem_coe.mpr hb)))
  have hnamed : ∀ l', Named (insert (.made l) live) all (.made l') → l' = l ∨ Named live all (.made l') := by
    rintro l' ((hk | hlive) | hcell)
    · exact .inl (KeyTerm.made.inj hk)
    · exact .inr (.inl hlive)
    · exact .inr (.inr hcell)
  -- the cells of the other keys are used
  have hother : ∀ l', Named live all (.made l') → ∀ b ∈ l, b ∉ l' :=
    fun l' hl' b hb hb' => h.notMem_used hle hb ((h.grounded l' hl').2 b hb')
  refine ⟨h.nodup, hle, ?_, ?_, ?_, ?_, h.closed, ?_⟩
  · intro b hb
    refine ⟨?_, (h.unused b hb).2⟩
    rintro (hk | hk)
    · exact h.made_new hle (.inr ⟨b, hb, hk⟩)
    · exact (h.unused b hb).1 hk
  · rintro k (rfl | hk)
    · intro hold
      obtain ⟨-, hparts⟩ := h.closed l hold
      obtain ⟨b, hb⟩ := List.exists_mem_of_ne_nil l hne
      exact (h.unused b (hmem b hb)).2 (hparts b hb)
    · exact h.new k hk
  · intro l' hl'
    rcases hnamed l' hl' with rfl | hl'
    · exact ⟨hne, fun b hb => Multiset.mem_add.mpr (.inr (Multiset.mem_coe.mpr hb))⟩
    · obtain ⟨hne', hused⟩ := h.grounded l' hl'
      exact ⟨hne', fun b hb => Multiset.mem_add.mpr (.inl (hused b hb))⟩
  · intro l₁ l₂ hl₁ hl₂ b hb₁ hb₂
    rcases hnamed l₁ hl₁ with rfl | hl₁' <;> rcases hnamed l₂ hl₂ with rfl | hl₂'
    · rfl
    · exact absurd hb₂ (hother l₂ hl₂' b hb₁)
    · exact absurd hb₁ (hother l₁ hl₁' b hb₂)
    · exact h.apart l₁ l₂ hl₁' hl₂' b hb₁ hb₂
  · rintro s (hold | (hk | hlive) | hcell)
    · exact h.seeds s (.inl hold)
    · cases hk
    · exact h.seeds s (.inr (.inl hlive))
    · exact h.seeds s (.inr (.inr hcell))

/-- All keys that there are become old. -/
lemma restart (h : KeyBooks old live past all used) :
    KeyBooks (old ∪ {k | Named live all k}) ∅ past 0 0 where
  nodup := Multiset.nodup_zero
  used_le := le_rfl
  unused b hb := absurd hb (Multiset.notMem_zero b)
  new k hk := hk.elim
  grounded l hl := by simp [Named] at hl
  apart l l' hl := by simp [Named] at hl
  closed l hl := by
    rcases hl with hold | hl
    · obtain ⟨hne, hparts⟩ := h.closed l hold
      exact ⟨hne, fun b hb => .inl (hparts b hb)⟩
    · obtain ⟨hne, hused⟩ := h.grounded l hl
      exact ⟨hne, fun b hb => .inr (.inr ⟨b, Multiset.mem_of_le h.used_le (hused b hb), rfl⟩)⟩
  seeds s hs := by
    rcases hs with (hold | hnamed) | hs
    · exact h.seeds s (.inl hold)
    · exact h.seeds s (.inr hnamed)
    · simp [Named] at hs

/-- **A cell is not derived** from the old keys, the keys that have made nothing, and other cells that are not used. -/
theorem not_derives (h : KeyBooks old live past all used) (hb : b ∈ all) (hfree : b ∉ used)
    (hkeys : ∀ k ∈ keys, k ∈ old ∨ k ∈ live) (hcells : ∀ c ∈ cells, c ∉ used ∧ c ≠ b) : ¬ Derives keys cells b := by
  -- beside the cell, what was used for a key that is not live
  obtain ⟨secret, hsecret⟩ : ∃ secret : Set (CellTerm σ),
      ∀ c, c ∈ secret ↔ c = b ∨ c ∈ used ∧ ∀ l, .made l ∈ live → c ∉ l := ⟨{c | _}, fun c => Iff.rfl⟩
  have hall : ∀ c ∈ secret, c ∈ all := by
    intro c hc
    rcases (hsecret c).mp hc with rfl | ⟨hused, -⟩
    · exact hb
    · exact Multiset.mem_of_le h.used_le hused
  intro hderives
  refine hderives.notMem secret ?_ ?_ ?_ ?_ ((hsecret b).mpr (.inl rfl))
  · intro c hc hcs
    rcases (hsecret c).mp hcs with rfl | ⟨hused, -⟩
    · exact (hcells c hc).2 rfl
    · exact (hcells c hc).1 hused
  · intro k hk i hi
    have hunused := h.unused _ (hall _ hi)
    rcases hkeys k hk with hk | hk
    · exact hunused.2 hk
    · exact hunused.1 hk
  · intro l hl c hc hcs
    rcases hkeys _ hl with hold | hlive
    · exact (h.unused c (hall c hcs)).2 ((h.closed l hold).2 c hc)
    · rcases (hsecret c).mp hcs with rfl | ⟨-, hnot⟩
      · exact hfree ((h.grounded l (.inl hlive)).2 c hc)
      · exact hnot l hlive hc
  · intro l i hi
    have hnamed : Named live all (.made l) := .inr ⟨_, hall _ hi, rfl⟩
    obtain ⟨hne, hused⟩ := h.grounded l hnamed
    obtain ⟨c, hc⟩ := List.exists_mem_of_ne_nil l hne
    refine ⟨c, hc, (hsecret c).mpr (.inr ⟨hused c hc, fun l' hlive hc' => ?_⟩)⟩
    -- a cell is used for one key, and the live ones have made nothing
    obtain rfl := h.apart l l' hnamed (.inl hlive) c hc hc'
    exact (h.unused _ (hall _ hi)).1 hlive

end KeyBooks

/-! ### The books of a feed -/

namespace Feed

/-- The books of a feed that served some cells and lost others. -/
def Kept (old : Set (KeyTerm σ)) (past : Set σ) (f : Feed (KeyTerm σ) (CellTerm σ))
    (used served lost : Multiset (CellTerm σ)) : Prop :=
  KeyBooks old {f.key} past (used + served + lost + f.rest) used

lemma coe_take_add_drop (l : List (CellTerm σ)) (n : ℕ) :
    (l : Multiset (CellTerm σ)) = (l.take n : Multiset (CellTerm σ)) + (l.drop n : Multiset (CellTerm σ)) := by
  rw [Multiset.coe_add, List.take_append_drop]

lemma take_ne_nil {l : List (CellTerm σ)} (hpos : 0 < n) (hlen : n ≤ l.length) : l.take n ≠ [] := by
  intro hnil
  have hzero := congrArg List.length hnil
  rw [List.length_take, Nat.min_eq_left hlen] at hzero
  exact hpos.ne' hzero

lemma Kept.refill (h : f.Kept old past used served lost) (hpos : 0 < keySize) (hsize : 2 * keySize ≤ size) :
    ∃ used', (f.refill (termCipher σ keySize) size).Kept old past used' served lost := by
  obtain ⟨made, hmade⟩ :
      ∃ made, made = f.rest ++ (termCipher σ keySize).stream f.key (size - f.rest.length) := ⟨_, rfl⟩
  have hrefill : f.refill (termCipher σ keySize) size = ⟨.made (made.take keySize), made.drop keySize⟩ := by
    rw [hmade]
    rfl
  have hlen : keySize ≤ made.length := by
    rw [hmade, List.length_append, (termCipher σ keySize).length_stream]
    omega
  have hstream := h.stream (Set.mem_singleton f.key) keySize (size - f.rest.length)
  have hall : used + served + lost + f.rest +
      ((termCipher σ keySize).stream f.key (size - f.rest.length) : Multiset (CellTerm σ)) =
        used + made.take keySize + served + lost + made.drop keySize := by
    rw [add_assoc _ (f.rest : Multiset (CellTerm σ)), Multiset.coe_add, ← hmade, coe_take_add_drop made keySize]
    abel
  rw [hall] at hstream
  have hle : used + made.take keySize ≤ used + made.take keySize + served + lost + made.drop keySize :=
    ((Multiset.le_add_right _ _).trans (Multiset.le_add_right _ _)).trans (Multiset.le_add_right _ _)
  rw [hrefill]
  exact ⟨_, (hstream.take (take_ne_nil hpos hlen) hle).forget (Set.singleton_subset_iff.mpr (Set.mem_insert _ _))⟩

lemma Kept.ensure (h : f.Kept old past used served lost) (hpos : 0 < keySize) (hsize : 2 * keySize ≤ size) (n : ℕ) :
    ∃ used', (f.ensure (termCipher σ keySize) size n).Kept old past used' served lost := by
  unfold Feed.ensure
  split_ifs
  · exact ⟨used, h⟩
  · exact h.refill hpos hsize

/-- There are enough for a key. -/
lemma length_ensure (f : Feed (KeyTerm σ) (CellTerm σ)) (hsize : 2 * keySize ≤ size) :
    keySize ≤ (f.ensure (termCipher σ keySize) size keySize).rest.length := by
  unfold Feed.ensure
  split_ifs with henough
  · exact henough
  · unfold Feed.refill
    rw [List.length_drop, List.length_append, (termCipher σ keySize).length_stream]
    change keySize ≤ _ - keySize
    omega

/-- A key of its own is made, for the stream of a request. -/
lemma Kept.keyed (h : f.Kept old past used served lost) (hpos : 0 < keySize) (hlen : keySize ≤ f.rest.length) (n : ℕ) :
    ∃ used', Feed.Kept old past ⟨f.key, f.rest.drop keySize⟩ used'
      (served + (termCipher σ keySize).stream (.made (f.rest.take keySize)) n) lost := by
  obtain ⟨l, hl⟩ : ∃ l, l = f.rest.take keySize := ⟨_, rfl⟩
  have hall : used + served + lost + f.rest = used + l + (served + lost + f.rest.drop keySize) := by
    rw [coe_take_add_drop f.rest keySize, ← hl]
    abel
  have hle : used + l ≤ used + served + lost + f.rest := by
    rw [hall]
    exact Multiset.le_add_right _ _
  have hne : f.key ≠ .made l := fun hk => h.made_new hle (.inl hk.symm)
  have hstream := (h.take (hl ▸ take_ne_nil hpos hlen) hle).stream (Set.mem_insert _ _) keySize n
  refine ⟨used + l, ?_⟩
  rw [← hl]
  unfold Kept
  convert hstream.forget ?_ using 1
  · rw [hall]
    abel
  · exact Set.singleton_subset_iff.mpr ⟨Set.mem_insert_of_mem _ rfl, hne⟩

/-- **A request** keeps the books. -/
lemma Kept.serve (h : f.Kept old past used served lost) (hpos : 0 < keySize) (hsize : 2 * keySize ≤ size) (n : ℕ) :
    ∃ used', (f.serve (termCipher σ keySize) size n).2.Kept old past used'
      (served + (f.serve (termCipher σ keySize) size n).1) lost := by
  rcases Nat.lt_or_ge n (size - keySize) with hsmall | hlarge
  · obtain ⟨used', hkept⟩ := h.ensure hpos hsize n
    rw [serve_of_lt (c := termCipher σ keySize) hsmall]
    refine ⟨used', ?_⟩
    unfold Kept at hkept ⊢
    rw [coe_take_add_drop _ n] at hkept
    convert hkept using 1
    abel
  · obtain ⟨used', hkept⟩ := h.ensure hpos hsize keySize
    rw [serve_of_le (c := termCipher σ keySize) hlarge]
    exact hkept.keyed hpos (length_ensure f hsize) n

end Feed

end Futils.Lib
