import Futils.Random.Traced

/-!
# Backtracking protection

Whoever sees the memory of a pool does not learn what it served before, and whoever saw it before a reseed does not
learn what is served after it: in either case not even from all the other bytes that were served.
-/

namespace Futils.Random

open Futils.Lib

variable {t t' : Traced} {old live keys : Set PoolKey} {cells : Set PoolByte} {used served lost : Multiset PoolByte}
  {terms : List PoolByte} {b : PoolByte} {e : Event} {era : UInt32}

/-- The keys that were fetched so far. -/
def Traced.past (t : Traced) : Set SeedName := {s | s.1 < t.seeds}

/-- The books of what was served since there were the keys `old`. -/
def Traced.Kept (old : Set PoolKey) (t : Traced) (served : Multiset PoolByte) : Prop :=
  ∃ used lost, KeyBooks old t.keys t.past (used + served + lost + t.rest) used ∧
    ∀ b ∈ t.stale, b.1 ∈ old ∨ b ∈ lost

lemma kept_new : Traced.new.Kept ∅ 0 := by
  refine ⟨0, 0, ?_, fun b hb => by cases hb⟩
  exact KeyBooks.empty _

/-- A seed comes after all keys so far. -/
lemma kept_seed (h : KeyBooks old live t.past (used + served + lost) used)
    (hmemory : ∀ b ∈ t.memory, b.1 ∈ old ∨ b ∈ lost) (era : UInt32) (key : Key) : (t.seed era key).Kept old served := by
  have hnew : (t.seeds, key) ∉ t.past := fun hlt => (lt_irrefl t.seeds) hlt
  have hpast : insert (t.seeds, key) t.past ⊆ (t.seed era key).past := by
    rintro s (rfl | hs)
    · exact Nat.lt_succ_self _
    · exact Nat.lt_succ_of_lt hs
  refine ⟨used, lost, ?_, hmemory⟩
  change KeyBooks old {.seed (t.seeds, key)} _ (used + served + lost + 0) used
  rw [add_zero]
  exact (h.seed hnew).later hpast

lemma Traced.Kept.seed (h : t.Kept old served) (era : UInt32) (key : Key) : (t.seed era key).Kept old served := by
  obtain ⟨used, lost, hbooks, hstale⟩ := h
  rw [add_assoc (used + served)] at hbooks
  refine kept_seed hbooks (fun b hb => ?_) era key
  rcases List.mem_append.mp hb with hb | hb
  · exact (hstale b hb).imp_right fun hlost => Multiset.mem_add.mpr (.inl hlost)
  · exact .inr (Multiset.mem_add.mpr (.inr (Multiset.mem_coe.mpr hb)))

lemma Traced.Kept.serve (h : t.Kept old served) (len : ℕ) :
    (t.serve len).2.Kept old (served + (t.serve len).1) := by
  obtain ⟨used, lost, hbooks, hstale⟩ := h
  rcases hfeed : t.feed with _ | ⟨era, f⟩
  · have hserve : t.serve len = ([], t) := by
      unfold Traced.serve
      rw [hfeed]
    rw [hserve]
    exact ⟨used, lost, by rwa [Multiset.coe_nil, add_zero], hstale⟩
  · have hserve : t.serve len = ((f.serve (termCipher SeedName CHACHA_KEY_NONCE_SIZE) POOL_SIZE len).1,
        { t with feed := some (era, (f.serve (termCipher SeedName CHACHA_KEY_NONCE_SIZE) POOL_SIZE len).2) }) := by
      unfold Traced.serve
      rw [hfeed]
    have hkept : f.Kept old t.past used served lost := by
      unfold Traced.keys Traced.rest at hbooks
      rw [hfeed] at hbooks
      exact hbooks
    have hpos : 0 < CHACHA_KEY_NONCE_SIZE := by decide
    have hsize : 2 * CHACHA_KEY_NONCE_SIZE ≤ POOL_SIZE := by decide
    obtain ⟨used', hkept'⟩ := hkept.serve hpos hsize len
    rw [hserve]
    exact ⟨used', lost, hkept', hstale⟩

/-- **One event** keeps the books. -/
lemma Traced.Kept.handle (h : t.Kept old served) (hrun : t.handle e = .ok (terms, t')) :
    t'.Kept old (served + terms) := by
  have hnone : ∀ t : Traced, t.Kept old served → t.Kept old (served + ([] : List PoolByte)) := by
    intro t h
    rwa [Multiset.coe_nil, add_zero]
  cases e with
  | reseed era fetch =>
    cases fetch with
    | error err =>
      cases hrun
      exact hnone t h
    | ok key =>
      cases hrun
      exact hnone _ (h.seed era key)
  | rand era fetch len =>
    unfold Traced.handle at hrun
    dsimp only at hrun
    obtain ⟨t₁, hseed, hrun⟩ := bind_eq_ok hrun
    have hserve : t₁.serve len = (terms, t') := Except.ok.inj hrun
    have hkept : t₁.Kept old served := by
      unfold Traced.seedIfNeeded at hseed
      split_ifs at hseed
      · cases hseed
        exact h
      · cases fetch with
        | error err => cases hseed
        | ok key =>
          cases hseed
          exact h.seed era key
    have hserved := hkept.serve len
    rwa [hserve] at hserved

/-- **A run** keeps them. -/
lemma Traced.Kept.run (h : t.Kept old served) {events : List Event} {outs : List (List PoolByte)}
    (hrun : t.run events = .ok (outs, t')) : t'.Kept old (served + outs.flatten) := by
  induction events generalizing t served outs with
  | nil =>
    cases hrun
    rwa [List.flatten_nil, Multiset.coe_nil, add_zero]
  | cons e events ih =>
    obtain ⟨out, t₁, outs', hhandle, hrest, rfl⟩ := Traced.run_cons hrun
    have hkept := ih (h.handle hhandle) hrest
    rwa [List.flatten_cons, ← Multiset.coe_add, ← add_assoc]

/-- What was served is not derived from the old keys, the memory, and the other bytes that were served. -/
lemma Traced.Kept.not_derives (h : t.Kept old served) (hb : b ∈ served) (hkeys : ∀ k ∈ keys, k ∈ old ∨ k ∈ t.keys)
    (hcells : ∀ c ∈ cells, c.1 ∈ old ∨ c ∈ t.memory ∨ c ∈ served ∧ c ≠ b) : ¬ Derives keys cells b := by
  obtain ⟨used, lost, hbooks, hstale⟩ := h
  have hsplit : used + served + lost + t.rest = used + (served + (lost + t.rest)) := by
    rw [add_assoc, add_assoc]
  rw [hsplit] at hbooks
  obtain ⟨-, hnodup, hused⟩ := Multiset.nodup_add.mp hbooks.nodup
  obtain ⟨-, -, hserved⟩ := Multiset.nodup_add.mp hnodup
  have hall : b ∈ used + (served + (lost + t.rest)) :=
    Multiset.mem_add.mpr (.inr (Multiset.mem_add.mpr (.inl hb)))
  have hold : ∀ c : PoolByte, c.1 ∈ old → c ∉ used ∧ c ≠ b := by
    intro c hc
    refine ⟨fun hu => (hbooks.unused c (Multiset.mem_of_le hbooks.used_le hu)).2 hc, ?_⟩
    rintro rfl
    exact (hbooks.unused c hall).2 hc
  have hleft : ∀ c ∈ lost + (t.rest : Multiset PoolByte), c ∉ used ∧ c ≠ b := by
    intro c hc
    refine ⟨fun hu => Multiset.disjoint_left.mp hused hu (Multiset.mem_add.mpr (.inr hc)), ?_⟩
    rintro rfl
    exact Multiset.disjoint_left.mp hserved hb hc
  have hfree : b ∉ used := fun hu => Multiset.disjoint_left.mp hused hu (Multiset.mem_add.mpr (.inl hb))
  refine hbooks.not_derives hall hfree hkeys fun c hc => ?_
  rcases hcells c hc with hc | hc | ⟨hc, hne⟩
  · exact hold c hc
  · rcases List.mem_append.mp hc with hc | hc
    · rcases hstale c hc with hc | hc
      · exact hold c hc
      · exact hleft c (Multiset.mem_add.mpr (.inl hc))
    · exact hleft c (Multiset.mem_add.mpr (.inr (Multiset.mem_coe.mpr hc)))
  · exact ⟨fun hu => Multiset.disjoint_left.mp hused hu (Multiset.mem_add.mpr (.inl hc)), hne⟩

lemma Traced.Kept.nodup (h : t.Kept old served) : served.Nodup := by
  obtain ⟨used, lost, hbooks, -⟩ := h
  have hle : served ≤ used + served + lost + t.rest :=
    ((Multiset.le_add_left _ _).trans (Multiset.le_add_right _ _)).trans (Multiset.le_add_right _ _)
  exact Multiset.nodup_of_le hle hbooks.nodup

/-- **Nothing of the past is in the memory** of a pool: in every run from a new one, no byte that was served is derived
from the memory of the pool and all the other bytes that were served. -/
theorem pool_hides_past (x : Words) (bytes : Mem UInt8) {events : List Event} (he : ∀ e ∈ events, e.era ≠ 0)
    {outs : List (List Cell)} {s : State} (hrun : run (newPool x bytes) events = .ok (outs, s)) :
    ∃ terms t, Traced.new.run events = .ok (terms, t) ∧ outs.map cellBytes = terms.map valuesOf ∧
      s.pool.Traces bytes t ∧ terms.flatten.Nodup ∧
        ∀ b ∈ terms.flatten, ¬ Derives t.keys {c | c ∈ t.memory ∨ c ∈ terms.flatten ∧ c ≠ b} b := by
  obtain ⟨terms, t, ht, hbytes, htraces⟩ := (traces_new x bytes).run he hrun
  have hkept := kept_new.run ht
  rw [zero_add] at hkept
  refine ⟨terms, t, ht, hbytes, htraces, Multiset.coe_nodup.mp hkept.nodup, fun b hb => ?_⟩
  refine hkept.not_derives (Multiset.mem_coe.mpr hb) (fun k hk => .inr hk) fun c hc => .inr ?_
  exact hc.imp_right fun hc => ⟨Multiset.mem_coe.mpr hc.1, hc.2⟩

def oneKey : Fetch := .ok ⟨fun i => i.toUInt8, 0⟩

/-- A request that seeds, a large one, and one that is served from what is left. -/
def servedEvents : List Event := [.rand 1 oneKey 8, .rand 1 oneKey 500, .rand 1 oneKey 3]

lemma fetches_oneKey {events : List Event} (h : ∀ e ∈ events, ∃ era len, e = .rand era oneKey len ∨ e = .reseed era oneKey)
    {s : State} {given : List ℕ} (hp : s.pool.Sound) (hbooks : s.Books given) : ∃ outs s', run s events = .ok (outs, s') := by
  rcases run_spec hp hbooks events with ⟨-, e, he, hfetch⟩ | ⟨outs, s', hrun, -⟩
  · obtain ⟨era, len, rfl | rfl⟩ := h e he
    · exact absurd ⟨_, rfl⟩ hfetch
    · exact absurd trivial hfetch
  · exact ⟨outs, s', hrun⟩

theorem pool_hides_past_served :
    ∃ outs s terms t, run (newPool (Vector.replicate 16 7) fun _ => 9) servedEvents = .ok (outs, s) ∧
      Traced.new.run servedEvents = .ok (terms, t) ∧ outs.map cellBytes = terms.map valuesOf ∧
        ∀ b ∈ terms.flatten, ¬ Derives t.keys {c | c ∈ t.memory ∨ c ∈ terms.flatten ∧ c ≠ b} b := by
  obtain ⟨outs, s, hrun⟩ : ∃ outs s, run (newPool (Vector.replicate 16 7) fun _ => 9) servedEvents = .ok (outs, s) := by
    refine fetches_oneKey ?_ (sound_newPool _ _) (books_newPool _ _)
    unfold servedEvents
    simp
  obtain ⟨terms, t, ht, hbytes, -, -, hhidden⟩ := pool_hides_past _ _ (by simp [servedEvents, Event.era]) hrun
  exact ⟨outs, s, terms, t, hrun, ht, hbytes, hhidden⟩

/-! ### After a reseed -/

/-- The event seeds a pool of the era `era`. -/
def Event.Reseeds (era : UInt32) : Event → Prop
  | .rand era' _ _ => era' ≠ era
  | .reseed _ fetch => ∃ key, fetch = .ok key

/-- All keys that there are become old. -/
lemma Traced.Kept.restart (h : t.Kept old served) :
    ∃ old', (∀ k ∈ t.keys, k ∈ old') ∧ (∀ b ∈ served, b.1 ∈ old') ∧ (∀ b ∈ t.memory, b.1 ∈ old') ∧
      KeyBooks old' ∅ t.past 0 0 := by
  obtain ⟨used, lost, hbooks, hstale⟩ := h
  refine ⟨old ∪ {k | Named t.keys (used + served + lost + (t.rest : Multiset PoolByte)) k},
    fun k hk => .inr (.inl hk), fun b hb => .inr (.inr ⟨b, ?_, rfl⟩), fun b hb => ?_, hbooks.restart⟩
  · exact Multiset.mem_add.mpr (.inl (Multiset.mem_add.mpr (.inl (Multiset.mem_add.mpr (.inr hb)))))
  · rcases List.mem_append.mp hb with hb | hb
    · rcases hstale b hb with hold | hlost
      · exact .inl hold
      · exact .inr (.inr ⟨b, Multiset.mem_add.mpr (.inl (Multiset.mem_add.mpr (.inr hlost))), rfl⟩)
    · exact .inr (.inr ⟨b, Multiset.mem_add.mpr (.inr (Multiset.mem_coe.mpr hb)), rfl⟩)

/-- **The event that seeds** begins anew. -/
lemma kept_of_reseeds {s : State} {bytes : Mem UInt8} (hbooks : KeyBooks old ∅ t.past 0 0)
    (hmemory : ∀ b ∈ t.memory, b.1 ∈ old) (htraces : s.pool.Traces bytes t) (he : e.era ≠ 0)
    (hre : e.Reseeds s.pool.era) (hrun : t.handle e = .ok (terms, t')) : t'.Kept old terms := by
  have hnone : KeyBooks old ∅ t.past (0 + 0 + 0) 0 := hbooks
  have hseed : ∀ era key, (t.seed era key).Kept old 0 := kept_seed hnone fun b hb => .inl (hmemory b hb)
  cases e with
  | reseed era fetch =>
    obtain ⟨key, rfl⟩ := hre
    cases hrun
    exact hseed era key
  | rand era fetch len =>
    have hera : era ≠ 0 := he
    have hne : era ≠ s.pool.era := hre
    unfold Traced.handle Traced.seedIfNeeded at hrun
    dsimp only at hrun
    rw [if_neg fun hfeed => hne ((htraces.era_eq_iff hera).mp hfeed).symm] at hrun
    cases fetch with
    | error err => cases hrun
    | ok key =>
      have hserve : (t.seed era key).serve len = (terms, t') := Except.ok.inj hrun
      have hserved := (hseed era key).serve len
      rwa [hserve, zero_add] at hserved

/-- **A reseed is a new start**: no byte that is served after it is derived from the memory that the pool had before it
and the one that it has in the end, with all the other bytes that were ever served. -/
theorem pool_recovers (x : Words) (bytes : Mem UInt8) {before after : List Event} {e : Event}
    (he : ∀ e' ∈ before ++ e :: after, e'.era ≠ 0) {outs₁ outs₂ : List (List Cell)} {s₁ s₂ : State}
    (hrun₁ : run (newPool x bytes) before = .ok (outs₁, s₁)) (hre : e.Reseeds s₁.pool.era)
    (hrun₂ : run s₁ (e :: after) = .ok (outs₂, s₂)) :
    ∃ terms₁ t₁ terms₂ t₂, Traced.new.run before = .ok (terms₁, t₁) ∧ t₁.run (e :: after) = .ok (terms₂, t₂) ∧
      outs₁.map cellBytes = terms₁.map valuesOf ∧ outs₂.map cellBytes = terms₂.map valuesOf ∧
      s₁.pool.Traces bytes t₁ ∧ s₂.pool.Traces bytes t₂ ∧
        ∀ b ∈ terms₂.flatten, ¬ Derives (t₁.keys ∪ t₂.keys)
          {c | c ∈ t₁.memory ∨ c ∈ t₂.memory ∨ c ∈ terms₁.flatten ∨ c ∈ terms₂.flatten ∧ c ≠ b} b := by
  have hbefore : ∀ e' ∈ before, e'.era ≠ 0 := fun e' he' => he e' (List.mem_append_left _ he')
  have hafter : ∀ e' ∈ e :: after, e'.era ≠ 0 := fun e' he' => he e' (List.mem_append_right _ he')
  obtain ⟨terms₁, t₁, ht₁, hbytes₁, htraces₁⟩ := (traces_new x bytes).run hbefore hrun₁
  obtain ⟨terms₂, t₂, ht₂, hbytes₂, htraces₂⟩ := htraces₁.run hafter hrun₂
  refine ⟨terms₁, t₁, terms₂, t₂, ht₁, ht₂, hbytes₁, hbytes₂, htraces₁, htraces₂, ?_⟩
  have hkept₁ := kept_new.run ht₁
  rw [zero_add] at hkept₁
  obtain ⟨old, hkeys, hserved, hmemory, hbooks⟩ := hkept₁.restart
  have hkept₂ : t₂.Kept old terms₂.flatten := by
    obtain ⟨out, t, outs, hhandle, hrest, rfl⟩ := Traced.run_cons ht₂
    have hkept := kept_of_reseeds hbooks hmemory htraces₁ (hafter e List.mem_cons_self) hre hhandle
    rw [List.flatten_cons, ← Multiset.coe_add]
    exact hkept.run hrest
  intro b hb
  refine hkept₂.not_derives (Multiset.mem_coe.mpr hb) (fun k hk => hk.imp_left (hkeys k)) fun c hc => ?_
  rcases hc with hc | hc | hc | hc
  · exact .inl (hmemory c hc)
  · exact .inr (.inl hc)
  · exact .inl (hserved c (Multiset.mem_coe.mpr hc))
  · exact .inr (.inr ⟨Multiset.mem_coe.mpr hc.1, hc.2⟩)

/-- A byte is served, the pool is reseeded, and more bytes are served. -/
theorem pool_recovers_oneByte :
    ∃ outs₁ s₁ outs₂ s₂ terms₁ t₁ terms₂ t₂,
      run (newPool (Vector.replicate 16 7) fun _ => 9) [.rand 1 oneKey 1] = .ok (outs₁, s₁) ∧
        run s₁ [.reseed 3 oneKey, .rand 3 oneKey 100] = .ok (outs₂, s₂) ∧
        Traced.new.run [.rand 1 oneKey 1] = .ok (terms₁, t₁) ∧
        t₁.run [.reseed 3 oneKey, .rand 3 oneKey 100] = .ok (terms₂, t₂) ∧
        ∀ b ∈ terms₂.flatten, ¬ Derives (t₁.keys ∪ t₂.keys)
          {c | c ∈ t₁.memory ∨ c ∈ t₂.memory ∨ c ∈ terms₁.flatten ∨ c ∈ terms₂.flatten ∧ c ≠ b} b := by
  have hnew := sound_newPool (Vector.replicate 16 7) fun _ => 9
  rcases handle_spec hnew (.rand 1 oneKey 1) with ⟨-, hfetch⟩ | ⟨out, s₁, hhandle, hsound, -, -, hbooks⟩
  · exact absurd ⟨_, rfl⟩ hfetch
  have hrun₁ : run (newPool (Vector.replicate 16 7) fun _ => 9) [.rand 1 oneKey 1] = .ok ([out], s₁) := by
    unfold run run
    rw [hhandle]
    rfl
  obtain ⟨outs₂, s₂, hrun₂⟩ : ∃ outs₂ s₂, run s₁ [.reseed 3 oneKey, .rand 3 oneKey 100] = .ok (outs₂, s₂) :=
    fetches_oneKey (by simp) hsound (hbooks [] (books_newPool _ _))
  have hre : Event.Reseeds s₁.pool.era (.reseed 3 oneKey) := ⟨_, rfl⟩
  obtain ⟨terms₁, t₁, terms₂, t₂, ht₁, ht₂, -, -, -, -, hhidden⟩ :=
    pool_recovers _ _ (by simp [Event.era]) hrun₁ hre hrun₂
  exact ⟨[out], s₁, outs₂, s₂, terms₁, t₁, terms₂, t₂, hrun₁, hrun₂, ht₁, ht₂, hhidden⟩

end Futils.Random
