import Futils.Lib.Secrecy
import Futils.Random.Rekey

/-!
# What a pool remembers

The memory of a pool in terms of the keys that were fetched: its key, the bytes that it can still give out, and those
that a reseed left in the buffer.  They are followed through a run beside the pool, of which they are the values.
-/

namespace Futils.Random

open Futils.Lib

/-- A fetched key, with its number. -/
abbrev SeedName := ℕ × Key

abbrev PoolKey := KeyTerm SeedName

abbrev PoolByte := CellTerm SeedName

/-- What the terms stand for. -/
def poolHom : (termCipher SeedName CHACHA_KEY_NONCE_SIZE).Hom chacha20 :=
  termHom chacha20 fun s => chachaWords s.2.bytes

/-- The era and the feed of a pool, once it is seeded, the bytes that its reseeds left, and how many keys it was
seeded with. -/
structure Traced where
  feed : Option (UInt32 × Feed PoolKey PoolByte)
  stale : List PoolByte
  seeds : ℕ

namespace Traced

def new : Traced := ⟨none, [], 0⟩

/-- The bytes that it can give out. -/
def rest (t : Traced) : List PoolByte :=
  match t.feed with
  | none => []
  | some (_, f) => f.rest

/-- The key that it has. -/
def keys (t : Traced) : Set PoolKey :=
  match t.feed with
  | none => ∅
  | some (_, f) => {f.key}

/-- The bytes that it has. -/
def memory (t : Traced) : List PoolByte := t.stale ++ t.rest

def seed (t : Traced) (era : UInt32) (key : Key) : Traced :=
  ⟨some (era, .seeded (.seed (t.seeds, key))), t.memory, t.seeds + 1⟩

def seedIfNeeded (t : Traced) (era : UInt32) (fetch : Fetch) : Except Stop Traced :=
  if t.feed.map Prod.fst = some era then .ok t
  else
    match fetch with
    | .ok key => .ok (t.seed era key)
    | .error _ => .error .abort

/-- A request, once there is a feed. -/
def serve (t : Traced) (len : ℕ) : List PoolByte × Traced :=
  match t.feed with
  | none => ([], t)
  | some (era, f) =>
    let served := f.serve (termCipher SeedName CHACHA_KEY_NONCE_SIZE) POOL_SIZE len
    (served.1, { t with feed := some (era, served.2) })

def handle (t : Traced) : Event → Except Stop (List PoolByte × Traced)
  | .rand era fetch len => do
    let t ← t.seedIfNeeded era fetch
    return t.serve len
  | .reseed era (.ok key) => .ok ([], t.seed era key)
  | .reseed _ (.error _) => .ok ([], t)

def run (t : Traced) : List Event → Except Stop (List (List PoolByte) × Traced)
  | [] => .ok ([], t)
  | e :: events => do
    let (out, t) ← t.handle e
    let (outs, t) ← t.run events
    return (out :: outs, t)

/-- The era and the feed that it stands for. -/
def value (t : Traced) : Seeded := t.feed.map fun f => (f.1, f.2.map poolHom)

end Traced

/-- The bytes that terms stand for. -/
def valuesOf (l : List PoolByte) : List UInt8 := l.map poolHom.cell

variable {t t' : Traced} {s s' : State} {p : Pool} {x : Words} {bytes : Mem UInt8} {len : ℕ} {e : Event}

lemma bind_eq_ok {α β : Type} {x : Except Stop α} {f : α → Except Stop β} {b : β} (h : x >>= f = .ok b) :
    ∃ a, x = .ok a ∧ f a = .ok b := by
  cases x with
  | error stop => cases h
  | ok a => exact ⟨a, rfl, h⟩

/-! ### The terms stand for the bytes -/

lemma value_seed (t : Traced) (era : UInt32) (key : Key) :
    (t.seed era key).value = some (era, .seeded (chachaWords key.bytes)) := by
  unfold Traced.value Traced.seed
  rw [Option.map_some, Feed.map_seeded]
  unfold poolHom termHom
  dsimp only
  rw [KeyTerm.value]

lemma seedIfNeeded_value (t : Traced) (era : UInt32) (fetch : Fetch) :
    (∃ t' f, t.seedIfNeeded era fetch = .ok t' ∧ feedFor t.value era fetch = .ok f ∧ t'.value = some (era, f)) ∨
      t.seedIfNeeded era fetch = .error .abort ∧ feedFor t.value era fetch = .error .abort := by
  have hfetch : t.feed.map Prod.fst ≠ some era → feedFor t.value era fetch = fetchFeed fetch →
      (∃ t' f, t.seedIfNeeded era fetch = .ok t' ∧ feedFor t.value era fetch = .ok f ∧ t'.value = some (era, f)) ∨
        t.seedIfNeeded era fetch = .error .abort ∧ feedFor t.value era fetch = .error .abort := by
    intro hne hfeed
    unfold Traced.seedIfNeeded
    rw [if_neg hne, hfeed]
    cases fetch with
    | error err => exact .inr ⟨rfl, rfl⟩
    | ok key => exact .inl ⟨_, _, rfl, rfl, value_seed t era key⟩
  rcases hfeed : t.feed with _ | ⟨era', f⟩
  · refine hfetch (by simp [hfeed]) ?_
    unfold Traced.value
    rw [hfeed]
    rfl
  · have hvalue : t.value = some (era', f.map poolHom) := by
      unfold Traced.value
      rw [hfeed]
      rfl
    by_cases hera : era' = era
    · refine .inl ⟨t, f.map poolHom, if_pos ?_, ?_, hera ▸ hvalue⟩
      · rw [hfeed, ← hera]
        rfl
      · rw [hvalue]
        exact if_pos hera
    · refine hfetch (by simpa [hfeed] using hera) ?_
      rw [hvalue]
      exact if_neg hera

lemma serve_value {era : UInt32} {g : Feed Words UInt8} (h : t.value = some (era, g)) (len : ℕ) :
    (valuesOf (t.serve len).1, (t.serve len).2.value) =
      ((g.serve chacha20 POOL_SIZE len).1, some (era, (g.serve chacha20 POOL_SIZE len).2)) := by
  obtain ⟨⟨era', f⟩, hfeed, hg⟩ := Option.map_eq_some_iff.mp h
  obtain ⟨rfl, rfl⟩ := Prod.mk.inj hg
  have hserve : _ = (f.map poolHom).serve chacha20 POOL_SIZE len := Feed.map_serve poolHom f
  unfold Traced.serve Traced.value valuesOf
  rw [hfeed, ← hserve]
  rfl

/-! ### The buffer -/

/-- The keystream bytes of a block of memory. -/
def streamOf (l : List Cell) : List UInt8 := (l.filter fun c => c.token.isSome).map Cell.val

/-- The part of the buffer that is before the available bytes. -/
def Pool.dead (p : Pool) : List Cell := p.buffer.load 0 (POOL_SIZE - p.available)

/-- The dead part of a buffer holds keystream bytes that reseeds left, and everything else in the buffer is zero or was
in the memory of the new pool. -/
structure Pool.Leaves (p : Pool) (bytes : Mem UInt8) (stale : List PoolByte) : Prop where
  dead : ∃ kept, kept.Sublist stale ∧ streamOf p.dead = valuesOf kept
  others : ∀ i < POOL_SIZE, (p.buffer i).token = none → p.buffer i = .zero ∨ p.buffer i = ⟨bytes i, none, ∅⟩

variable {stale terms : List PoolByte} {out : List Cell} {n : ℕ}

lemma streamOf_append (l l' : List Cell) : streamOf (l ++ l') = streamOf l ++ streamOf l' := by
  unfold streamOf
  rw [List.filter_append, List.map_append]

lemma streamOf_zeros (n : ℕ) : streamOf (List.replicate n .zero) = [] := by
  unfold streamOf
  rw [List.filter_eq_nil_iff.mpr, List.map_nil]
  intro c hc
  rw [List.eq_of_mem_replicate hc]
  exact Bool.false_ne_true

lemma streamOf_live (hp : p.Sound) : streamOf p.live = p.live.map Cell.val := by
  unfold streamOf
  rw [List.filter_eq_self.mpr fun c hc => (hp.live c hc).1]

/-- The buffer is its dead part and the available bytes. -/
lemma load_buffer (hle : p.available ≤ POOL_SIZE) : p.buffer.load 0 POOL_SIZE = p.dead ++ p.live := by
  have hsplit := Mem.load_add p.buffer 0 (POOL_SIZE - p.available) p.available
  rwa [Nat.zero_add, Nat.sub_add_cancel hle] at hsplit

lemma dead_consumed (hlen : len ≤ p.available) (hle : p.available ≤ POOL_SIZE) :
    (p.consumed len).dead = p.dead ++ List.replicate len .zero := by
  obtain ⟨off, hoff⟩ : ∃ off, off = POOL_SIZE - p.available := ⟨_, rfl⟩
  have hsize : POOL_SIZE - (p.available - len) = off + len := by omega
  have hload := Mem.load_store p.buffer off (List.replicate len Cell.zero)
  rw [List.length_replicate] at hload
  have hfront : (p.consumed len).buffer.load 0 off = p.buffer.load 0 off := by
    refine Mem.load_congr fun i _ hi => Mem.store_of_lt _ _ ?_
    omega
  change (p.consumed len).buffer.load 0 (POOL_SIZE - (p.available - len)) = p.buffer.load 0 (POOL_SIZE - p.available) ++ _
  rw [hsize, Mem.load_add, hfront, ← hoff, Nat.zero_add]
  congr 1
  change (p.buffer.store (POOL_SIZE - p.available) (List.replicate len .zero)).load off len = _
  rw [← hoff, hload]

lemma Pool.Leaves.consumed (h : p.Leaves bytes stale) (hlen : len ≤ p.available) (hle : p.available ≤ POOL_SIZE) :
    (p.consumed len).Leaves bytes stale := by
  obtain ⟨kept, hkept, hdead⟩ := h.dead
  refine ⟨⟨kept, hkept, ?_⟩, ?_⟩
  · rw [dead_consumed hlen hle, streamOf_append, streamOf_zeros, List.append_nil, hdead]
  · intro i hi htoken
    change p.buffer.store _ _ i = _ ∨ p.buffer.store _ _ i = _
    change (p.buffer.store _ _ i).token = none at htoken
    rcases Nat.lt_or_ge i (POOL_SIZE - p.available) with hlow | hlow
    · rw [Mem.store_of_lt _ _ hlow] at htoken ⊢
      exact h.others i hi htoken
    · rcases Nat.lt_or_ge (i - (POOL_SIZE - p.available)) len with hin | hout
      · rw [Mem.store_apply _ _ hlow (by rwa [List.length_replicate]), List.getElem_replicate]
        exact .inl rfl
      · rw [Mem.store_of_ge _ _ (by rw [List.length_replicate]; omega)] at htoken ⊢
        exact h.others i hi htoken

/-- Once it is filled up, there is nothing else in the buffer. -/
lemma leaves_refilled (hp : p.Sound) (next : ℕ) : (p.refilled next).Leaves bytes stale := by
  refine ⟨⟨[], List.nil_sublist _, rfl⟩, fun i hi htoken => ?_⟩
  have hmem : (p.refilled next).buffer i ∈ (p.refilled next).buffer.load 0 POOL_SIZE :=
    Mem.mem_load.mpr ⟨i, hi, by rw [Nat.zero_add]⟩
  rw [load_refilled hp.available_le] at hmem
  have hsome : ((p.refilled next).buffer i).token.isSome := by
    rcases List.mem_append.mp hmem with hmem | hmem
    · exact (hp.live _ hmem).1
    · exact (isFrom_chachaKeystream hmem).1
  rw [htoken] at hsome
  exact absurd hsome Bool.false_ne_true

lemma poolReloadIfNeeded_leaves (hp : s.pool.Sound) (h : s.pool.Leaves bytes stale)
    (hrun : poolReloadIfNeeded s n = .ok s') : s'.pool.Leaves bytes stale := by
  have hkey : CHACHA_KEY_NONCE_SIZE ≤ POOL_SIZE := by decide
  have hfull : (s.pool.refilled s.next).Leaves bytes stale := leaves_refilled hp s.next
  have hrefilled : s.refilled.rekeyed.pool.Leaves bytes stale := ⟨hfull.dead, hfull.others⟩
  unfold poolReloadIfNeeded at hrun
  split_ifs at hrun
  · cases hrun
    exact h
  · rw [poolReload_eq, ok_bind] at hrun
    split_ifs at hrun
    cases hrun
    exact hrefilled.consumed hkey le_rfl

/-- **A request** leaves nothing in the buffer that is not to be given out. -/
lemma poolServe_leaves (hp : s.pool.Sound) (h : s.pool.Leaves bytes stale) (hrun : poolServe s len = .ok (out, s')) :
    s'.pool.Leaves bytes stale := by
  have hle : CHACHA_KEY_NONCE_SIZE ≤ POOL_SIZE - CHACHA_KEY_NONCE_SIZE := by decide
  unfold poolServe poolStir at hrun
  split_ifs at hrun with hlarge
  · obtain ⟨s₁, hreload, hserves, henough⟩ := poolReloadIfNeeded_serves hp hle
    simp only [hreload, ok_bind, poolBufferGet_eq henough, poolBufferConsume_eq henough] at hrun
    cases hrun
    exact (poolReloadIfNeeded_leaves hp h hreload).consumed henough hserves.sound.available_le
  · obtain ⟨s₁, hreload, hserves, henough⟩ := poolReloadIfNeeded_serves hp (not_le.mp hlarge).le
    simp only [hreload, ok_bind, poolBufferGet_eq henough, poolBufferConsume_eq henough] at hrun
    cases hrun
    exact (poolReloadIfNeeded_leaves hp h hreload).consumed henough hserves.sound.available_le

/-! ### The pool beside its terms -/

/-- A pool has in memory what the terms stand for. -/
structure Pool.Traces (p : Pool) (bytes : Mem UInt8) (t : Traced) : Prop where
  sound : p.Sound
  shows : p.ShowsSeeded t.value
  live : p.live.map Cell.val = valuesOf t.rest
  leaves : p.Leaves bytes t.stale

lemma traces_new (x : Words) (bytes : Mem UInt8) : (newPool x bytes).pool.Traces bytes .new where
  sound := sound_newPool x bytes
  shows := rfl
  live := rfl
  leaves := by
    refine ⟨⟨[], .refl _, ?_⟩, fun i _ _ => .inr rfl⟩
    have hnone : ∀ c ∈ (newPool x bytes).pool.dead, ¬ c.token.isSome := by
      intro c hc
      obtain ⟨i, -, rfl⟩ := Mem.mem_load.mp hc
      exact Bool.false_ne_true
    unfold streamOf
    rw [List.filter_eq_nil_iff.mpr hnone]
    rfl

/-- The bytes that terms stand for, of a feed. -/
lemma valuesOf_rest {era : UInt32} {g : Feed Words UInt8} (h : t.value = some (era, g)) : valuesOf t.rest = g.rest := by
  obtain ⟨⟨era', f⟩, hfeed, hg⟩ := Option.map_eq_some_iff.mp h
  obtain ⟨rfl, rfl⟩ := Prod.mk.inj hg
  unfold Traced.rest
  rw [hfeed]
  rfl

/-- **A seed**: what was available stays in the buffer. -/
lemma Pool.Traces.seed (h : p.Traces bytes t) (era : UInt32) (key : Key) :
    (poolSeed p era (.ok key)).2.Traces bytes (t.seed era key) where
  sound := ⟨Nat.zero_le _, fun c hc => by cases hc⟩
  shows := by
    rw [value_seed]
    exact shows_seeded p era key
  live := rfl
  leaves := by
    obtain ⟨kept, hkept, hdead⟩ := h.leaves.dead
    refine ⟨⟨kept ++ t.rest, hkept.append (.refl _), ?_⟩, h.leaves.others⟩
    change streamOf (p.buffer.load 0 POOL_SIZE) = _
    rw [load_buffer h.sound.available_le, streamOf_append, hdead, streamOf_live h.sound, h.live]
    exact List.map_append.symm

/-- The terms have a feed of the era of the pool. -/
lemma Pool.Traces.era_eq_iff (h : p.Traces bytes t) {era : UInt32} (hera : era ≠ 0) :
    t.feed.map Prod.fst = some era ↔ p.era = era := by
  have hshows := h.shows
  unfold Traced.value at hshows
  rcases hfeed : t.feed with _ | ⟨era', f⟩
  · rw [hfeed] at hshows
    rw [show p.era = 0 from hshows]
    exact ⟨fun hnone => (by cases hnone), fun hzero => absurd hzero.symm hera⟩
  · rw [hfeed] at hshows
    rw [show p.era = era' from hshows.1]
    exact Option.some_inj

lemma Pool.Traces.seedIfNeeded (h : p.Traces bytes t) {era : UInt32} (hera : era ≠ 0) {fetch : Fetch} {p' : Pool}
    (hrun : poolSeedIfNeeded p era fetch = .ok p') :
    ∃ t' f, t.seedIfNeeded era fetch = .ok t' ∧ t'.value = some (era, f) ∧ p'.Traces bytes t' := by
  rcases seedIfNeeded_value t era fetch with ⟨t', f, ht, -, hvalue⟩ | ⟨ht, habort⟩
  · refine ⟨t', f, ht, hvalue, ?_⟩
    have hsame := h.era_eq_iff hera
    by_cases hpool : p.era = era
    · rw [poolSeedIfNeeded_same hpool] at hrun
      unfold Traced.seedIfNeeded at ht
      rw [if_pos (hsame.mpr hpool)] at ht
      cases hrun
      cases ht
      exact h
    · cases fetch with
      | error err =>
        rw [poolSeedIfNeeded_error hpool] at hrun
        cases hrun
      | ok key =>
        rw [poolSeedIfNeeded_ok hpool] at hrun
        unfold Traced.seedIfNeeded at ht
        rw [if_neg fun hfeed => hpool (hsame.mp hfeed)] at ht
        cases hrun
        cases ht
        exact h.seed era key
  · rcases poolSeedIfNeeded_shows h.shows hera fetch with ⟨_, f, -, hfeed, -⟩ | ⟨hpool, -⟩
    · rw [habort] at hfeed
      cases hfeed
    · rw [hpool] at hrun
      cases hrun

lemma stale_serve (t : Traced) (len : ℕ) : (t.serve len).2.stale = t.stale := by
  unfold Traced.serve
  split <;> rfl

lemma Pool.Traces.serve (h : s.pool.Traces bytes t) {era : UInt32} {g : Feed Words UInt8}
    (hvalue : t.value = some (era, g)) (hrun : poolServe s len = .ok (out, s')) :
    cellBytes out = valuesOf (t.serve len).1 ∧ s'.pool.Traces bytes (t.serve len).2 := by
  have hshows := h.shows
  rw [hvalue] at hshows
  obtain ⟨hera, hshows⟩ := hshows
  obtain ⟨out', s₁, hrun', hera', hout, hshows'⟩ := poolServe_shows hshows len
  obtain ⟨out₂, s₂, hrun₂, hserves, -⟩ := poolServe_serves h.sound len
  rw [hrun] at hrun' hrun₂
  cases hrun'
  cases hrun₂
  have hterms := serve_value hvalue len
  obtain ⟨hbytes, hvalue'⟩ := Prod.mk.inj hterms
  refine ⟨hout.trans hbytes.symm, hserves.sound, ?_, ?_, ?_⟩
  · rw [hvalue']
    exact ⟨hera'.trans hera, hshows'⟩
  · rw [valuesOf_rest hvalue', hshows'.rest]
  · rw [stale_serve]
    exact poolServe_leaves h.sound h.leaves hrun

/-- **One event**, for the pool and its terms. -/
lemma Pool.Traces.handle (h : s.pool.Traces bytes t) (he : e.era ≠ 0) (hrun : handle s e = .ok (out, s')) :
    ∃ terms t', t.handle e = .ok (terms, t') ∧ cellBytes out = valuesOf terms ∧ s'.pool.Traces bytes t' := by
  cases e with
  | reseed era fetch =>
    cases fetch with
    | error err =>
      cases hrun
      exact ⟨[], t, rfl, rfl, h⟩
    | ok key =>
      cases hrun
      exact ⟨[], t.seed era key, rfl, rfl, h.seed era key⟩
  | rand era fetch len =>
    change poolRand s era fetch len = _ at hrun
    unfold poolRand at hrun
    obtain ⟨p', hpool, hserve⟩ := bind_eq_ok hrun
    have hera : era ≠ 0 := he
    obtain ⟨t', f, ht, hvalue, htraces⟩ := h.seedIfNeeded hera hpool
    have hserved := Pool.Traces.serve (s := { s with pool := p' }) htraces hvalue hserve
    refine ⟨(t'.serve len).1, (t'.serve len).2, ?_, hserved⟩
    unfold Traced.handle
    dsimp only
    rw [ht]
    rfl

/-- A run that goes on after its first event. -/
lemma Traced.run_cons {events : List Event} {outs : List (List PoolByte)} (h : t.run (e :: events) = .ok (outs, t')) :
    ∃ out t₁ rest, t.handle e = .ok (out, t₁) ∧ t₁.run events = .ok (rest, t') ∧ outs = out :: rest := by
  unfold Traced.run at h
  obtain ⟨⟨out, t₁⟩, hhandle, h⟩ := bind_eq_ok h
  obtain ⟨⟨rest, t₂⟩, hrest, h⟩ := bind_eq_ok h
  cases h
  exact ⟨out, t₁, rest, hhandle, hrest, rfl⟩

/-- **A run** serves what its terms stand for, and its pool has nothing else in memory. -/
lemma Pool.Traces.run (h : s.pool.Traces bytes t) {events : List Event} (he : ∀ e ∈ events, e.era ≠ 0)
    {outs : List (List Cell)} (hrun : run s events = .ok (outs, s')) :
    ∃ terms t', t.run events = .ok (terms, t') ∧ outs.map cellBytes = terms.map valuesOf ∧ s'.pool.Traces bytes t' := by
  induction events generalizing s t outs with
  | nil =>
    cases hrun
    exact ⟨[], t, rfl, rfl, h⟩
  | cons e events ih =>
    unfold Futils.Random.run at hrun
    obtain ⟨⟨out, s₁⟩, hhandle, hrun⟩ := bind_eq_ok hrun
    obtain ⟨⟨outs', s₂⟩, hrest, hrun⟩ := bind_eq_ok hrun
    cases hrun
    obtain ⟨terms, t₁, ht, hbytes, htraces⟩ := h.handle (he e List.mem_cons_self) hhandle
    obtain ⟨rest, t₂, hts, hbytes', htraces'⟩ := ih htraces (fun e' he' => he e' (List.mem_cons_of_mem _ he')) hrest
    refine ⟨terms :: rest, t₂, ?_, ?_, htraces'⟩
    · unfold Traced.run
      rw [ht, ok_bind]
      dsimp only
      rw [hts]
      rfl
    · rw [List.map_cons, List.map_cons, hbytes, hbytes']

end Futils.Random
