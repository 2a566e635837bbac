import Futils.Lib.Feed
import Futils.Random.Keystream
import Futils.Random.SingleUse

/-!
# The pool without its buffer

The bytes that a pool serves are those of a feed over ChaCha20, which has a key and a list of bytes instead of the
buffer.  Nothing of the memory of a new pool is in them: the era of a new pool is `0`, which `seed_era` never is, so
that the pool is seeded before its memory is read.
-/

namespace Futils.Random

open Futils.Lib

/-- The key at the front of a list of bytes. -/
def keyOf (l : List UInt8) : Words := chachaWords (Mem.store (fun _ => 0) 0 l)

/-- ChaCha20 -/
def chacha20 : Cipher Words UInt8 where
  stream x len := (chachaBytes x len).1
  length_stream := length_chachaBytes
  take_stream h := take_chachaBytes _ h
  keySize := CHACHA_KEY_NONCE_SIZE
  keyOf := keyOf

/-- The era and the feed of a pool, once it is seeded. -/
abbrev Seeded := Option (UInt32 × Feed Words UInt8)

def fetchFeed : Fetch → Except Stop (Feed Words UInt8)
  | .ok key => .ok (.seeded (chachaWords key.bytes))
  | .error _ => .error .abort

/-- The feed of a request: a new one, unless there is one of the same era. -/
def feedFor (f : Seeded) (era : UInt32) (fetch : Fetch) : Except Stop (Feed Words UInt8) :=
  match f with
  | none => fetchFeed fetch
  | some (era', feed) => if era' = era then .ok feed else fetchFeed fetch

def feedHandle (f : Seeded) : Event → Except Stop (List UInt8 × Seeded)
  | .rand era fetch len => do
    let feed ← feedFor f era fetch
    let served := feed.serve chacha20 POOL_SIZE len
    return (served.1, some (era, served.2))
  | .reseed era (.ok key) => .ok ([], some (era, .seeded (chachaWords key.bytes)))
  | .reseed _ (.error _) => .ok ([], f)

/-- The bytes of each request. -/
def feedRun (f : Seeded) : List Event → Except Stop (List (List UInt8))
  | [] => .ok []
  | e :: events => do
    let (out, f) ← feedHandle f e
    let outs ← feedRun f events
    return out :: outs

/-- The era that an event reads or starts. -/
def Event.era : Event → UInt32
  | .rand era _ _ | .reseed era _ => era

/-! ### What a pool shows -/

/-- The key and the available bytes of a pool are those of a feed. -/
structure Pool.Shows (p : Pool) (f : Feed Words UInt8) : Prop where
  available_le : p.available ≤ POOL_SIZE
  key : p.chacha.x = f.key
  rest : p.live.map Cell.val = f.rest

/-- A pool is not seeded, or it shows a feed. -/
def Pool.ShowsSeeded (p : Pool) : Seeded → Prop
  | none => p.era = 0
  | some (era, f) => p.era = era ∧ p.Shows f

variable {p : Pool} {s s' : State} {f : Feed Words UInt8} {len n : ℕ}

lemma Pool.Shows.length_rest (h : p.Shows f) : f.rest.length = p.available := by
  rw [← h.rest, List.length_map, length_live]

/-- **The next key** of the pool is that of the feed. -/
lemma Pool.Shows.nextKey (h : p.Shows f) (henough : CHACHA_KEY_NONCE_SIZE ≤ p.available) :
    p.nextKey.x = chacha20.keyOf (f.rest.take chacha20.keySize) := by
  refine chachaWords_congr fun i hi => ?_
  have hlen : (f.rest.take CHACHA_KEY_NONCE_SIZE).length = CHACHA_KEY_NONCE_SIZE := by
    rw [List.length_take, h.length_rest]
    exact Nat.min_eq_left henough
  have hget := Mem.store_apply (fun _ : ℕ => (0 : UInt8)) (f.rest.take CHACHA_KEY_NONCE_SIZE) (Nat.zero_le i)
    (by omega)
  change (p.buffer (POOL_SIZE - p.available + i)).val = Mem.store (fun _ => 0) 0 (f.rest.take CHACHA_KEY_NONCE_SIZE) i
  rw [hget]
  simp only [← h.rest, Nat.sub_zero, List.getElem_take, List.getElem_map]
  congr 1
  exact (Mem.getElem_load p.buffer _ _ i (by rw [Mem.length_load]; omega)).symm

lemma val_chachaKeystream (next : ℕ) (chacha : Chacha) (len : ℕ) :
    (chachaKeystream next chacha len).1.map Cell.val = (chachaBytes chacha.x len).1 := by
  unfold chachaKeystream
  rw [List.map_map]
  exact List.zipIdx_map_fst ..

/-- **Bytes are given out.** -/
lemma Pool.Shows.consumed (h : p.Shows f) (hlen : len ≤ p.available) :
    (p.consumed len).Shows { f with rest := f.rest.drop len } := by
  refine ⟨(Nat.sub_le _ _).trans h.available_le, h.key, ?_⟩
  rw [live_consumed hlen h.available_le, List.map_drop, h.rest]

/-- **The buffer is filled up**, and the first bytes are the next key. -/
lemma shows_reload (h : s.pool.Shows f) : s.refilled.rekeyed.keyed.pool.Shows (f.refill chacha20 POOL_SIZE) := by
  obtain ⟨made, hmade⟩ :
      ∃ made, made = f.rest ++ chacha20.stream f.key (POOL_SIZE - f.rest.length) := ⟨_, rfl⟩
  have hrefilled : (s.pool.refilled s.next).Shows ⟨(s.pool.refilled s.next).chacha.x, made⟩ := by
    refine ⟨le_rfl, rfl, ?_⟩
    rw [live_refilled h.available_le, List.map_append, h.rest, val_chachaKeystream, hmade, h.length_rest, h.key]
    rfl
  have hkey : CHACHA_KEY_NONCE_SIZE ≤ (s.pool.refilled s.next).available := by
    change CHACHA_KEY_NONCE_SIZE ≤ POOL_SIZE
    decide
  have hrekeyed : s.refilled.rekeyed.pool.Shows ⟨chacha20.keyOf (made.take chacha20.keySize), made⟩ :=
    ⟨le_rfl, hrefilled.nextKey hkey, hrefilled.rest⟩
  have hdone := hrekeyed.consumed hkey
  rw [hmade] at hdone
  exact hdone

lemma poolReloadIfNeeded_shows (h : s.pool.Shows f) (hn : n ≤ POOL_SIZE - CHACHA_KEY_NONCE_SIZE) :
    ∃ s', poolReloadIfNeeded s n = .ok s' ∧ s'.pool.Shows (f.ensure chacha20 POOL_SIZE n) ∧
      s'.pool.era = s.pool.era ∧ n ≤ s'.pool.available := by
  have hlen := h.length_rest
  unfold poolReloadIfNeeded Feed.ensure
  split_ifs with hpool hfeed hfeed
  · exact ⟨s, rfl, h, rfl, hpool⟩
  · omega
  · omega
  · refine ⟨s.refilled.rekeyed.keyed, ?_, shows_reload h, rfl, hn⟩
    rw [poolReload_eq]
    exact if_pos hn

lemma poolStir_shows (h : s.pool.Shows f) (hlen : POOL_SIZE - CHACHA_KEY_NONCE_SIZE ≤ len) :
    ∃ out s', poolStir s len = .ok (out, s') ∧ s'.pool.era = s.pool.era ∧
      out.map Cell.val = (f.serve chacha20 POOL_SIZE len).1 ∧ s'.pool.Shows (f.serve chacha20 POOL_SIZE len).2 := by
  have hle : CHACHA_KEY_NONCE_SIZE ≤ POOL_SIZE - CHACHA_KEY_NONCE_SIZE := by decide
  obtain ⟨s₁, hrun, hshows, hera, henough⟩ := poolReloadIfNeeded_shows h hle
  refine ⟨(chachaKeystream s₁.next s₁.pool.nextKey len).1, { s₁.keyed with next := s₁.next + len }, ?_, hera, ?_, ?_⟩
  · unfold poolStir
    rw [hrun]
    simp only [ok_bind, poolBufferGet_eq henough, poolBufferConsume_eq henough]
    rfl
  · have hserve := Feed.serve_of_le (f := f) (c := chacha20) hlen
    rw [hserve, val_chachaKeystream, hshows.nextKey henough]
    rfl
  · have hserve := Feed.serve_of_le (f := f) (c := chacha20) hlen
    rw [hserve]
    exact hshows.consumed henough

/-- **A request** is served as the feed serves it. -/
lemma poolServe_shows (h : s.pool.Shows f) (len : ℕ) :
    ∃ out s', poolServe s len = .ok (out, s') ∧ s'.pool.era = s.pool.era ∧
      out.map Cell.val = (f.serve chacha20 POOL_SIZE len).1 ∧
      s'.pool.Shows (f.serve chacha20 POOL_SIZE len).2 := by
  unfold poolServe
  split_ifs with hlarge
  · exact poolStir_shows h hlarge
  · obtain ⟨s₁, hrun, hshows, hera, henough⟩ := poolReloadIfNeeded_shows h (not_le.mp hlarge).le
    have hserve := Feed.serve_of_lt (f := f) (c := chacha20) (not_le.mp hlarge)
    refine ⟨s₁.pool.buffer.load (POOL_SIZE - s₁.pool.available) len, { s₁ with pool := s₁.pool.consumed len }, ?_,
      hera, ?_, ?_⟩
    · rw [hrun]
      simp only [ok_bind, poolBufferGet_eq henough, poolBufferConsume_eq henough]
      rfl
    · rw [hserve, ← take_live henough, List.map_take, hshows.rest]
    · rw [hserve]
      exact hshows.consumed henough

/-! ### Runs -/

/-- The bytes that are written to the output buffer. -/
def cellBytes (out : List Cell) : List UInt8 := out.map Cell.val

/-- A seed. -/
lemma shows_seeded (p : Pool) (era : UInt32) (key : Key) :
    (poolSeed p era (.ok key)).2.era = era ∧ (poolSeed p era (.ok key)).2.Shows (.seeded (chachaWords key.bytes)) :=
  ⟨rfl, Nat.zero_le _, rfl, rfl⟩

/-- The seed of a request, for which `0` is not an era. -/
lemma poolSeedIfNeeded_shows {g : Seeded} (h : p.ShowsSeeded g) {era : UInt32} (hera : era ≠ 0) (fetch : Fetch) :
    (∃ p' f, poolSeedIfNeeded p era fetch = .ok p' ∧ feedFor g era fetch = .ok f ∧ p'.era = era ∧ p'.Shows f) ∨
      poolSeedIfNeeded p era fetch = .error .abort ∧ feedFor g era fetch = .error .abort := by
  have hseed : p.era ≠ era → feedFor g era fetch = fetchFeed fetch →
      (∃ p' f, poolSeedIfNeeded p era fetch = .ok p' ∧ feedFor g era fetch = .ok f ∧ p'.era = era ∧ p'.Shows f) ∨
        poolSeedIfNeeded p era fetch = .error .abort ∧ feedFor g era fetch = .error .abort := by
    intro hne hfeed
    cases fetch with
    | error err => exact .inr ⟨poolSeedIfNeeded_error hne err, hfeed⟩
    | ok key =>
      obtain ⟨hera, hshows⟩ := shows_seeded p era key
      exact .inl ⟨_, _, poolSeedIfNeeded_ok hne key, hfeed, hera, hshows⟩
  cases g with
  | none =>
    refine hseed ?_ rfl
    rw [show p.era = 0 from h]
    exact hera.symm
  | some g =>
    obtain ⟨hg, hshows⟩ := h
    by_cases hsame : g.1 = era
    · exact .inl ⟨p, g.2, poolSeedIfNeeded_same (hg.trans hsame) fetch, if_pos hsame, hg.trans hsame, hshows⟩
    · exact hseed (hg ▸ hsame) (if_neg hsame)

/-- **One event.** -/
lemma handle_shows {g : Seeded} (h : s.pool.ShowsSeeded g) {e : Event} (he : e.era ≠ 0) :
    (∃ out s' g', handle s e = .ok (out, s') ∧ feedHandle g e = .ok (cellBytes out, g') ∧ s'.pool.ShowsSeeded g') ∨
      handle s e = .error .abort ∧ feedHandle g e = .error .abort := by
  cases e with
  | reseed era fetch =>
    cases fetch with
    | error err => exact .inl ⟨[], _, g, rfl, rfl, h⟩
    | ok key => exact .inl ⟨[], _, _, rfl, rfl, shows_seeded s.pool era key⟩
  | rand era fetch len =>
    have hne : era ≠ 0 := he
    rcases poolSeedIfNeeded_shows h hne fetch with ⟨p', f, hpool, hfeed, hera, hshows⟩ | ⟨hpool, hfeed⟩
    · obtain ⟨out, s', hrun, hera', hout, hshows'⟩ := poolServe_shows (s := { s with pool := p' }) hshows len
      refine .inl ⟨out, s', some (era, (f.serve chacha20 POOL_SIZE len).2), ?_, ?_, hera'.trans hera, hshows'⟩
      · unfold handle poolRand
        dsimp only
        rw [hpool, ok_bind, hrun]
      · unfold feedHandle cellBytes
        dsimp only
        rw [hfeed, hout]
        rfl
    · refine .inr ⟨?_, ?_⟩
      · unfold handle poolRand
        dsimp only
        rw [hpool]
        rfl
      · unfold feedHandle
        dsimp only
        rw [hfeed]
        rfl

lemma run_shows {g : Seeded} (h : s.pool.ShowsSeeded g) {events : List Event} (he : ∀ e ∈ events, e.era ≠ 0) :
    (run s events).map (fun r => r.1.map cellBytes) = feedRun g events := by
  induction events generalizing s g with
  | nil => rfl
  | cons e events ih =>
    unfold run feedRun
    rcases handle_shows h (he e List.mem_cons_self) with ⟨out, s', g', hpool, hfeed, hshows⟩ | ⟨hpool, hfeed⟩
    · have hrest := ih hshows fun e he' => he e (List.mem_cons_of_mem _ he')
      rw [hpool, hfeed, ok_bind]
      dsimp only
      change _ = (feedRun g' events >>= fun outs => pure (cellBytes out :: outs))
      rw [← hrest]
      cases run s' events with
      | error stop => rfl
      | ok r => rfl
    · rw [hpool, hfeed]
      rfl

/-- **A pool serves the bytes of a feed**, whatever the memory of the new pool, the requests and the reseeds, and
whatever `rand_fetch` does: the buffer adds nothing, and what was in the memory is not in the bytes. -/
theorem pool_refines_feed (x : Words) (bytes : Mem UInt8) (events : List Event) (he : ∀ e ∈ events, e.era ≠ 0) :
    (run (newPool x bytes) events).map (fun r => r.1.map cellBytes) = feedRun none events := by
  have hnew : (newPool x bytes).pool.ShowsSeeded none := rfl
  exact run_shows hnew he

/-- A reseed that fails, a request that seeds, and a large one. -/
def mixedEvents : List Event :=
  [.reseed 3 (.error 5), .rand 3 (.ok ⟨fun i => i.toUInt8, 0⟩) 8, .rand 3 (.error 5) 500]

theorem pool_refines_feed_mixed :
    (run (newPool (Vector.replicate 16 7) fun _ => 9) mixedEvents).map (fun r => r.1.map cellBytes) =
      feedRun none mixedEvents := by
  refine pool_refines_feed _ _ _ ?_
  unfold mixedEvents
  simp [Event.era]

end Futils.Random
