import Futils.Random.Pool
import Mathlib.Data.Multiset.UnionInter
import Mathlib.Tactic.Abel

/-!
# A keystream byte is used once

The keystream bytes of a pool are numbered.  The books of a pool account for them: each byte that was
made is in one place only, given to a caller, taken for a key, or in the buffer.
-/

namespace Futils.Random

open Futils.Lib

variable {p : Pool} {s s₁ s₂ : State} {len next : ℕ} {c : Cell} {l l' out out₁ out₂ : List Cell}
  {o : Finset ℕ} {given : List ℕ}

/-! ### Bytes and their numbers -/

lemma tokensOf_append : tokensOf (l ++ l') = tokensOf l ++ tokensOf l' := List.filterMap_append

lemma tokensOf_zeros : tokensOf (List.replicate len .zero) = [] :=
  List.filterMap_eq_nil_iff.mpr fun c hc => by rw [List.eq_of_mem_replicate hc, Cell.zero]

/-- A byte of a keystream whose key was made from the fetched keys `o`. -/
def Cell.IsFrom (o : Finset ℕ) (c : Cell) : Prop := c.token.isSome ∧ c.origins = o

lemma length_chachaKeystream (next : ℕ) (chacha : Chacha) (len : ℕ) :
    (chachaKeystream next chacha len).1.length = len := by
  unfold chachaKeystream
  rw [List.length_map, List.length_zipIdx, length_chachaBytes]

lemma isFrom_chachaKeystream {chacha : Chacha} (h : c ∈ (chachaKeystream next chacha len).1) :
    c.IsFrom chacha.origins := by
  obtain ⟨b, -, rfl⟩ := List.mem_map.mp h
  exact ⟨rfl, rfl⟩

lemma tokensOf_chachaKeystream (next : ℕ) (chacha : Chacha) (len : ℕ) :
    tokensOf (chachaKeystream next chacha len).1 = List.range' next len := by
  have hsnd : ∀ l : List (UInt8 × ℕ),
      tokensOf (l.map fun b => ⟨b.1, some b.2, chacha.origins⟩) = l.map Prod.snd := by
    intro l
    unfold tokensOf
    rw [List.filterMap_map]
    exact congrFun (List.filterMap_eq_map (f := Prod.snd)) l
  unfold chachaKeystream
  rw [hsnd, List.zipIdx_map_snd, length_chachaBytes]

lemma origins_chachaInit {k : Mem Cell} (h : ∀ i < CHACHA_KEY_NONCE_SIZE, (k i).origins = o) :
    (chachaInit k).origins = o := by
  unfold chachaInit
  ext x
  rw [Finset.mem_biUnion]
  constructor
  · rintro ⟨i, hi, hx⟩
    rwa [h i (Finset.mem_range.mp hi)] at hx
  · intro hx
    exact ⟨0, Finset.mem_range.mpr (by decide), by rwa [h 0 (by decide)]⟩

/-! ### The buffer -/

/-- The bytes that are available. -/
def Pool.live (p : Pool) : List Cell := p.buffer.load (POOL_SIZE - p.available) p.available

/-- The keystream bytes in the buffer. -/
def Pool.held (p : Pool) : List ℕ := tokensOf (p.buffer.load 0 POOL_SIZE)

/-- The available bytes are in the buffer, and are bytes of the keystream. -/
structure Pool.Sound (p : Pool) : Prop where
  available_le : p.available ≤ POOL_SIZE
  live : ∀ c ∈ p.live, c.IsFrom p.chacha.origins

/-- The pool without its first `len` available bytes. -/
def Pool.consumed (p : Pool) (len : ℕ) : Pool :=
  { p with
    buffer := p.buffer.store (POOL_SIZE - p.available) (List.replicate len .zero)
    available := p.available - len }

lemma poolBufferGet_eq (h : len ≤ p.available) :
    poolBufferGet p len = .ok (POOL_SIZE - p.available) := if_pos h

lemma poolBufferConsume_eq (h : len ≤ p.available) :
    poolBufferConsume p (POOL_SIZE - p.available) len = .ok (p.consumed len) := by
  unfold poolBufferConsume
  rw [if_neg (not_not.mpr rfl), if_neg (not_not.mpr h)]
  rfl

lemma length_live : p.live.length = p.available := Mem.length_load ..

lemma take_live (h : len ≤ p.available) :
    p.live.take len = p.buffer.load (POOL_SIZE - p.available) len := by
  unfold Pool.live
  rw [Mem.take_load, Nat.min_eq_left h]

lemma live_consumed (h : len ≤ p.available) (hle : p.available ≤ POOL_SIZE) :
    (p.consumed len).live = p.live.drop len := by
  unfold Pool.live Pool.consumed
  rw [Mem.drop_load, show POOL_SIZE - (p.available - len) = POOL_SIZE - p.available + len by omega]
  refine Mem.load_congr fun i hi _ => Mem.store_of_ge _ _ ?_
  rwa [List.length_replicate]

lemma Pool.Sound.consumed (hp : p.Sound) (h : len ≤ p.available) : (p.consumed len).Sound := by
  refine ⟨(Nat.sub_le _ _).trans hp.available_le, fun c hc => ?_⟩
  rw [live_consumed h hp.available_le] at hc
  exact hp.live c (List.mem_of_mem_drop hc)

/-- The bytes that are consumed are erased, and only those. -/
lemma held_consumed (h : len ≤ p.available) (hle : p.available ≤ POOL_SIZE) :
    (p.held : Multiset ℕ) = tokensOf (p.live.take len) + (p.consumed len).held := by
  obtain ⟨off, hoff⟩ : ∃ off, off = POOL_SIZE - p.available := ⟨_, rfl⟩
  have hsize : POOL_SIZE = off + (len + (POOL_SIZE - off - len)) := by omega
  have hcut : ∀ m : Mem Cell, m.load 0 POOL_SIZE =
      m.load 0 off ++ (m.load off len ++ m.load (off + len) (POOL_SIZE - off - len)) := by
    intro m
    have hfront := Mem.load_add m 0 off (len + (POOL_SIZE - off - len))
    rwa [← hsize, Nat.zero_add, Mem.load_add m off] at hfront
  have hfront : (p.consumed len).buffer.load 0 off = p.buffer.load 0 off := by
    refine Mem.load_congr fun i _ hi => Mem.store_of_lt _ _ ?_
    omega
  have hzero : (p.consumed len).buffer.load off len = List.replicate len .zero := by
    have hload := Mem.load_store p.buffer off (List.replicate len Cell.zero)
    rw [List.length_replicate] at hload
    rw [← hload, hoff]
    rfl
  have hback : (p.consumed len).buffer.load (off + len) (POOL_SIZE - off - len) =
      p.buffer.load (off + len) (POOL_SIZE - off - len) := by
    refine Mem.load_congr fun i hi _ => Mem.store_of_ge _ _ ?_
    rw [List.length_replicate]
    omega
  unfold Pool.held
  rw [take_live h, hcut, hcut, hfront, hzero, hback, ← hoff]
  simp only [tokensOf_append, tokensOf_zeros, List.nil_append, ← Multiset.coe_add]
  exact add_left_comm _ _ _

lemma load_refilled (hle : p.available ≤ POOL_SIZE) :
    (p.refilled next).buffer.load 0 POOL_SIZE =
      p.live ++ (chachaKeystream next p.chacha (POOL_SIZE - p.available)).1 := by
  obtain ⟨fresh, hfresh⟩ :
      ∃ fresh, fresh = (chachaKeystream next p.chacha (POOL_SIZE - p.available)).1 := ⟨_, rfl⟩
  have hlen : (p.live ++ fresh).length = POOL_SIZE := by
    rw [List.length_append, length_live, hfresh, length_chachaKeystream]
    omega
  have hstore : (p.refilled next).buffer = p.buffer.store 0 (p.live ++ fresh) := by
    rw [Mem.store_append, length_live, Nat.zero_add, hfresh]
    rfl
  rw [hstore, ← hfresh, ← hlen]
  exact Mem.load_store ..

lemma live_refilled (hle : p.available ≤ POOL_SIZE) :
    (p.refilled next).live = p.live ++ (chachaKeystream next p.chacha (POOL_SIZE - p.available)).1 := by
  rw [← load_refilled hle]
  unfold Pool.live
  congr 1

lemma Pool.Sound.refilled (hp : p.Sound) (next : ℕ) : (p.refilled next).Sound := by
  refine ⟨le_rfl, fun c hc => ?_⟩
  rw [live_refilled hp.available_le] at hc
  rcases List.mem_append.mp hc with hc | hc
  · exact hp.live c hc
  · have hfrom : c.IsFrom p.chacha.origins := isFrom_chachaKeystream hc
    exact hfrom

/-- Bytes of the buffer that were not available are gone. -/
lemma held_refilled (hle : p.available ≤ POOL_SIZE) :
    ((p.refilled next).held : Multiset ℕ) ≤ p.held + List.range' next (POOL_SIZE - p.available) := by
  have hsub : (tokensOf p.live).Subperm p.held := by
    refine List.Sublist.subperm ?_
    have hcut : p.buffer.load 0 POOL_SIZE =
        p.buffer.load 0 (POOL_SIZE - p.available) ++ p.live := by
      have hsplit := Mem.load_add p.buffer 0 (POOL_SIZE - p.available) p.available
      rwa [Nat.zero_add, Nat.sub_add_cancel hle] at hsplit
    unfold Pool.held
    rw [hcut, tokensOf_append]
    exact List.sublist_append_right _ _
  have hheld : (p.refilled next).held =
      tokensOf p.live ++ List.range' next (POOL_SIZE - p.available) := by
    unfold Pool.held
    rw [load_refilled hle, tokensOf_append, tokensOf_chachaKeystream]
  rw [hheld, ← Multiset.coe_add]
  exact Multiset.add_le_add_right (Multiset.coe_le.mpr hsub)

/-! ### The books -/

/-- Each keystream byte that was made is in one place at most. -/
def State.Books (s : State) (given : List ℕ) : Prop :=
  (given + s.keys + s.pool.held : Multiset ℕ) ≤ Multiset.range s.next

/-- The bytes `out` are served, and the books are kept. -/
structure Serves (s s' : State) (out : List Cell) : Prop where
  sound : s'.pool.Sound
  era : s'.pool.era = s.pool.era
  origins : s'.pool.chacha.origins = s.pool.chacha.origins
  isFrom : ∀ c ∈ out, c.IsFrom s.pool.chacha.origins
  books : ∀ given, s.Books given → s'.Books (given ++ tokensOf out)

lemma Serves.trans (h₁ : Serves s s₁ out₁) (h₂ : Serves s₁ s₂ out₂) :
    Serves s s₂ (out₁ ++ out₂) := by
  refine ⟨h₂.sound, h₂.era.trans h₁.era, h₂.origins.trans h₁.origins, ?_, ?_⟩
  · intro c hc
    rcases List.mem_append.mp hc with hc | hc
    · exact h₁.isFrom c hc
    · rw [← h₁.origins]
      exact h₂.isFrom c hc
  · intro given hbooks
    rw [tokensOf_append, ← List.append_assoc]
    exact h₂.books _ (h₁.books _ hbooks)

lemma range_add_range' (next n : ℕ) :
    Multiset.range next + (List.range' next n : Multiset ℕ) = Multiset.range (next + n) := by
  rw [← Multiset.coe_range, ← Multiset.coe_range, Multiset.coe_add, List.range_eq_range',
    List.range_eq_range', ← List.range'_append_1, Nat.zero_add]

/-- The available bytes are given to the caller. -/
lemma serves_consumed (hp : s.pool.Sound) (h : len ≤ s.pool.available) :
    Serves s { s with pool := s.pool.consumed len }
      (s.pool.buffer.load (POOL_SIZE - s.pool.available) len) := by
  rw [← take_live h]
  refine ⟨hp.consumed h, rfl, rfl, fun c hc => hp.live c (List.mem_of_mem_take hc), ?_⟩
  intro given hbooks
  unfold State.Books at *
  rw [held_consumed h hp.available_le] at hbooks
  rw [← Multiset.coe_add]
  refine le_of_eq_of_le ?_ hbooks
  abel

/-- The state once a key is taken from the available bytes. -/
def State.keyed (s : State) : State :=
  ⟨s.pool.consumed CHACHA_KEY_NONCE_SIZE, s.next, s.keys ++
    tokensOf (s.pool.buffer.load (POOL_SIZE - s.pool.available) CHACHA_KEY_NONCE_SIZE)⟩

lemma serves_keyed (hp : s.pool.Sound) (h : CHACHA_KEY_NONCE_SIZE ≤ s.pool.available) :
    Serves s s.keyed [] := by
  refine ⟨hp.consumed h, rfl, rfl, by simp, ?_⟩
  intro given hbooks
  unfold State.Books State.keyed at *
  rw [held_consumed h hp.available_le] at hbooks
  rw [← Multiset.coe_add s.keys, ← take_live h, show tokensOf [] = [] from rfl, List.append_nil]
  refine le_of_eq_of_le ?_ hbooks
  abel

/-- The cipher that has the next available bytes as its key. -/
def Pool.nextKey (p : Pool) : Chacha := chachaInit (p.buffer.shift (POOL_SIZE - p.available))

lemma origins_nextKey (hp : p.Sound) (h : CHACHA_KEY_NONCE_SIZE ≤ p.available) :
    p.nextKey.origins = p.chacha.origins := by
  refine origins_chachaInit fun i hi => ?_
  have hmem : p.buffer (POOL_SIZE - p.available + i) ∈ p.live :=
    Mem.mem_load.mpr ⟨i, hi.trans_le h, rfl⟩
  exact (hp.live _ hmem).2

/-- The state once the pool has its next key. -/
def State.rekeyed (s : State) : State := { s with pool := { s.pool with chacha := s.pool.nextKey } }

lemma serves_rekeyed (hp : s.pool.Sound) (h : CHACHA_KEY_NONCE_SIZE ≤ s.pool.available) :
    Serves s s.rekeyed [] := by
  have horigins := origins_nextKey hp h
  refine ⟨⟨hp.available_le, ?_⟩, rfl, horigins, by simp, ?_⟩
  · intro c hc
    change c.IsFrom s.pool.nextKey.origins
    rw [horigins]
    exact hp.live c hc
  · intro given hbooks
    rw [show tokensOf [] = [] from rfl, List.append_nil]
    exact hbooks

/-- The state once the buffer is filled up. -/
def State.refilled (s : State) : State :=
  ⟨s.pool.refilled s.next, s.next + (POOL_SIZE - s.pool.available), s.keys⟩

lemma serves_refilled (hp : s.pool.Sound) : Serves s s.refilled [] := by
  refine ⟨hp.refilled s.next, rfl, rfl, by simp, ?_⟩
  intro given hbooks
  unfold State.Books State.refilled at *
  rw [← range_add_range', show tokensOf [] = [] from rfl, List.append_nil]
  refine (Multiset.add_le_add_left (held_refilled hp.available_le)).trans ?_
  rw [← add_assoc]
  exact Multiset.add_le_add_right hbooks

/-- Bytes are made for the caller. -/
lemma serves_keystream (hp : s.pool.Sound) {chacha : Chacha}
    (hc : chacha.origins = s.pool.chacha.origins) (len : ℕ) :
    Serves s { s with next := s.next + len } (chachaKeystream s.next chacha len).1 := by
  refine ⟨hp, rfl, rfl, fun c h => hc ▸ isFrom_chachaKeystream h, ?_⟩
  intro given hbooks
  unfold State.Books at *
  rw [tokensOf_chachaKeystream, ← range_add_range', ← Multiset.coe_add]
  refine le_of_eq_of_le ?_ (Multiset.add_le_add_right hbooks)
  abel

/-! ### What each function does -/

lemma ok_bind {α β : Type} (a : α) (f : α → Except Stop β) : (Except.ok a >>= f) = f a := rfl

lemma poolReload_eq (s : State) : poolReload s = .ok s.refilled.rekeyed.keyed := by
  have hkey : CHACHA_KEY_NONCE_SIZE ≤ s.refilled.rekeyed.pool.available := by
    change CHACHA_KEY_NONCE_SIZE ≤ POOL_SIZE
    decide
  have hget := poolBufferGet_eq (p := s.pool.refilled s.next) hkey
  have hconsume : poolBufferConsume s.refilled.rekeyed.pool
      (POOL_SIZE - (s.pool.refilled s.next).available) CHACHA_KEY_NONCE_SIZE =
        .ok (s.refilled.rekeyed.pool.consumed CHACHA_KEY_NONCE_SIZE) := poolBufferConsume_eq hkey
  unfold poolReload
  dsimp only
  rw [hget, ok_bind]
  change (poolBufferConsume s.refilled.rekeyed.pool _ CHACHA_KEY_NONCE_SIZE >>= _) = _
  rw [hconsume]
  rfl

lemma poolReloadIfNeeded_serves (hp : s.pool.Sound) {required : ℕ}
    (h : required ≤ POOL_SIZE - CHACHA_KEY_NONCE_SIZE) :
    ∃ s', poolReloadIfNeeded s required = .ok s' ∧ Serves s s' [] ∧
      required ≤ s'.pool.available := by
  unfold poolReloadIfNeeded
  split_ifs with henough
  · refine ⟨s, rfl, ⟨hp, rfl, rfl, by simp, fun given hbooks => ?_⟩, henough⟩
    rwa [show tokensOf [] = [] from rfl, List.append_nil]
  · have hkey : CHACHA_KEY_NONCE_SIZE ≤ POOL_SIZE := by decide
    have hfill := serves_refilled hp
    have hrekey := serves_rekeyed hfill.sound hkey
    refine ⟨_, ?_, (hfill.trans hrekey).trans (serves_keyed hrekey.sound hkey), h⟩
    rw [poolReload_eq]
    exact if_pos h

lemma poolStir_serves (hp : s.pool.Sound) (len : ℕ) :
    ∃ out s', poolStir s len = .ok (out, s') ∧ Serves s s' out ∧ out.length = len := by
  have hle : CHACHA_KEY_NONCE_SIZE ≤ POOL_SIZE - CHACHA_KEY_NONCE_SIZE := by decide
  obtain ⟨s₁, hrun, hserves, henough⟩ := poolReloadIfNeeded_serves hp hle
  have hkeyed := serves_keyed hserves.sound henough
  have horigins := origins_nextKey hserves.sound henough
  have hstream := serves_keystream hkeyed.sound horigins len
  refine ⟨_, _, ?_, (hserves.trans hkeyed).trans hstream, length_chachaKeystream ..⟩
  unfold poolStir
  rw [hrun]
  simp only [ok_bind, poolBufferGet_eq henough, poolBufferConsume_eq henough]
  rfl

/-- **A request is served** from a sound pool. -/
theorem poolServe_serves (hp : s.pool.Sound) (len : ℕ) :
    ∃ out s', poolServe s len = .ok (out, s') ∧ Serves s s' out ∧ out.length = len := by
  unfold poolServe
  split_ifs with hlarge
  · exact poolStir_serves hp len
  · obtain ⟨s₁, hrun, hserves, henough⟩ := poolReloadIfNeeded_serves hp (not_le.mp hlarge).le
    refine ⟨_, _, ?_, hserves.trans (serves_consumed hserves.sound henough), Mem.length_load ..⟩
    rw [hrun]
    simp only [ok_bind, poolBufferGet_eq henough, poolBufferConsume_eq henough]
    rfl

/-! ### Runs -/

/-- A request of `len` bytes, or a reseed.  `era` is the era that is read or started, which other
threads advance as well, and `fetch` what `rand_fetch` does if it is called. -/
inductive Event
  | rand (era : UInt32) (fetch : Fetch) (len : ℕ)
  | reseed (era : UInt32) (fetch : Fetch)

/-- How many bytes are asked for. -/
def Event.asked : Event → ℕ
  | .rand _ _ len => len
  | .reseed _ _ => 0

/-- No request needs a key that cannot be fetched. -/
def Event.Fetches : Event → Prop
  | .rand _ fetch _ => ∃ key, fetch = .ok key
  | .reseed _ _ => True

/-- What is written to the output buffer, and the state. -/
def handle (s : State) : Event → Except Stop (List Cell × State)
  | .rand era fetch len => poolRand s era fetch len
  | .reseed era fetch => .ok ([], { s with pool := (poolReseed s.pool era fetch).2 })

def run (s : State) : List Event → Except Stop (List (List Cell) × State)
  | [] => .ok ([], s)
  | e :: events => do
    let (out, s) ← handle s e
    let (outs, s) ← run s events
    return (out :: outs, s)

/-- A new pool: nothing in its buffer comes from a keystream. -/
def newPool (x : Words) (bytes : Mem UInt8) : State :=
  ⟨⟨⟨x, ∅⟩, 0, 0, fun i => ⟨bytes i, none, ∅⟩⟩, 0, []⟩

lemma books_newPool (x : Words) (bytes : Mem UInt8) : (newPool x bytes).Books [] := by
  have hnone : (newPool x bytes).pool.held = [] := by
    refine List.filterMap_eq_nil_iff.mpr fun c hc => ?_
    obtain ⟨i, -, rfl⟩ := Mem.mem_load.mp hc
    rfl
  unfold State.Books
  rw [hnone]
  exact le_rfl

lemma sound_newPool (x : Words) (bytes : Mem UInt8) : (newPool x bytes).pool.Sound :=
  ⟨Nat.zero_le _, fun c hc => by cases hc⟩

/-- **A seed** makes nothing available, and leaves the books as they are. -/
lemma serves_seeded (hp : s.pool.Sound) (era : UInt32) (fetch : Fetch) :
    (poolSeed s.pool era fetch).2.Sound ∧
      ∀ given, s.Books given → { s with pool := (poolSeed s.pool era fetch).2 }.Books given := by
  cases fetch with
  | error err => exact ⟨hp, fun _ h => h⟩
  | ok key => exact ⟨⟨Nat.zero_le _, fun c hc => by cases hc⟩, fun _ h => h⟩

lemma poolSeedIfNeeded_same {era : UInt32} (h : p.era = era) (fetch : Fetch) :
    poolSeedIfNeeded p era fetch = .ok p := if_pos h

lemma poolSeedIfNeeded_ok {era : UInt32} (h : p.era ≠ era) (key : Key) :
    poolSeedIfNeeded p era (.ok key) = .ok (poolSeed p era (.ok key)).2 := if_neg h

lemma poolSeedIfNeeded_error {era : UInt32} (h : p.era ≠ era) (err : ℕ+) :
    poolSeedIfNeeded p era (.error err) = .error .abort := by
  have hneg : (poolSeed p era (.error err)).1 < 0 := by
    have := err.pos
    change -((err : ℕ) : ℤ) < 0
    omega
  unfold poolSeedIfNeeded
  rw [if_neg h]
  exact if_pos hneg

/-- What one event does: it stops in `abort` for want of a key only. -/
lemma handle_spec (hp : s.pool.Sound) (e : Event) :
    (handle s e = .error .abort ∧ ¬ e.Fetches) ∨
      ∃ out s', handle s e = .ok (out, s') ∧ s'.pool.Sound ∧ out.length = e.asked ∧
        (∀ c ∈ out, c.token.isSome) ∧
        ∀ given, s.Books given → s'.Books (given ++ tokensOf out) := by
  cases e with
  | reseed era fetch =>
    obtain ⟨hsound, hbooks⟩ := serves_seeded hp era fetch
    refine Or.inr ⟨[], _, rfl, hsound, rfl, by simp, fun given h => ?_⟩
    rw [show tokensOf [] = [] from rfl, List.append_nil]
    exact hbooks given h
  | rand era fetch len =>
    change (poolRand s era fetch len = _ ∧ _) ∨ _
    have hserve : ∀ pool : Pool, pool.Sound →
        (∀ given, s.Books given → { s with pool := pool }.Books given) →
        poolSeedIfNeeded s.pool era fetch = .ok pool →
        ∃ out s', poolRand s era fetch len = .ok (out, s') ∧ s'.pool.Sound ∧ out.length = len ∧
          (∀ c ∈ out, c.token.isSome) ∧
          ∀ given, s.Books given → s'.Books (given ++ tokensOf out) := by
      intro pool hsound hbooks hseed
      obtain ⟨out, s', hrun, hserves, hlen⟩ := poolServe_serves (s := { s with pool := pool }) hsound len
      refine ⟨out, s', ?_, hserves.sound, hlen, fun c hc => (hserves.isFrom c hc).1, fun given h => ?_⟩
      · unfold poolRand
        rw [hseed, ok_bind, hrun]
      · exact hserves.books given (hbooks given h)
    by_cases hera : s.pool.era = era
    · exact Or.inr (hserve s.pool hp (fun _ h => h) (poolSeedIfNeeded_same hera fetch))
    · obtain ⟨hsound, hbooks⟩ := serves_seeded hp era fetch
      cases fetch with
      | ok key => exact Or.inr (hserve _ hsound hbooks (poolSeedIfNeeded_ok hera key))
      | error err =>
        refine Or.inl ⟨?_, by rintro ⟨key, ⟨⟩⟩⟩
        unfold poolRand
        rw [poolSeedIfNeeded_error hera]
        rfl

/-- What is delivered in a run, request by request, and what the pool still holds. -/
structure SingleUse (s : State) (given : List ℕ) (outs : List (List Cell)) (events : List Event) :
    Prop where
  available_le : s.pool.available ≤ POOL_SIZE
  filled : List.Forall₂ (fun out e => out.length = e.asked ∧ ∀ c ∈ out, c.token.isSome) outs events
  once : (given ++ tokensOf outs.flatten).Nodup
  noKey : ∀ t ∈ s.keys, t ∉ given ++ tokensOf outs.flatten
  erased : ∀ i < POOL_SIZE, ∀ t, (s.pool.buffer i).token = some t →
    t ∉ given ++ tokensOf outs.flatten ∧ t ∉ s.keys

/-- What the books say. -/
lemma singleUse_nil (hp : s.pool.Sound) (h : s.Books given) : SingleUse s given [] [] := by
  have hnodup : (given + s.keys + s.pool.held : Multiset ℕ).Nodup :=
    Multiset.nodup_of_le h (Multiset.nodup_range _)
  rw [Multiset.coe_add, Multiset.coe_add, Multiset.coe_nodup, List.nodup_append'] at hnodup
  obtain ⟨hused, -, hheld⟩ := hnodup
  obtain ⟨hgiven, -, hkeys⟩ := List.nodup_append'.mp hused
  have hnil : given ++ tokensOf [].flatten = given := List.append_nil given
  constructor
  · exact hp.available_le
  · exact .nil
  · rwa [hnil]
  · intro t ht
    rw [hnil]
    exact fun hg => hkeys hg ht
  · intro i hi t ht
    have hmem : t ∈ s.pool.held :=
      List.mem_filterMap.mpr ⟨_, Mem.mem_load.mpr ⟨i, hi, by rw [Nat.zero_add]⟩, ht⟩
    rw [hnil]
    constructor
    · exact fun hg => hheld (List.mem_append_left _ hg) hmem
    · exact fun hk => hheld (List.mem_append_right _ hk) hmem

/-- **Every run** uses each keystream byte once. -/
lemma run_spec (hp : s.pool.Sound) (hbooks : s.Books given) (events : List Event) :
    (run s events = .error .abort ∧ ∃ e ∈ events, ¬ e.Fetches) ∨
      ∃ outs s', run s events = .ok (outs, s') ∧ SingleUse s' given outs events := by
  induction events generalizing s given with
  | nil => exact Or.inr ⟨[], s, rfl, singleUse_nil hp hbooks⟩
  | cons e events ih =>
    rcases handle_spec hp e with ⟨hstop, he⟩ | ⟨out, s₁, hrun, hsound, hlen, hsome, hkeep⟩
    · refine Or.inl ⟨?_, e, List.mem_cons_self, he⟩
      unfold run
      rw [hstop]
      rfl
    · rcases ih hsound (hkeep given hbooks) with ⟨hstop, e', he', hfetch⟩ | ⟨outs, s', hrest, huse⟩
      · refine Or.inl ⟨?_, e', List.mem_cons_of_mem _ he', hfetch⟩
        unfold run
        rw [hrun, ok_bind]
        dsimp only
        rw [hstop]
        rfl
      · refine Or.inr ⟨out :: outs, s', ?_, huse.available_le, ?_, ?_, ?_, ?_⟩
        · unfold run
          rw [hrun, ok_bind]
          dsimp only
          rw [hrest]
          rfl
        · exact .cons ⟨hlen, hsome⟩ huse.filled
        all_goals rw [List.flatten_cons, tokensOf_append, ← List.append_assoc]
        · exact huse.once
        · exact huse.noKey
        · exact huse.erased

/-- **A keystream byte is used once.**  In every run from a new pool no assertion fails, each request is
filled with bytes of the keystream, none of them is delivered twice or was a key, and none that was
delivered or was a key is left in the buffer. -/
theorem pool_single_use (x : Words) (bytes : Mem UInt8) (events : List Event) :
    run (newPool x bytes) events ≠ .error .assertion ∧
      ((∀ e ∈ events, e.Fetches) → ∃ outs s, run (newPool x bytes) events = .ok (outs, s)) ∧
      ∀ outs s, run (newPool x bytes) events = .ok (outs, s) → SingleUse s [] outs events := by
  rcases run_spec (sound_newPool x bytes) (books_newPool x bytes) events with
    ⟨hstop, e, he, hfetch⟩ | ⟨outs, s, hrun, huse⟩
  · refine ⟨?_, fun h => absurd (h e he) hfetch, fun outs s h => ?_⟩
    · rw [hstop]
      rintro ⟨⟩
    · rw [hstop] at h
      cases h
  · refine ⟨?_, fun _ => ⟨outs, s, hrun⟩, fun outs' s' h => ?_⟩
    · rw [hrun]
      rintro ⟨⟩
    · rw [hrun] at h
      cases h
      exact huse

end Futils.Random
