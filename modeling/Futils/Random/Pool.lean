import Futils.Random.Chacha
import Mathlib.Data.Finset.Union
import Mathlib.Data.PNat.Defs

/-!
# The random pool (`src/random.c`)

`struct pool` and the functions on it, down to `pool_rand`.  A byte of memory carries where it comes
from: the number of the keystream byte that it is, if it is one, and the fetched keys that it was made
from.  `State` adds to a pool how many keystream bytes there were and which of them became keys; nothing
that the functions compute depends on either.
-/

namespace Futils.Random

open Futils.Lib

/-- A byte and where it comes from. -/
structure Cell where
  val : UInt8
  token : Option ℕ
  origins : Finset ℕ
  deriving DecidableEq

/-- What `memset` writes. -/
def Cell.zero : Cell := ⟨0, none, ∅⟩

/-- `struct chacha`, with the origins of its key. -/
structure Chacha where
  x : Words
  origins : Finset ℕ

/-- `sizeof(pool->buffer)` -/
def POOL_SIZE : ℕ := 512

/-- `struct pool` -/
structure Pool where
  chacha : Chacha
  era : UInt32
  available : ℕ
  buffer : Mem Cell

/-- A pool, the number of the next keystream byte, and the keystream bytes that became keys. -/
structure State where
  pool : Pool
  next : ℕ
  keys : List ℕ

/-- A run ends in an assertion that fails or in `abort`. -/
inductive Stop
  | assertion
  | abort
  deriving DecidableEq

/-- The keystream bytes in a block of memory. -/
def tokensOf (l : List Cell) : List ℕ := l.filterMap Cell.token

def chachaInit (k : Mem Cell) : Chacha :=
  ⟨chachaWords fun i => (k i).val, (Finset.range CHACHA_KEY_NONCE_SIZE).biUnion fun i => (k i).origins⟩

/-- What `chacha_keystream` writes, numbered from `next` on. -/
def chachaKeystream (next : ℕ) (chacha : Chacha) (len : ℕ) : List Cell × Chacha :=
  let out := chachaBytes chacha.x len
  ((out.1.zipIdx next).map fun b => ⟨b.1, some b.2, chacha.origins⟩, { chacha with x := out.2 })

/-! ### The buffer -/

/-- The address of the available bytes, in the buffer. -/
def poolBufferGet (pool : Pool) (len : ℕ) : Except Stop ℕ :=
  if len ≤ pool.available then .ok (POOL_SIZE - pool.available) else .error .assertion

def poolBufferConsume (pool : Pool) (ptr len : ℕ) : Except Stop Pool :=
  if ptr ≠ POOL_SIZE - pool.available then .error .assertion
  else if ¬ len ≤ pool.available then .error .assertion
  else
    .ok { pool with
      buffer := pool.buffer.store (POOL_SIZE - pool.available) (List.replicate len .zero)
      available := pool.available - len }

/-! ### Seeds -/

/-- A key that `rand_fetch` writes, and its number. -/
structure Key where
  bytes : Mem UInt8
  id : ℕ

def Key.cells (key : Key) : Mem Cell := fun i => ⟨key.bytes i, none, {key.id}⟩

/-- What `rand_fetch` does: it returns an error number, negated, or `0` with a key. -/
abbrev Fetch := Except ℕ+ Key

def poolSeed (pool : Pool) (era : UInt32) (fetch : Fetch) : ℤ × Pool :=
  match fetch with
  | .error err => (-(err : ℕ), pool)
  | .ok key => (0, { pool with chacha := chachaInit key.cells, era := era, available := 0 })

/-- `era` is what `pool_seed_era` returns. -/
def poolSeedIfNeeded (pool : Pool) (era : UInt32) (fetch : Fetch) : Except Stop Pool :=
  if pool.era = era then .ok pool
  else
    let seeded := poolSeed pool era fetch
    if seeded.1 < 0 then .error .abort else .ok seeded.2

/-- `era` is what `pool_seed_era_new` returns. -/
def poolReseed (pool : Pool) (era : UInt32) (fetch : Fetch) : ℤ × Pool := poolSeed pool era fetch

/-! ### Requests -/

/-- The first half of `pool_reload`: the bytes that remain come first, and new ones fill the buffer. -/
def Pool.refilled (pool : Pool) (next : ℕ) : Pool :=
  let consumed := POOL_SIZE - pool.available
  let stream := chachaKeystream next pool.chacha consumed
  { pool with
    chacha := stream.2
    buffer := (pool.buffer.store 0 (pool.buffer.load consumed pool.available)).store
      pool.available stream.1
    available := POOL_SIZE }

def poolReload (s : State) : Except Stop State := do
  let pool := s.pool.refilled s.next
  -- a new key for backtracking protection
  let key ← poolBufferGet pool CHACHA_KEY_NONCE_SIZE
  let chacha := chachaInit (pool.buffer.shift key)
  let keys := s.keys ++ tokensOf (pool.buffer.load key CHACHA_KEY_NONCE_SIZE)
  let pool ← poolBufferConsume { pool with chacha := chacha } key CHACHA_KEY_NONCE_SIZE
  return ⟨pool, s.next + (POOL_SIZE - s.pool.available), keys⟩

def poolReloadIfNeeded (s : State) (required : ℕ) : Except Stop State :=
  if s.pool.available ≥ required then .ok s
  else do
    let s ← poolReload s
    if s.pool.available ≥ required then .ok s else .error .assertion

/-- What is written to the output buffer, and the state. -/
def poolStir (s : State) (len : ℕ) : Except Stop (List Cell × State) := do
  let s ← poolReloadIfNeeded s CHACHA_KEY_NONCE_SIZE
  let key ← poolBufferGet s.pool CHACHA_KEY_NONCE_SIZE
  let chacha := chachaInit (s.pool.buffer.shift key)
  let keys := s.keys ++ tokensOf (s.pool.buffer.load key CHACHA_KEY_NONCE_SIZE)
  let pool ← poolBufferConsume s.pool key CHACHA_KEY_NONCE_SIZE
  return ((chachaKeystream s.next chacha len).1, ⟨pool, s.next + len, keys⟩)

/-- `pool_rand` once the pool is seeded. -/
def poolServe (s : State) (len : ℕ) : Except Stop (List Cell × State) :=
  if len ≥ POOL_SIZE - CHACHA_KEY_NONCE_SIZE then poolStir s len
  else do
    let s ← poolReloadIfNeeded s len
    let ptr ← poolBufferGet s.pool len
    let out := s.pool.buffer.load ptr len
    let pool ← poolBufferConsume s.pool ptr len
    return (out, { s with pool := pool })

def poolRand (s : State) (era : UInt32) (fetch : Fetch) (len : ℕ) :
    Except Stop (List Cell × State) := do
  let pool ← poolSeedIfNeeded s.pool era fetch
  poolServe { s with pool := pool } len

end Futils.Random
