import Futils.Lib.Reach
import Futils.Random.Pool
import Mathlib.Logic.Function.Basic

/-!
# Reseeds in several threads

Each thread has a pool of its own, draws from it and calls `futils_random_reseed`; the threads share
`seed_era`.  A thread takes one step at a time, in any order with the others: a step is one access to
`seed_era`, one call of `rand_fetch`, or what lies between two of these.  The increments of `seed_era`
are counted, and a key has the number of the increments before it was fetched.
-/

namespace Futils.Random

open Futils.Lib

/-- The value of `seed_era` after `k` increments. -/
def eraOf (k : ℕ) : UInt32 := UInt32.ofNat (1 + 2 * k)

/-- Where a thread is.  A draw has the reseeds that had returned when it started, `need`; `k` counts the
increments up to the era that the thread has read or started. -/
inductive Pc
  /-- outside of the functions -/
  | idle
  /-- in `pool_rand`, before `pool_seed_era` -/
  | drawing (len : ℕ) (need : List ℕ)
  /-- before `rand_fetch` -/
  | seeding (len : ℕ) (need : List ℕ) (era : UInt32) (k : ℕ)
  /-- after a `rand_fetch` that succeeded -/
  | seeded (len : ℕ) (need : List ℕ) (era : UInt32) (k : ℕ) (key : Key)
  /-- after `pool_seed_if_needed` -/
  | serving (len : ℕ) (need : List ℕ) (k : ℕ)
  /-- in `futils_random_reseed`, before `pool_seed_era_new` -/
  | reseeding
  /-- before `rand_fetch` -/
  | fetching (era : UInt32) (k : ℕ)
  /-- after a `rand_fetch` that succeeded -/
  | fetched (era : UInt32) (k : ℕ) (key : Key)
  /-- before the return, in either case -/
  | returning (k : ℕ)

/-- A thread: `read` counts the increments that the last draw saw, and `recorded` those up to the era of
the pool. -/
structure Thread where
  state : State
  pc : Pc
  read : Option ℕ
  recorded : Option ℕ

/-- A draw that was served: the reseeds that had returned when it started, the fetched keys that the
pool's key was made from, and the bytes. -/
structure Served where
  need : List ℕ
  origins : Finset ℕ
  out : List Cell

structure Sys (ι : Type) where
  era : UInt32
  count : ℕ
  threads : ι → Thread
  returned : List ℕ
  served : List Served
  aborted : Bool

/-- A pool of a thread that was just started. -/
def zeroPool : State := ⟨⟨⟨Vector.replicate 16 0, ∅⟩, 0, 0, fun _ => .zero⟩, 0, []⟩

def Sys.start (ι : Type) : Sys ι := ⟨eraOf 0, 0, fun _ => ⟨zeroPool, .idle, none, none⟩, [], [], false⟩

inductive Act (ι : Type)
  /-- a thread calls a function that draws `len` bytes -/
  | draw (i : ι) (len : ℕ)
  /-- a thread calls `futils_random_reseed` -/
  | reseed (i : ι)
  /-- a call of `rand_fetch`, and what it does -/
  | fetch (i : ι) (result : Except ℕ+ (Mem UInt8))
  /-- a thread goes on -/
  | go (i : ι)

variable {ι : Type} [DecidableEq ι]

/-- Thread `i` becomes `t`. -/
def Sys.set (s : Sys ι) (i : ι) (t : Thread) : Sys ι :=
  { s with threads := Function.update s.threads i t }

/-- A thread goes on. -/
def goStep (s : Sys ι) (i : ι) : Option (Sys ι) :=
  let t := s.threads i
  match t.pc with
  | .drawing len need =>
    if t.state.pool.era = s.era then some (s.set i { t with pc := .serving len need s.count })
    else some (s.set i { t with pc := .seeding len need s.era s.count })
  | .seeded len need era k key =>
    some (s.set i { t with
      state := { t.state with pool := (poolSeed t.state.pool era (.ok key)).2 }
      pc := .serving len need k
      recorded := some k })
  | .serving len need k =>
    match poolServe t.state len with
    | .error _ => some { s with aborted := true }
    | .ok (out, state) =>
      let s := { s with served := ⟨need, t.state.pool.chacha.origins, out⟩ :: s.served }
      some (s.set i { t with state := state, pc := .idle, read := some k })
  | .reseeding =>
    let s := { s with era := s.era + 2, count := s.count + 1 }
    some (s.set i { t with pc := .fetching s.era s.count })
  | .fetched era k key =>
    some (s.set i { t with
      state := { t.state with pool := (poolReseed t.state.pool era (.ok key)).2 }
      pc := .returning k
      recorded := some k })
  | .returning k => some ({ s with returned := k :: s.returned }.set i { t with pc := .idle })
  | _ => none

/-- `rand_fetch` gives `bytes`, or fails. -/
def fetchStep (s : Sys ι) (i : ι) (result : Except ℕ+ (Mem UInt8)) : Option (Sys ι) :=
  let t := s.threads i
  match t.pc, result with
  | .seeding _ _ _ _, .error _ => some { s with aborted := true }
  | .seeding len need era k, .ok bytes =>
    some (s.set i { t with pc := .seeded len need era k ⟨bytes, s.count⟩ })
  | .fetching _ k, .error _ => some (s.set i { t with pc := .returning k })
  | .fetching era k, .ok bytes => some (s.set i { t with pc := .fetched era k ⟨bytes, s.count⟩ })
  | _, _ => none

/-- One step of the threads; after an `abort` there is none. -/
def sysStep (s : Sys ι) (a : Act ι) : Option (Sys ι) :=
  if s.aborted then none
  else
    match a with
    | .draw i len =>
      match (s.threads i).pc with
      | .idle => some (s.set i { s.threads i with pc := .drawing len s.returned })
      | _ => none
    | .reseed i =>
      match (s.threads i).pc with
      | .idle => some (s.set i { s.threads i with pc := .reseeding })
      | _ => none
    | .fetch i result => fetchStep s i result
    | .go i => goStep s i

/-- The draw that now reads the era comes less than `2 ^ 31` reseeds after the one before it. -/
def SinceDraw (s : Sys ι) (a : Act ι) : Prop :=
  ∀ i len need, a = .go i → (s.threads i).pc = .drawing len need →
    ∀ r, (s.threads i).read = some r → s.count - r < 2 ^ 31

/-- The same, and a first draw comes less than `2 ^ 31` reseeds after the thread's own last one. -/
def SinceSeed (s : Sys ι) (a : Act ι) : Prop :=
  SinceDraw s a ∧
    ∀ i len need, a = .go i → (s.threads i).pc = .drawing len need → (s.threads i).read = none →
      ∀ k, (s.threads i).recorded = some k → s.count - k < 2 ^ 31

end Futils.Random
