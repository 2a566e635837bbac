import Futils.Lib.BitLength
import Futils.Lib.Mem

/-!
# Bounded random numbers (`src/random.c`)

`pool_rand8_maximum` to `pool_rand64_maximum`.  The pool is the list of what `pool_rand` would write,
one memory for each call, of which a call writes the first bytes.  The machine is little-endian.
-/

namespace Futils.Random

open Futils.Lib

/-! ### Bits -/

def p2minus1 (v : BitVec 64) : BitVec 64 :=
  let v := v ||| v >>> 1
  let v := v ||| v >>> 2
  let v := v ||| v >>> 4
  let v := v ||| v >>> 8
  let v := v ||| v >>> 16
  v ||| v >>> 32

/-- One `if` of `ilog2plus1`: `k + 1` bits are counted and shifted out, if there are that many. -/
def ilog2Step (k : ℕ) (x : ℕ × BitVec 64) : ℕ × BitVec 64 :=
  if x.2 ≥ (1 : BitVec 64) <<< k then (x.1 + (k + 1), x.2 >>> (k + 1)) else x

def ilog2plus1 (v : BitVec 64) : ℕ :=
  (ilog2Step 0 (ilog2Step 1 (ilog2Step 2 (ilog2Step 4 (ilog2Step 8 (ilog2Step 16
    (ilog2Step 32 (0, v)))))))).1

/-! ### Raw draws -/

variable {w : ℕ}

/-- An unsigned integer of `w` bits in memory. -/
def native (w : ℕ) (bytes : List UInt8) : BitVec w := BitVec.ofNat w (leNat bytes)

/-- `val |= (uint<w>_t)bytes[i] << 8 * i`, for each byte, from `bytes[i]` on. -/
def gather (w : ℕ) : ℕ → BitVec w → List UInt8 → BitVec w
  | _, val, [] => val
  | i, val, b :: bytes => gather w (i + 1) (val ||| BitVec.ofNat w b.toNat <<< (8 * i)) bytes

def poolRand8 : List UInt8 → BitVec 8 := native 8

def poolRand16 : List UInt8 → BitVec 16 := native 16

def poolRand24 : List UInt8 → BitVec 32 := gather 32 0 0

def poolRand32 : List UInt8 → BitVec 32 := native 32

def poolRand40 : List UInt8 → BitVec 64 := gather 64 0 0

def poolRand48 : List UInt8 → BitVec 64 := gather 64 0 0

def poolRand56 : List UInt8 → BitVec 64 := gather 64 0 0

def poolRand64 : List UInt8 → BitVec 64 := native 64

/-! ### Rejection -/

/-- A value with the draws that are left; or the draws ran out, or the program aborts. -/
inductive Outcome (α : Type)
  | value (val : α) (pool : List (Mem UInt8))
  | starved
  | abort

def Outcome.map {α β : Type} (f : α → β) : Outcome α → Outcome β
  | .value val pool => .value (f val) pool
  | .starved => .starved
  | .abort => .abort

/-- The loop of `_pool_rand_maximum`, which draws `n` bytes at a time. -/
def randMaximumLoop (n : ℕ) (rand : List UInt8 → BitVec w) (maximum mask : BitVec w) :
    List (Mem UInt8) → Outcome (BitVec w)
  | [] => .starved
  | raw :: pool =>
    let out := rand (raw.load 0 n)
    let out := out &&& mask
    if out > maximum then randMaximumLoop n rand maximum mask pool else .value out pool

/-- `_pool_rand8_maximum` -/
def randMaximum8 : BitVec 8 → BitVec 8 → List (Mem UInt8) → Outcome (BitVec 8) :=
  randMaximumLoop 1 poolRand8

def randMaximum16 : BitVec 16 → BitVec 16 → List (Mem UInt8) → Outcome (BitVec 16) :=
  randMaximumLoop 2 poolRand16

def randMaximum24 : BitVec 32 → BitVec 32 → List (Mem UInt8) → Outcome (BitVec 32) :=
  randMaximumLoop 3 poolRand24

def randMaximum32 : BitVec 32 → BitVec 32 → List (Mem UInt8) → Outcome (BitVec 32) :=
  randMaximumLoop 4 poolRand32

def randMaximum40 : BitVec 64 → BitVec 64 → List (Mem UInt8) → Outcome (BitVec 64) :=
  randMaximumLoop 5 poolRand40

def randMaximum48 : BitVec 64 → BitVec 64 → List (Mem UInt8) → Outcome (BitVec 64) :=
  randMaximumLoop 6 poolRand48

def randMaximum56 : BitVec 64 → BitVec 64 → List (Mem UInt8) → Outcome (BitVec 64) :=
  randMaximumLoop 7 poolRand56

def randMaximum64 : BitVec 64 → BitVec 64 → List (Mem UInt8) → Outcome (BitVec 64) :=
  randMaximumLoop 8 poolRand64

/-- A call with the arguments converted to `v` bits, and the result converted back. -/
def converted {v : ℕ} (f : BitVec v → BitVec v → List (Mem UInt8) → Outcome (BitVec v))
    (maximum mask : BitVec w) (pool : List (Mem UInt8)) : Outcome (BitVec w) :=
  (f (maximum.setWidth v) (mask.setWidth v) pool).map (BitVec.setWidth w)

/-- The `switch` on the number of bytes, which has the cases up to `top`. -/
def randMaximumSwitch (top : ℕ) (maximum mask : BitVec w) (pool : List (Mem UInt8)) (count : ℕ) :
    Outcome (BitVec w) :=
  if count > top then .abort
  else
    match count with
    | 0 => .value 0 pool
    | 1 => converted randMaximum8 maximum mask pool
    | 2 => converted randMaximum16 maximum mask pool
    | 3 => converted randMaximum24 maximum mask pool
    | 4 => converted randMaximum32 maximum mask pool
    | 5 => converted randMaximum40 maximum mask pool
    | 6 => converted randMaximum48 maximum mask pool
    | 7 => converted randMaximum56 maximum mask pool
    | 8 => converted randMaximum64 maximum mask pool
    | _ => .abort

/-- What the functions for more than 8 bits share. -/
def poolRandMaximum (top : ℕ) (maximum : BitVec w) (pool : List (Mem UInt8)) : Outcome (BitVec w) :=
  let mask := (p2minus1 (maximum.setWidth 64)).setWidth w
  let count := (ilog2plus1 (mask.setWidth 64) + 7) / 8
  randMaximumSwitch top maximum mask pool count

def poolRand8Maximum (maximum : BitVec 8) (pool : List (Mem UInt8)) : Outcome (BitVec 8) :=
  let mask := (p2minus1 (maximum.setWidth 64)).setWidth 8
  randMaximum8 maximum mask pool

def poolRand16Maximum : BitVec 16 → List (Mem UInt8) → Outcome (BitVec 16) := poolRandMaximum 2

def poolRand32Maximum : BitVec 32 → List (Mem UInt8) → Outcome (BitVec 32) := poolRandMaximum 4

def poolRand64Maximum : BitVec 64 → List (Mem UInt8) → Outcome (BitVec 64) := poolRandMaximum 8

/-- `size_t` has 64 bits. -/
def poolRandSizeMaximum : BitVec 64 → List (Mem UInt8) → Outcome (BitVec 64) := poolRand64Maximum

end Futils.Random
