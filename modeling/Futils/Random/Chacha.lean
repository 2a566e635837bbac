import Futils.Lib.Mem

/-!
# The keystream of the random pool (`src/random.c`)

ChaCha20 as it is in the file: the block function, the state and the stream of bytes.
-/

namespace Futils.Random

open Futils.Lib

def rotl (x : UInt32) (k : UInt32) : UInt32 := (x <<< k) ||| (x >>> (32 - k))

/-- `read_32le`, from the address `d`. -/
def read32le (m : Mem UInt8) (d : ℕ) : UInt32 :=
  (m d).toUInt32 ||| (m (d + 1)).toUInt32 <<< 8 ||| (m (d + 2)).toUInt32 <<< 16 |||
    (m (d + 3)).toUInt32 <<< 24

/-- The four bytes that `write_32le` writes. -/
def write32le (v : UInt32) : List UInt8 :=
  [v.toUInt8, (v >>> 8).toUInt8, (v >>> 16).toUInt8, (v >>> 24).toUInt8]

def CHACHA_KEY_NONCE_SIZE : ℕ := 44

def CHACHA_BLOCK_SIZE : ℕ := 64

def CHACHA_ROUNDS : ℕ := 20

/-- The words of a state. -/
abbrev Words := Vector UInt32 16

def chachaQuarterround (x : Words) (a b c d : Fin 16) : Words :=
  let x := x.set a (x[a] + x[b])
  let x := x.set d (rotl (x[d] ^^^ x[a]) 16)
  let x := x.set c (x[c] + x[d])
  let x := x.set b (rotl (x[b] ^^^ x[c]) 12)
  let x := x.set a (x[a] + x[b])
  let x := x.set d (rotl (x[d] ^^^ x[a]) 8)
  let x := x.set c (x[c] + x[d])
  x.set b (rotl (x[b] ^^^ x[c]) 7)

/-- The body of the loop over the rounds, of which it makes two. -/
def chachaDoubleround (x : Words) : Words :=
  let x := chachaQuarterround x 0 4 8 12
  let x := chachaQuarterround x 1 5 9 13
  let x := chachaQuarterround x 2 6 10 14
  let x := chachaQuarterround x 3 7 11 15
  let x := chachaQuarterround x 0 5 10 15
  let x := chachaQuarterround x 1 6 11 12
  let x := chachaQuarterround x 2 7 8 13
  chachaQuarterround x 3 4 9 14

def chachaBlock (x : Words) : List UInt8 :=
  let y := chachaDoubleround^[CHACHA_ROUNDS / 2] x
  (Vector.zipWith (· + ·) y x).toList.flatMap write32le

/-- The words for the key and the nonce at `k`, after the constant `"expand 32-byte k"`. -/
def chachaWords (k : Mem UInt8) : Words :=
  #v[0x61707865, 0x3320646e, 0x79622d32, 0x6b206574,
    read32le k 0, read32le k 4, read32le k 8, read32le k 12,
    read32le k 16, read32le k 20, read32le k 24, read32le k 28,
    0,
    read32le k 32, read32le k 36, read32le k 40]

/-- One block of the keystream, and the words with the counter after it. -/
def chachaGet (x : Words) : List UInt8 × Words := (chachaBlock x, x.set 12 (x[12] + 1))

/-- The loop over the full blocks, of which there are `n`. -/
def chachaBlocks : ℕ → Words → List UInt8 × Words
  | 0, x => ([], x)
  | n + 1, x =>
    let block := chachaGet x
    let rest := chachaBlocks n block.2
    (block.1 ++ rest.1, rest.2)

/-- The bytes that `chacha_keystream` writes: full blocks, and the first bytes of one more. -/
def chachaBytes (x : Words) (len : ℕ) : List UInt8 × Words :=
  let full := chachaBlocks (len / CHACHA_BLOCK_SIZE) x
  let len := len % CHACHA_BLOCK_SIZE
  if len ≠ 0 then
    let tmp := chachaGet full.2
    (full.1 ++ tmp.1.take len, tmp.2)
  else full

/-! ### How many bytes there are -/

lemma length_chachaBlock (x : Words) : (chachaBlock x).length = CHACHA_BLOCK_SIZE := by
  have hall : ∀ l : List UInt32, (l.flatMap write32le).length = 4 * l.length := by
    intro l
    induction l with
    | nil => rfl
    | cons v l ih =>
      rw [List.flatMap_cons, List.length_append, ih, List.length_cons]
      simp only [write32le, List.length_cons, List.length_nil]
      omega
  unfold chachaBlock
  rw [hall, Vector.length_toList]
  rfl

lemma length_chachaBlocks (n : ℕ) (x : Words) :
    (chachaBlocks n x).1.length = CHACHA_BLOCK_SIZE * n := by
  induction n generalizing x with
  | zero => rfl
  | succ n ih =>
    unfold chachaBlocks chachaGet
    rw [List.length_append, ih, length_chachaBlock, Nat.mul_succ, Nat.add_comm]

/-- **As many bytes are written as were asked for.** -/
theorem length_chachaBytes (x : Words) (len : ℕ) : (chachaBytes x len).1.length = len := by
  have hlen := Nat.div_add_mod len CHACHA_BLOCK_SIZE
  have hlt : len % CHACHA_BLOCK_SIZE < CHACHA_BLOCK_SIZE := Nat.mod_lt _ (by decide)
  unfold chachaBytes chachaGet
  dsimp only
  split_ifs with h
  · rw [List.length_append, List.length_take, length_chachaBlocks, length_chachaBlock]
    omega
  · rw [length_chachaBlocks]
    omega

end Futils.Random
