import Futils.Errno
import Futils.Lib.BaseN
import Futils.Lib.CString

/-!
# Random texts (`src/random.c`)

`futils_random_base16`, `futils_random_base32` and `futils_random_base64`.  The pool is the list of the
numbers that it gives next; a function is `none` when they run out.  The loops return what they write
from the start of the buffer on.
-/

namespace Futils.Random

open Futils.Lib

def INT_MAX : ℕ := 2147483647

def SIZE_MAX : ℕ := 18446744073709551615

def base16Alphabet : List UInt8 :=
  chars ['0', '1', '2', '3', '4', '5', '6', '7', '8', '9', 'a', 'b', 'c', 'd', 'e', 'f']

def base32Alphabet : List UInt8 :=
  chars ['A', 'B', 'C', 'D', 'E', 'F', 'G', 'H', 'I', 'J', 'K', 'L', 'M', 'N', 'O', 'P', 'Q', 'R', 'S',
    'T', 'U', 'V', 'W', 'X', 'Y', 'Z', '2', '3', '4', '5', '6', '7']

def base64Alphabet : List UInt8 :=
  chars ['A', 'B', 'C', 'D', 'E', 'F', 'G', 'H', 'I', 'J', 'K', 'L', 'M', 'N', 'O', 'P', 'Q', 'R', 'S',
    'T', 'U', 'V', 'W', 'X', 'Y', 'Z',
    'a', 'b', 'c', 'd', 'e', 'f', 'g', 'h', 'i', 'j', 'k', 'l', 'm', 'n', 'o', 'p', 'q', 'r', 's',
    't', 'u', 'v', 'w', 'x', 'y', 'z',
    '0', '1', '2', '3', '4', '5', '6', '7', '8', '9', '+', '/']

/-- The character that pads a text. -/
def PAD : UInt8 := ch '='

variable {w : ℕ}

/-- `alphabet[i]` -/
def charAt (alphabet : List UInt8) (i : BitVec w) : UInt8 := alphabet.getD i.toNat 0

/-- The loops over the characters of a number: the characters, and what is left of the number. -/
def charsLoop (alphabet : List UInt8) (mask : BitVec w) (shift : ℕ) :
    ℕ → BitVec w → List UInt8 × BitVec w
  | 0, v => ([], v)
  | n + 1, v =>
    let rest := charsLoop alphabet mask shift n (v >>> shift)
    (charAt alphabet (v &&& mask) :: rest.1, rest.2)

/-! ### Base 16 -/

/-- The loop and the characters after it, `ps` in all. -/
def base16Loop : ℕ → List (BitVec 64) → Option (List UInt8 × List (BitVec 64))
  | ps, [] => if ps = 0 then some ([], []) else none
  | ps, v :: pool =>
    if ps ≥ 16 then
      (base16Loop (ps - 16) pool).map fun rest =>
        ((charsLoop base16Alphabet 15 4 16 v).1 ++ rest.1, rest.2)
    else if ps ≠ 0 then some ((charsLoop base16Alphabet 15 4 ps v).1, pool)
    else some ([], v :: pool)

def futilsRandomBase16 (pool : List (BitVec 64)) (buffer : Mem UInt8) (len count : ℕ) :
    Option (ℤ × Mem UInt8 × List (BitVec 64)) :=
  if count > (INT_MAX + 1) / 2 then some (-EINVAL, buffer, pool)
  else if count * 2 > INT_MAX then some (-EINVAL, buffer, pool)
  else if len = 0 then some ((count * 2 : ℕ), buffer, pool)
  else
    match base16Loop (min (count * 2) (len - 1)) pool with
    | none => none
    | some (text, pool) => some ((count * 2 : ℕ), buffer.store 0 (text ++ [0]), pool)

/-! ### Base 32 and base 64 -/

/-- The last blob of a text of blobs of `blob` characters of `bits` bits each: `i` whole characters of
the `c` bytes, one that is cut off, and padding. -/
def lastBlob (alphabet : List UInt8) (bits shift blob c : ℕ) (mask v : BitVec w) : List UInt8 :=
  let i := c * 8 / bits
  let whole := charsLoop alphabet mask shift i v
  let remaining := c * 8 - i * bits
  let cut : BitVec 32 := ~~~((1 <<< (bits - remaining)) - 1)
  whole.1 ++ [charAt alphabet (whole.2 &&& mask &&& cut.setWidth w)] ++
    List.replicate (blob - (i + 1)) PAD

def base32Blob (v : BitVec 64) : List UInt8 :=
  [0, 5, 10, 15, 20, 25, 30, 35].map fun k => charAt base32Alphabet (v >>> k &&& 31)

def base32LastBlob (c : ℕ) (v : BitVec 64) : List UInt8 := lastBlob base32Alphabet 5 5 8 c 31 v

def base64Blob (v : BitVec 32) : List UInt8 :=
  [0, 6, 12, 18].map fun k => charAt base64Alphabet (v >>> k &&& 63)

def base64LastBlob (c : ℕ) (v : BitVec 32) : List UInt8 := lastBlob base64Alphabet 6 3 4 c 63 v

/-- The loop over the blobs for `bytes` bytes each, and the last blob: `c` bytes to go, in `ps`
characters at most. -/
def blobLoop (blob : BitVec w → List UInt8) (lastBlob : ℕ → BitVec w → List UInt8) (bytes : ℕ) :
    ℕ → ℕ → List (BitVec w) → Option (List UInt8 × List (BitVec w))
  | c, ps, [] => if c = 0 ∨ ps = 0 then some ([], []) else none
  | c, ps, v :: pool =>
    if c ≥ bytes ∧ ps ≠ 0 then
      let b := (blob v).take ps
      (blobLoop blob lastBlob bytes (c - bytes) (ps - b.length) pool).map fun rest =>
        (b ++ rest.1, rest.2)
    else if c ≠ 0 ∧ ps ≠ 0 then some ((lastBlob c v).take ps, pool)
    else some ([], v :: pool)

def futilsRandomBase32 (pool : List (BitVec 64)) (buffer : Mem UInt8) (len count : ℕ) :
    Option (ℤ × Mem UInt8 × List (BitVec 64)) :=
  if count > SIZE_MAX - 4 then some (-EINVAL, buffer, pool)
  else if (count + 4) / 5 > (INT_MAX + 7) / 8 then some (-EINVAL, buffer, pool)
  else if (count + 4) / 5 * 8 > INT_MAX then some (-EINVAL, buffer, pool)
  else if len = 0 then some (((count + 4) / 5 * 8 : ℕ), buffer, pool)
  else
    match blobLoop base32Blob base32LastBlob 5 count (min ((count + 4) / 5 * 8) (len - 1)) pool with
    | none => none
    | some (text, pool) => some (((count + 4) / 5 * 8 : ℕ), buffer.store 0 (text ++ [0]), pool)

def futilsRandomBase64 (pool : List (BitVec 32)) (buffer : Mem UInt8) (len count : ℕ) :
    Option (ℤ × Mem UInt8 × List (BitVec 32)) :=
  if count > SIZE_MAX - 2 then some (-EINVAL, buffer, pool)
  else if (count + 2) / 3 > (INT_MAX + 3) / 4 then some (-EINVAL, buffer, pool)
  else if (count + 2) / 3 * 4 > INT_MAX then some (-EINVAL, buffer, pool)
  else if len = 0 then some (((count + 2) / 3 * 4 : ℕ), buffer, pool)
  else
    match blobLoop base64Blob base64LastBlob 3 count (min ((count + 2) / 3 * 4) (len - 1)) pool with
    | none => none
    | some (text, pool) => some (((count + 2) / 3 * 4 : ℕ), buffer.store 0 (text ++ [0]), pool)

/-! ### Lengths -/

variable {alphabet : List UInt8} {mask v : BitVec w} {shift n c bits : ℕ}

lemma length_charsLoop : (charsLoop alphabet mask shift n v).1.length = n := by
  induction n generalizing v with
  | zero => rfl
  | succ n ih =>
    unfold charsLoop
    rw [List.length_cons, ih]

lemma length_lastBlob {blob : ℕ} (h : c * 8 / bits + 1 ≤ blob) :
    (lastBlob alphabet bits shift blob c mask v).length = blob := by
  unfold lastBlob
  rw [List.length_append, List.length_append, length_charsLoop, List.length_singleton,
    List.length_replicate]
  omega

end Futils.Random
