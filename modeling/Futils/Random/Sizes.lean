import Futils.Random.Strings

/-!
# Sizes do not wrap (`src/random.c`)

The four functions again, with every operation on `size_t` checked: they are `none` when a size is not the
number that it stands for.  They never are, and give what the functions on natural numbers give.
-/

namespace Futils.Random

open Futils.Lib

def szAdd (a b : ℕ) : Option ℕ := if a + b ≤ SIZE_MAX then some (a + b) else none

def szSub (a b : ℕ) : Option ℕ := if b ≤ a then some (a - b) else none

def szMul (a b : ℕ) : Option ℕ := if a * b ≤ SIZE_MAX then some (a * b) else none

variable {w a b c n ps bits bytes chars len count : ℕ} {v : BitVec w} {alphabet : List UInt8}

lemma szAdd_eq (h : a + b ≤ SIZE_MAX) : szAdd a b = some (a + b) := if_pos h

lemma szSub_eq (h : b ≤ a) : szSub a b = some (a - b) := if_pos h

lemma szMul_eq (h : a * b ≤ SIZE_MAX) : szMul a b = some (a * b) := if_pos h

/-- A function that returns, or runs out of draws. -/
abbrev Result (D : Type) := Option (ℤ × Mem UInt8 × List D)

/-- The space for the characters, when one is kept for the null character. -/
def roomSz (total len : ℕ) : Option ℕ := do
  let room ← szSub len 1
  some (if total > room then room else total)

/-- What the functions of the blobs have in common, when the size of the text is known. -/
def textSz {D : Type} (total : ℕ) (loop : ℕ → List D → Option (Option (List UInt8 × List D)))
    (pool : List D) (buffer : Mem UInt8) (len : ℕ) : Option (Result D) :=
  if total > INT_MAX then some (some (-EINVAL, buffer, pool))
  else if len = 0 then some (some ((total : ℤ), buffer, pool))
  else do
    let ps ← roomSz total len
    let text ← loop ps pool
    some (text.map fun r => ((total : ℤ), buffer.store 0 (r.1 ++ [0]), r.2))

/-! ### Base 16 -/

/-- Sixteen times `ps--` in a whole blob. -/
def base16LoopSz : ℕ → List (BitVec 64) → Option (Option (List UInt8 × List (BitVec 64)))
  | ps, [] => some (if ps = 0 then some ([], []) else none)
  | ps, v :: pool =>
    if ps ≥ 16 then do
      let left ← szSub ps 16
      let rest ← base16LoopSz left pool
      some (rest.map fun rest => ((charsLoop base16Alphabet 15 4 16 v).1 ++ rest.1, rest.2))
    else if ps ≠ 0 then some (some ((charsLoop base16Alphabet 15 4 ps v).1, pool))
    else some (some ([], v :: pool))

def futilsRandomBase16Sz (pool : List (BitVec 64)) (buffer : Mem UInt8) (len count : ℕ) :
    Option (Result (BitVec 64)) := do
  let most ← szAdd INT_MAX 1
  if count > most / 2 then some (some (-EINVAL, buffer, pool))
  else do
    let total ← szMul count 2
    textSz total base16LoopSz pool buffer len

/-! ### Base 32 and base 64 -/

def lastBlobSz (alphabet : List UInt8) (bits shift blob c : ℕ) (mask v : BitVec w) :
    Option (List UInt8) := do
  let all ← szMul c 8
  let i := all / bits
  let whole := charsLoop alphabet mask shift i v
  let taken ← szMul i bits
  let remaining ← szSub all taken
  let free ← szSub bits remaining
  let cut : BitVec 32 := ~~~((1 : BitVec 32) <<< free - 1)
  some (whole.1 ++ [charAt alphabet (whole.2 &&& mask &&& cut.setWidth w)] ++
    List.replicate (blob - (i + 1)) PAD)

/-- `bs` characters of a blob are copied. -/
def blobLoopSz (blob : BitVec w → List UInt8) (lastBlob : ℕ → BitVec w → Option (List UInt8))
    (bytes : ℕ) : ℕ → ℕ → List (BitVec w) → Option (Option (List UInt8 × List (BitVec w)))
  | c, ps, [] => some (if c = 0 ∨ ps = 0 then some ([], []) else none)
  | c, ps, v :: pool =>
    if c ≥ bytes ∧ ps ≠ 0 then do
      let b := (blob v).take ps
      let left ← szSub ps b.length
      let rest ← szSub c bytes
      let text ← blobLoopSz blob lastBlob bytes rest left pool
      some (text.map fun rest => (b ++ rest.1, rest.2))
    else if c ≠ 0 ∧ ps ≠ 0 then do
      let b ← lastBlob c v
      let _ ← szSub ps (b.take ps).length
      some (some (b.take ps, pool))
    else some (some ([], v :: pool))

/-- What base 32 and base 64 have in common: `chars` characters for `bytes` bytes. -/
def blobsSz (blob : BitVec w → List UInt8) (lastBlob : ℕ → BitVec w → Option (List UInt8))
    (bytes chars : ℕ) (pool : List (BitVec w)) (buffer : Mem UInt8) (len count : ℕ) :
    Option (Result (BitVec w)) := do
  let most ← szSub SIZE_MAX (bytes - 1)
  if count > most then some (some (-EINVAL, buffer, pool))
  else do
    let up ← szAdd count (bytes - 1)
    let most ← szAdd INT_MAX (chars - 1)
    if up / bytes > most / chars then some (some (-EINVAL, buffer, pool))
    else do
      let total ← szMul (up / bytes) chars
      textSz total (blobLoopSz blob lastBlob bytes count) pool buffer len

def futilsRandomBase32Sz : List (BitVec 64) → Mem UInt8 → ℕ → ℕ → Option (Result (BitVec 64)) :=
  blobsSz base32Blob (fun c v => lastBlobSz base32Alphabet 5 5 8 c 31 v) 5 8

def futilsRandomBase64Sz : List (BitVec 32) → Mem UInt8 → ℕ → ℕ → Option (Result (BitVec 32)) :=
  blobsSz base64Blob (fun c v => lastBlobSz base64Alphabet 6 3 4 c 63 v) 3 4

/-! ### Strings -/

def stringLoopSz (alphabet : CString) : ℕ → List (Mem UInt8) → Option (Outcome (List UInt8))
  | 0, pool => some (.value [] pool)
  | ps + 1, pool => do
    let maximum ← szSub alphabet.strlen 1
    match poolRandSizeMaximum (BitVec.ofNat 64 maximum) pool with
    | .value r pool => do
      let text ← stringLoopSz alphabet ps pool
      some (text.map (alphabet.mem r.toNat :: ·))
    | .starved => some .starved
    | .abort => some .abort

def futilsRandomStringSz (pool : List (Mem UInt8)) (buffer : Mem UInt8) (len count : ℕ)
    (alphabet : CString) : Option (Outcome (ℤ × Mem UInt8)) :=
  if count > INT_MAX then some (.value (-EINVAL, buffer) pool)
  else if len = 0 then
    if alphabet.strlen = 0 then some (.value (0, buffer) pool)
    else some (.value ((count : ℤ), buffer) pool)
  else if alphabet.strlen = 0 then some (.value (0, buffer.store 0 [0]) pool)
  else do
    let ps ← roomSz count len
    let text ← stringLoopSz alphabet ps pool
    some (text.map fun text => ((count : ℤ), buffer.store 0 (text ++ [0])))

/-! ### Nothing wraps -/

lemma roomSz_eq (total : ℕ) (hlen : len ≠ 0) : roomSz total len = some (min total (len - 1)) := by
  unfold roomSz
  rw [szSub_eq (Nat.one_le_iff_ne_zero.mpr hlen), Option.bind_eq_bind, Option.bind_some]
  congr 1
  split_ifs <;> omega

lemma base16LoopSz_eq (ps : ℕ) (pool : List (BitVec 64)) :
    base16LoopSz ps pool = some (base16Loop ps pool) := by
  induction pool generalizing ps with
  | nil => rfl
  | cons v pool ih =>
    unfold base16LoopSz base16Loop
    split_ifs with hwhole
    · rw [szSub_eq hwhole, Option.bind_eq_bind, Option.bind_some, ih]
      rfl
    · rfl
    · rfl

lemma lastBlobSz_eq (shift blob : ℕ) (mask : BitVec w) (hbits : 0 < bits) (hc : c ≤ INT_MAX) :
    lastBlobSz alphabet bits shift blob c mask v = some (lastBlob alphabet bits shift blob c mask v) := by
  have hdiv := Nat.div_mul_le_self (c * 8) bits
  have hmod := Nat.lt_div_mul_add hbits (a := c * 8)
  have hsize : c * 8 ≤ SIZE_MAX := by
    unfold SIZE_MAX
    unfold INT_MAX at hc
    omega
  unfold lastBlobSz
  simp only [Option.bind_eq_bind]
  rw [szMul_eq hsize, Option.bind_some, szMul_eq (hdiv.trans hsize), Option.bind_some, szSub_eq hdiv, Option.bind_some,
    szSub_eq (by omega), Option.bind_some]
  rfl

lemma blobLoopSz_eq {blob : BitVec w → List UInt8} {lastSz : ℕ → BitVec w → Option (List UInt8)}
    {last : ℕ → BitVec w → List UInt8} (hlast : ∀ c < bytes, ∀ v, lastSz c v = some (last c v)) (c ps : ℕ)
    (pool : List (BitVec w)) :
    blobLoopSz blob lastSz bytes c ps pool = some (blobLoop blob last bytes c ps pool) := by
  induction pool generalizing c ps with
  | nil => rfl
  | cons v pool ih =>
    unfold blobLoopSz blobLoop
    split_ifs with hwhole hpart
    · have hcopied : ((blob v).take ps).length ≤ ps := by
        rw [List.length_take]
        omega
      dsimp only
      rw [szSub_eq hcopied, Option.bind_eq_bind, Option.bind_some, szSub_eq hwhole.1,
        Option.bind_eq_bind, Option.bind_some, ih]
      rfl
    · have hlt : c < bytes := by
        by_contra! hge
        exact hwhole ⟨hge, hpart.2⟩
      have hcopied : ((last c v).take ps).length ≤ ps := by
        rw [List.length_take]
        omega
      rw [hlast c hlt, Option.bind_eq_bind, Option.bind_some, szSub_eq hcopied]
      rfl
    · rfl

lemma textSz_eq {D : Type} {total : ℕ} {loopSz : ℕ → List D → Option (Option (List UInt8 × List D))}
    {loop : ℕ → List D → Option (List UInt8 × List D)} (hloop : ∀ ps pool, loopSz ps pool = some (loop ps pool))
    (pool : List D) (buffer : Mem UInt8) (len : ℕ) :
    textSz total loopSz pool buffer len = some (snprintfText total total loop pool buffer len) := by
  unfold textSz snprintfText
  split_ifs with hmax hlen
  · rfl
  · rfl
  · rw [roomSz_eq total hlen, Option.bind_eq_bind, Option.bind_some, hloop]
    rfl

/-! ### The functions -/

lemma futilsRandomBase16Sz_eq (pool : List (BitVec 64)) (buffer : Mem UInt8) (len count : ℕ) :
    futilsRandomBase16Sz pool buffer len count = some (futilsRandomBase16 pool buffer len count) := by
  rw [futilsRandomBase16_eq]
  unfold futilsRandomBase16Sz
  rw [szAdd_eq (by decide), Option.bind_eq_bind, Option.bind_some]
  split_ifs with hguard
  · have hmax : count * 2 > INT_MAX := by
      unfold INT_MAX at hguard ⊢
      omega
    rw [snprintfText_invalid hmax]
  · have hsize : count * 2 ≤ SIZE_MAX := by
      unfold INT_MAX at hguard
      unfold SIZE_MAX
      omega
    rw [szMul_eq hsize, Option.bind_some, textSz_eq base16LoopSz_eq]

lemma blobsSz_eq {blob : BitVec w → List UInt8} {lastSz : ℕ → BitVec w → Option (List UInt8)}
    {last : ℕ → BitVec w → List UInt8} (hguards : Guards bytes chars)
    (hlast : ∀ c < bytes, ∀ v, lastSz c v = some (last c v)) (pool : List (BitVec w))
    (buffer : Mem UInt8) (len count : ℕ) :
    blobsSz blob lastSz bytes chars pool buffer len count =
      some (snprintfText ((count + (bytes - 1)) / bytes * chars) ((count + (bytes - 1)) / bytes * chars)
        (blobLoop blob last bytes count) pool buffer len) := by
  unfold blobsSz
  simp only [Option.bind_eq_bind]
  rw [szSub_eq hguards.few.1, Option.bind_some]
  by_cases hcount : count > SIZE_MAX - (bytes - 1)
  · rw [if_pos hcount, snprintfText_invalid (hguards.count _ hcount)]
  have hup : count + (bytes - 1) ≤ SIZE_MAX := Nat.add_le_of_le_sub hguards.few.1 (Nat.not_lt.mp hcount)
  rw [if_neg hcount, szAdd_eq hup, Option.bind_some, szAdd_eq hguards.few.2, Option.bind_some]
  by_cases hblobs : (count + (bytes - 1)) / bytes > (INT_MAX + (chars - 1)) / chars
  · rw [if_pos hblobs, snprintfText_invalid (hguards.blobs _ hblobs)]
  rw [if_neg hblobs, szMul_eq (hguards.total _ hblobs), Option.bind_some,
    textSz_eq (blobLoopSz_eq hlast count)]

lemma futilsRandomBase32Sz_eq (pool : List (BitVec 64)) (buffer : Mem UInt8) (len count : ℕ) :
    futilsRandomBase32Sz pool buffer len count = some (futilsRandomBase32 pool buffer len count) := by
  rw [futilsRandomBase32_eq]
  refine blobsSz_eq guards_base32 (fun c hc v => ?_) pool buffer len count
  refine lastBlobSz_eq 5 8 31 (Nat.succ_pos 4) ?_
  unfold INT_MAX
  omega

lemma futilsRandomBase64Sz_eq (pool : List (BitVec 32)) (buffer : Mem UInt8) (len count : ℕ) :
    futilsRandomBase64Sz pool buffer len count = some (futilsRandomBase64 pool buffer len count) := by
  rw [futilsRandomBase64_eq]
  refine blobsSz_eq guards_base64 (fun c hc v => ?_) pool buffer len count
  refine lastBlobSz_eq 3 4 63 (Nat.succ_pos 5) ?_
  unfold INT_MAX
  omega

lemma stringLoopSz_eq {alphabet : CString} (hne : alphabet.strlen ≠ 0) (ps : ℕ)
    (pool : List (Mem UInt8)) :
    stringLoopSz alphabet ps pool = some (stringLoop alphabet ps pool) := by
  induction ps generalizing pool with
  | zero => rfl
  | succ ps ih =>
    unfold stringLoopSz
    rw [szSub_eq (Nat.one_le_iff_ne_zero.mpr hne), Option.bind_eq_bind, Option.bind_some]
    unfold stringLoop
    cases poolRandSizeMaximum (BitVec.ofNat 64 (alphabet.strlen - 1)) pool with
    | value r pool =>
      dsimp only
      rw [ih]
      rfl
    | starved => rfl
    | abort => rfl

lemma futilsRandomStringSz_eq (pool : List (Mem UInt8)) (buffer : Mem UInt8) (len count : ℕ)
    (alphabet : CString) : futilsRandomStringSz pool buffer len count alphabet =
      some (futilsRandomString pool buffer len count alphabet) := by
  unfold futilsRandomStringSz futilsRandomString
  split_ifs with hmax hlen hnone hnone
  · rfl
  · rfl
  · rfl
  · rfl
  · rw [roomSz_eq count hlen, Option.bind_eq_bind, Option.bind_some, stringLoopSz_eq hnone]
    rfl

end Futils.Random
