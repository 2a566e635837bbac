import Futils.Lib.LittleEndian
import Futils.Lib.Mixing
import Futils.Random.Chacha
import Mathlib.Logic.Function.Iterate
import Mathlib.Tactic.IntervalCases

/-!
# The blocks of a keystream

`chacha_keystream` writes the blocks of the counters `0`, `1`, and so on.  The rounds only mix words in ways that
lose nothing: so what two blocks are made of, before the words of the state are added once more, is different
unless the key, the nonce and the counter are the same.
-/

namespace Futils.Random

open Futils.Lib

lemma counter_lt : 12 < 16 := by decide

def counterOf (x : Words) : UInt32 := x.get ⟨12, counter_lt⟩

/-- The words with another counter. -/
def counted (x : Words) (c : UInt32) : Words := x.set 12 c counter_lt

/-- The words of the block `n`. -/
def blockWords (k : Mem UInt8) (n : ℕ) : Words := counted (chachaWords k) (UInt32.ofNat n)

/-- The block that is `n` after that of `x`. -/
def nthBlock (x : Words) (n : ℕ) : List UInt8 := chachaBlock (counted x (counterOf x + UInt32.ofNat n))

/-- The loop over the rounds. -/
def rounds (x : Words) : Words := chachaDoubleround^[CHACHA_ROUNDS / 2] x

variable {k k' : Mem UInt8} {n n' len : ℕ} {x : Words} {c c' : UInt32}

/-! ### The counter -/

lemma counterOf_counted (x : Words) (c : UInt32) : counterOf (counted x c) = c := Vector.getElem_set_self counter_lt

lemma get_counted_of_ne {j : Fin 16} (hj : j ≠ 12) : (counted x c).get j = x.get j :=
  Vector.getElem_set_ne counter_lt j.isLt fun h => hj (Fin.ext h.symm)

lemma counted_counterOf (x : Words) : counted x (counterOf x) = x := Vector.set_getElem_self counter_lt

lemma counted_counted : counted (counted x c) c' = counted x c' := Vector.set_set ..

lemma chachaGet_eq (x : Words) : chachaGet x = (chachaBlock x, counted x (counterOf x + 1)) := rfl

/-- The blocks from the counter of `x` on. -/
lemma chachaBlocks_eq (n : ℕ) (x : Words) :
    chachaBlocks n x = ((List.range n).flatMap (nthBlock x), counted x (counterOf x + UInt32.ofNat n)) := by
  have hzero : ∀ x : Words, counted x (counterOf x + UInt32.ofNat 0) = x := by
    intro x
    change counted x (counterOf x + 0) = x
    rw [UInt32.add_zero, counted_counterOf]
  induction n generalizing x with
  | zero =>
    rw [hzero]
    rfl
  | succ n ih =>
    have hnext : ∀ i, counted (counted x (counterOf x + 1)) (counterOf (counted x (counterOf x + 1)) + UInt32.ofNat i) =
        counted x (counterOf x + UInt32.ofNat (i + 1)) := by
      intro i
      rw [counted_counted, counterOf_counted, UInt32.ofNat_add, UInt32.add_assoc, UInt32.add_comm 1 (UInt32.ofNat i)]
      rfl
    unfold chachaBlocks
    rw [chachaGet_eq]
    dsimp only
    rw [ih, List.range_succ_eq_map, List.flatMap_cons, List.flatMap_map]
    unfold nthBlock
    simp only [hzero, hnext, Nat.succ_eq_add_one]

lemma length_flatMap_nthBlock (n : ℕ) (x : Words) :
    ((List.range n).flatMap (nthBlock x)).length = CHACHA_BLOCK_SIZE * n := by
  have hblocks := length_chachaBlocks n x
  rw [chachaBlocks_eq] at hblocks
  exact hblocks

/-- **The stream is cut from the blocks**, of which it takes all the bytes of the first ones. -/
lemma chachaBytes_eq (x : Words) (len : ℕ) :
    (chachaBytes x len).1 = ((List.range (len / CHACHA_BLOCK_SIZE + 1)).flatMap (nthBlock x)).take len := by
  obtain ⟨full, hfull⟩ : ∃ full, full = len / CHACHA_BLOCK_SIZE := ⟨_, rfl⟩
  have hsplit : len = CHACHA_BLOCK_SIZE * full + len % CHACHA_BLOCK_SIZE := by
    rw [hfull]
    exact (Nat.div_add_mod len CHACHA_BLOCK_SIZE).symm
  have htake : ((List.range (full + 1)).flatMap (nthBlock x)).take len =
      ((List.range full).flatMap (nthBlock x)) ++ (nthBlock x full).take (len % CHACHA_BLOCK_SIZE) := by
    rw [List.range_succ, List.flatMap_append, List.flatMap_singleton]
    nth_rewrite 1 [hsplit]
    rw [← length_flatMap_nthBlock full x, List.take_length_add_append]
  rw [← hfull, htake]
  unfold chachaBytes chachaGet
  dsimp only
  rw [← hfull, chachaBlocks_eq]
  split_ifs with hrest
  · rfl
  · rw [not_not.mp hrest, List.take_zero, List.append_nil]

/-- A shorter stream is the front of a longer one. -/
lemma take_chachaBytes (x : Words) {m len : ℕ} (h : m ≤ len) :
    (chachaBytes x len).1.take m = (chachaBytes x m).1 := by
  have hblocks : len / CHACHA_BLOCK_SIZE + 1 =
      m / CHACHA_BLOCK_SIZE + 1 + (len / CHACHA_BLOCK_SIZE - m / CHACHA_BLOCK_SIZE) := by
    have := Nat.div_le_div_right (c := CHACHA_BLOCK_SIZE) h
    omega
  have hlong : m ≤ ((List.range (m / CHACHA_BLOCK_SIZE + 1)).flatMap (nthBlock x)).length := by
    rw [length_flatMap_nthBlock]
    exact (Nat.lt_mul_div_succ m (by decide)).le
  rw [chachaBytes_eq, chachaBytes_eq, List.take_take, Nat.min_eq_left h, hblocks, List.range_add, List.flatMap_append,
    List.take_append_of_le_length hlong]

/-! ### The rounds -/

lemma toBitVec_rotl (x k : UInt32) (hpos : 0 < k.toNat) (hlt : k.toNat < 32) :
    (rotl x k).toBitVec = x.toBitVec <<< k.toNat ||| x.toBitVec >>> (32 - k.toNat) := by
  have hsub : (32 - k).toNat = 32 - k.toNat := UInt32.toNat_sub_of_le _ _ (UInt32.le_iff_toNat_le.mpr hlt.le)
  refine BitVec.eq_of_toNat_eq ?_
  unfold rotl
  rw [UInt32.toNat_toBitVec, UInt32.toNat_or, UInt32.toNat_shiftLeft, UInt32.toNat_shiftRight, hsub,
    Nat.mod_eq_of_lt hlt, Nat.mod_eq_of_lt (show 32 - k.toNat < 32 by omega), BitVec.toNat_or, BitVec.toNat_shiftLeft,
    BitVec.toNat_ushiftRight, UInt32.toNat_toBitVec]

lemma rotl_injective {k : UInt32} (hpos : 0 < k.toNat) (hlt : k.toNat < 32) :
    Function.Injective fun x : UInt32 => rotl x k := by
  intro x y h
  have hbits := congrArg UInt32.toBitVec h
  simp only [toBitVec_rotl _ k hpos hlt] at hbits
  exact UInt32.toBitVec_inj.mp (or_shift_injective hlt.le hbits)

/-- **A quarter round loses nothing.** -/
lemma chachaQuarterround_injective (a b c d : Fin 16) (hne : a ≠ b ∧ d ≠ a ∧ c ≠ d ∧ b ≠ c) :
    Function.Injective fun x => chachaQuarterround x a b c d := by
  obtain ⟨hab, hda, hcd, hbc⟩ := hne
  have hadd : ∀ y : UInt32, Function.Injective fun x : UInt32 => x + y :=
    fun y _ _ h => (UInt32.add_left_inj y).mp h
  have hxor : ∀ k : UInt32, 0 < k.toNat → k.toNat < 32 → ∀ y,
      Function.Injective fun x : UInt32 => rotl (x ^^^ y) k :=
    fun k hpos hlt y _ _ h => (UInt32.xor_left_inj y).mp (rotl_injective hpos hlt h)
  have h16 := hxor 16 (by decide) (by decide)
  have h12 := hxor 12 (by decide) (by decide)
  have h8 := hxor 8 (by decide) (by decide)
  have h7 := hxor 7 (by decide) (by decide)
  have hfirst := (set_injective h12 hbc).comp <| (set_injective hadd hcd).comp <|
    (set_injective h16 hda).comp <| set_injective hadd hab
  have hsecond := (set_injective h7 hbc).comp <| (set_injective hadd hcd).comp <|
    (set_injective h8 hda).comp <| set_injective hadd hab
  exact hsecond.comp hfirst

/-- **The rounds lose nothing.** -/
lemma rounds_injective : Function.Injective rounds := by
  have hcolumns := (chachaQuarterround_injective 3 7 11 15 (by decide)).comp <|
    (chachaQuarterround_injective 2 6 10 14 (by decide)).comp <|
    (chachaQuarterround_injective 1 5 9 13 (by decide)).comp <| chachaQuarterround_injective 0 4 8 12 (by decide)
  have hdiagonals := (chachaQuarterround_injective 3 4 9 14 (by decide)).comp <|
    (chachaQuarterround_injective 2 7 8 13 (by decide)).comp <|
    (chachaQuarterround_injective 1 6 11 12 (by decide)).comp <| chachaQuarterround_injective 0 5 10 15 (by decide)
  have hdouble : Function.Injective chachaDoubleround := hdiagonals.comp hcolumns
  exact hdouble.iterate _

/-! ### The words of a block -/

/-- A byte is put above the bits of a word. -/
lemma toNat_or_byte {acc s : UInt32} (b : UInt8) (hacc : acc.toNat < 2 ^ s.toNat) (hs : s.toNat + 8 ≤ 32) :
    (acc ||| b.toUInt32 <<< s).toNat = acc.toNat + 2 ^ s.toNat * b.toNat ∧
      (acc ||| b.toUInt32 <<< s).toNat < 2 ^ (s.toNat + 8) := by
  have hb : b.toNat + 1 ≤ 2 ^ 8 := b.toNat_lt
  have hfit : b.toNat <<< s.toNat < 2 ^ 32 := by
    rw [Nat.shiftLeft_eq]
    calc b.toNat * 2 ^ s.toNat < 2 ^ 8 * 2 ^ s.toNat := Nat.mul_lt_mul_of_pos_right hb (Nat.two_pow_pos _)
      _ = 2 ^ (8 + s.toNat) := (pow_add 2 8 s.toNat).symm
      _ ≤ 2 ^ 32 := Nat.pow_le_pow_right (by decide) (by omega)
  have hsum : (acc ||| b.toUInt32 <<< s).toNat = acc.toNat + 2 ^ s.toNat * b.toNat := by
    rw [UInt32.toNat_or, UInt32.toNat_shiftLeft, UInt8.toNat_toUInt32, Nat.mod_eq_of_lt (show s.toNat < 32 by omega),
      Nat.mod_eq_of_lt hfit, Nat.or_comm, ← Nat.shiftLeft_add_eq_or_of_lt hacc, Nat.shiftLeft_eq, Nat.add_comm,
      Nat.mul_comm]
  refine ⟨hsum, ?_⟩
  rw [hsum, pow_add]
  calc acc.toNat + 2 ^ s.toNat * b.toNat < 2 ^ s.toNat + 2 ^ s.toNat * b.toNat := Nat.add_lt_add_right hacc _
    _ = 2 ^ s.toNat * (b.toNat + 1) := by rw [Nat.mul_succ, Nat.add_comm]
    _ ≤ 2 ^ s.toNat * 2 ^ 8 := Nat.mul_le_mul_left _ hb

lemma toNat_read32le (m : Mem UInt8) (d : ℕ) : (read32le m d).toNat = leNat (m.load d 4) := by
  have hfirst : (m d).toUInt32.toNat < 2 ^ 8 := (m d).toNat_lt
  obtain ⟨h₁, hlt₁⟩ := toNat_or_byte (s := 8) (m (d + 1)) hfirst (by decide)
  obtain ⟨h₂, hlt₂⟩ := toNat_or_byte (s := 16) (m (d + 2)) hlt₁ (by decide)
  obtain ⟨h₃, -⟩ := toNat_or_byte (s := 24) (m (d + 3)) hlt₂ (by decide)
  have hload : m.load d 4 = [m d, m (d + 1), m (d + 2), m (d + 3)] := rfl
  unfold read32le
  rw [h₃, h₂, h₁, hload]
  simp only [leNat, UInt8.toNat_toUInt32, UInt32.reduceToNat]
  omega

/-- The four bytes are found again in the word. -/
lemma read32le_inj {d : ℕ} (h : read32le k d = read32le k' d) : ∀ i < 4, k (d + i) = k' (d + i) := by
  have hbytes : ∀ m : Mem UInt8, leBytes 4 (read32le m d).toNat = m.load d 4 := by
    intro m
    rw [toNat_read32le]
    exact leBytes_leNat (m.load d 4)
  have hload : k.load d 4 = k'.load d 4 := by rw [← hbytes k, h, hbytes k']
  intro i hi
  have hget := congrArg (fun l : List UInt8 => l[i]?) hload
  simpa [Mem.load, hi] using hget

/-- Only the bytes of the key are read. -/
lemma chachaWords_congr (h : ∀ i < CHACHA_KEY_NONCE_SIZE, k i = k' i) :
    chachaWords k = chachaWords k' := by
  have hword : ∀ d, d + 3 < CHACHA_KEY_NONCE_SIZE → read32le k d = read32le k' d := by
    intro d hd
    unfold read32le
    rw [h d (by omega), h (d + 1) (by omega), h (d + 2) (by omega), h (d + 3) hd]
  have h44 : CHACHA_KEY_NONCE_SIZE = 44 := rfl
  unfold chachaWords
  simp (disch := omega) only [hword]

/-- **The words tell the key and the nonce.** -/
lemma chachaWords_inj (h : ∀ j : Fin 16, j ≠ 12 → (chachaWords k).get j = (chachaWords k').get j) :
    ∀ i < CHACHA_KEY_NONCE_SIZE, k i = k' i := by
  -- the word of four bytes: the key is before the counter, and the nonce after it
  have hword : ∀ q < 11, read32le k (4 * q) = read32le k' (4 * q) := by
    intro q hq
    interval_cases q
    · exact h 4 (by decide)
    · exact h 5 (by decide)
    · exact h 6 (by decide)
    · exact h 7 (by decide)
    · exact h 8 (by decide)
    · exact h 9 (by decide)
    · exact h 10 (by decide)
    · exact h 11 (by decide)
    · exact h 13 (by decide)
    · exact h 14 (by decide)
    · exact h 15 (by decide)
  intro i hi
  have h44 : i < 44 := hi
  have hbyte := read32le_inj (hword (i / 4) (by omega)) (i % 4) (by omega)
  rwa [Nat.div_add_mod] at hbyte

/-- **The blocks are different** inside, unless the key, the nonce and the counter are the same. -/
lemma rounds_blockWords_eq_iff :
    rounds (blockWords k n) = rounds (blockWords k' n') ↔
      (∀ i < CHACHA_KEY_NONCE_SIZE, k i = k' i) ∧ n % 2 ^ 32 = n' % 2 ^ 32 := by
  unfold blockWords
  constructor
  · intro h
    have hwords := rounds_injective h
    have hget : ∀ j, (counted (chachaWords k) (UInt32.ofNat n)).get j =
        (counted (chachaWords k') (UInt32.ofNat n')).get j := fun j => congrArg (fun z : Words => z.get j) hwords
    refine ⟨chachaWords_inj fun j hj => ?_, ?_⟩
    · have hj' := hget j
      rwa [get_counted_of_ne hj, get_counted_of_ne hj] at hj'
    · have hcounter := congrArg counterOf hwords
      rw [counterOf_counted, counterOf_counted] at hcounter
      have hnat := congrArg UInt32.toNat hcounter
      rwa [UInt32.toNat_ofNat', UInt32.toNat_ofNat'] at hnat
  · rintro ⟨hk, hn⟩
    have hcounter : UInt32.ofNat n = UInt32.ofNat n' := by
      refine UInt32.toNat_inj.mp ?_
      rw [UInt32.toNat_ofNat', UInt32.toNat_ofNat', hn]
    rw [chachaWords_congr hk, hcounter]

/-- The block of the counter `n`. -/
lemma nthBlock_chachaWords (k : Mem UInt8) (n : ℕ) : nthBlock (chachaWords k) n = chachaBlock (blockWords k n) := by
  have hcounter : counterOf (chachaWords k) = 0 := rfl
  unfold nthBlock
  rw [hcounter, UInt32.zero_add, blockWords]

/-- **The keystream** is that of the blocks of the counters from `0` on, cut at its length, and no two blocks are the
same before the words of the state are added: not for another key or nonce, nor for another counter of 32 bits. -/
theorem keystream_of_blocks (k : Mem UInt8) (len : ℕ) :
    (chachaBytes (chachaWords k) len).1 =
        ((List.range (len / CHACHA_BLOCK_SIZE + 1)).flatMap fun n => chachaBlock (blockWords k n)).take len ∧
      ∀ (k' : Mem UInt8) (n n' : ℕ), rounds (blockWords k n) = rounds (blockWords k' n') ↔
        (∀ i < CHACHA_KEY_NONCE_SIZE, k i = k' i) ∧ n % 2 ^ 32 = n' % 2 ^ 32 := by
  refine ⟨?_, fun _ _ _ => rounds_blockWords_eq_iff⟩
  rw [chachaBytes_eq]
  simp only [funext (nthBlock_chachaWords k)]

end Futils.Random
