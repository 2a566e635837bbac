import Futils.Random.Draws

/-!
# The bytes of a random text

The characters that the loops write stand for the bits of their draws.  A last blob of base 64 is
shifted by three bits only from one character to the next, so that the characters of two bytes share
bits, while what is kept of those of one byte does not.
-/

namespace Futils.Random

open Futils.Lib

variable {w : ℕ} {alphabet : List UInt8} {mask v : BitVec w} {p : Format} {s shift n c count : ℕ}

/-! ### The characters of a number -/

/-- The characters for the digits. -/
def charsFor (alphabet : List UInt8) (ds : List ℕ) : List UInt8 := ds.map fun d => alphabet.getD d 0

lemma toNat_and_mask (hmask : mask.toNat = 2 ^ s - 1) : (v &&& mask).toNat = v.toNat % 2 ^ s := by
  rw [BitVec.toNat_and, hmask, Nat.and_two_pow_sub_one_eq_mod]

lemma charsLoop_fst (hmask : mask.toNat = 2 ^ s - 1) :
    (charsLoop alphabet mask shift n v).1 = charsFor alphabet (digits s shift n v.toNat) := by
  induction n generalizing v with
  | zero => rfl
  | succ n ih =>
    have hcons : (charsLoop alphabet mask shift (n + 1) v).1 =
        charAt alphabet (v &&& mask) :: (charsLoop alphabet mask shift n (v >>> shift)).1 := rfl
    rw [hcons, ih, charAt, toNat_and_mask hmask, BitVec.toNat_ushiftRight, Nat.shiftRight_eq_div_pow]
    rfl

lemma charsLoop_snd : (charsLoop alphabet mask shift n v).2.toNat = v.toNat / 2 ^ (shift * n) := by
  induction n generalizing v with
  | zero => rw [Nat.mul_zero, pow_zero, Nat.div_one]; rfl
  | succ n ih =>
    have hcons : (charsLoop alphabet mask shift (n + 1) v).2 =
        (charsLoop alphabet mask shift n (v >>> shift)).2 := rfl
    rw [hcons, ih, BitVec.toNat_ushiftRight, Nat.shiftRight_eq_div_pow, Nat.div_div_eq_div_mul, ← pow_add,
      Nat.mul_succ, Nat.add_comm]

lemma digits_succ_last {v : ℕ} :
    digits s shift (n + 1) v = digits s shift n v ++ [v / 2 ^ (shift * n) % 2 ^ s] := by
  induction n generalizing v with
  | zero => simp [digits]
  | succ n ih =>
    rw [digits, ih, digits, List.cons_append, Nat.div_div_eq_div_mul, ← pow_add, Nat.mul_succ,
      Nat.add_comm]

/-- The digits that a blob takes at fixed places. -/
lemma map_charAt {ks : List ℕ} (hmask : mask.toNat = 2 ^ s - 1)
    (hks : ks = (List.range n).map fun i => s * i) :
    (ks.map fun k => charAt alphabet (v >>> k &&& mask)) =
      charsFor alphabet (digits s s n v.toNat) := by
  subst hks
  induction n with
  | zero => rfl
  | succ n ih =>
    rw [List.range_succ, List.map_append, List.map_append, ih, digits_succ_last]
    unfold charsFor charAt
    rw [List.map_append]
    simp [toNat_and_mask hmask, Nat.shiftRight_eq_div_pow]

/-! ### Blobs -/

/-- What the mask of the last character leaves. -/
lemma testBit_cut {k i : ℕ} (hk : k < 8) (hi : i < 8) :
    (~~~((1 : BitVec 32) <<< k - 1)).toNat.testBit i = decide (k ≤ i) := by
  have hall : ∀ k < 8, ∀ i < 8,
      (~~~((1 : BitVec 32) <<< k - 1)).toNat.testBit i = decide (k ≤ i) := by decide
  exact hall k hk i hi

/-- The low `k` bits of a digit are cleared by the mask, and the others stay. -/
lemma bitsOf_cut {x k : ℕ} (hk : k ≤ s) (hs : s < 8) (hw : 8 ≤ w) :
    bitsOf s (x &&& (~~~((1 : BitVec 32) <<< k - 1)).toNat % 2 ^ w) =
      (bitsOf s x).take (s - k) ++ List.replicate k false := by
  have hbit : ∀ i < s, (x &&& (~~~((1 : BitVec 32) <<< k - 1)).toNat % 2 ^ w).testBit i =
      (x.testBit i && decide (k ≤ i)) := by
    intro i hi
    rw [Nat.testBit_and, Nat.testBit_mod_two_pow, testBit_cut (by omega) (by omega),
      decide_eq_true (show i < w by omega), Bool.true_and]
  rw [bitsOf_eq_append hk]
  · congr 1
    refine take_bitsOf_congr (Nat.sub_le s k) ?_
    intro i hi hki
    rw [hbit i hi, decide_eq_true (show k ≤ i by omega), Bool.and_true]
  · intro i hi
    rw [hbit i (by omega), decide_eq_false (by omega), Bool.and_false]

lemma Format.bits_pos (p : Format) : 0 < p.bits := by
  have hfits := p.fits
  have hpos := p.pos
  rcases Nat.eq_zero_or_pos p.bits with hzero | hpos
  · rw [hzero, Nat.zero_mul] at hfits
    omega
  · exact hpos

/-- The characters of `c` bytes fit in a blob. -/
lemma Format.last_le (hc : c < p.bytes) : c * 8 / p.bits + 1 ≤ p.chars := by
  refine Nat.succ_le_of_lt ((Nat.div_lt_iff_lt_mul p.bits_pos).mpr ?_)
  rw [Nat.mul_comm p.chars, p.fits]
  omega

/-- The last digit of `c` bytes. -/
def Format.lastDigit (p : Format) (c v : ℕ) : ℕ := v / 2 ^ (p.shift * (c * 8 / p.bits)) % 2 ^ p.bits

/-- The number of bits of the last character that stand for nothing. -/
def Format.free (p : Format) (c : ℕ) : ℕ := p.bits - c * 8 % p.bits

/-- The last character is the one of the last digit without its free bits. -/
lemma lastBlob_eq (hmask : mask.toNat = 2 ^ p.bits - 1) :
    lastBlob alphabet p.bits p.shift p.chars c mask v =
      charsFor alphabet (digits p.bits p.shift (c * 8 / p.bits) v.toNat ++
          [p.lastDigit c v.toNat &&& (~~~((1 : BitVec 32) <<< p.free c - 1)).toNat % 2 ^ w]) ++
        List.replicate (p.chars - (c * 8 / p.bits + 1)) PAD := by
  have hremaining : c * 8 - c * 8 / p.bits * p.bits = c * 8 % p.bits := by
    rw [Nat.mod_eq_sub_div_mul]
  have hdigit : (charsLoop alphabet mask p.shift (c * 8 / p.bits) v).2.toNat % 2 ^ p.bits =
      p.lastDigit c v.toNat := by
    rw [charsLoop_snd, Format.lastDigit]
  unfold lastBlob
  dsimp only
  rw [hremaining, charsLoop_fst hmask, charsFor, charsFor, List.map_append, charAt, BitVec.toNat_and,
    toNat_and_mask hmask, hdigit, BitVec.toNat_setWidth]
  rfl

/-- The bits of `c` bytes are those of the digits before the last one, and what the last one keeps. -/
lemma Format.lastBits_eq (p : Format) (c v : ℕ) :
    p.lastBits c v = digitBits p.bits (digits p.bits p.shift (c * 8 / p.bits) v) ++
      (Futils.Lib.bitsOf p.bits (p.lastDigit c v)).take (p.bits - p.free c) := by
  have hmod : c * 8 % p.bits < p.bits := Nat.mod_lt _ p.bits_pos
  have hsplit := Nat.div_add_mod' (c * 8) p.bits
  have hlen : (digitBits p.bits (digits p.bits p.shift (c * 8 / p.bits) v)).length = c * 8 / p.bits * p.bits := by
    rw [length_digitBits, length_digits, Nat.mul_comm]
  have hkept : 8 * c - c * 8 / p.bits * p.bits = p.bits - p.free c := by
    unfold free
    omega
  unfold lastBits
  rw [digits_succ_last, digitBits_append, digitBits_singleton, List.take_append, hlen, hkept,
    List.take_of_length_le (by omega), lastDigit]

/-- **The last blob** is the canonical text of its bytes. -/
lemma lastBlob_canonical (hmask : mask.toNat = 2 ^ p.bits - 1) (halphabet : alphabet.length = 2 ^ p.bits)
    (hbits : p.bits < 8) (hw : 8 ≤ w) (hc : c < p.bytes) (hrem : c * 8 % p.bits ≠ 0) :
    Canonical alphabet PAD p.bits p.chars (lastBlob alphabet p.bits p.shift p.chars c mask v) c
        (p.lastBits c v.toNat) := by
  have hmod : c * 8 % p.bits < p.bits := Nat.mod_lt _ p.bits_pos
  have hfree : p.free c < p.bits := by
    unfold Format.free
    omega
  have hchars : c * 8 / p.bits + 1 ≤ p.chars := p.last_le hc
  have hdigit : p.lastDigit c v.toNat < 2 ^ p.bits := Nat.mod_lt _ (Nat.two_pow_pos _)
  refine ⟨_, p.free c, _, lastBlob_eq hmask, ?_, ?_, ?_, hfree, ?_, ?_⟩
  · intro x hx
    rw [halphabet]
    rcases List.mem_append.mp hx with hx | hx
    · exact digits_lt hx
    · rw [List.mem_singleton.mp hx]
      exact Nat.and_le_left.trans_lt hdigit
  · rw [digitBits_append, digitBits_singleton, bitsOf_cut hfree.le hbits hw, Format.lastBits_eq,
      List.append_assoc]
  · exact Format.length_lastBits
  · exact Nat.sub_lt (Nat.zero_lt_of_lt hchars) (Nat.succ_pos _)
  · rw [List.length_append, length_digits, List.length_singleton, Nat.add_sub_cancel' hchars]

/-! ### Loops -/

lemma Format.chars_pos (p : Format) : 0 < p.chars := by
  have hfits := p.fits
  have hpos := p.pos
  rcases Nat.eq_zero_or_pos p.chars with h | h
  · rw [h, Nat.mul_zero] at hfits
    omega
  · exact h

/-- **The loop over the blobs** writes the canonical text of the bytes, and takes all the draws. -/
lemma blobLoop_canonical {blob : BitVec w → List UInt8} {last : ℕ → BitVec w → List UInt8}
    (halphabet : alphabet.length = 2 ^ p.bits)
    (hblob : ∀ v, blob v = charsFor alphabet (digits p.bits p.bits p.chars v.toNat))
    (hlast : ∀ c v, 0 < c → c < p.bytes →
      Canonical alphabet PAD p.bits p.chars (last c v) c (p.lastBits c v.toNat) ∧
        (last c v).length = p.chars)
    {draws : List (BitVec w)} (h : draws.length = p.draws count) :
    ∃ text, blobLoop blob last p.bytes count (p.draws count * p.chars) draws = some (text, []) ∧
      Canonical alphabet PAD p.bits p.chars text count (p.bitsOf count draws) ∧
      text.length = p.draws count * p.chars := by
  have hchars := p.chars_pos
  refine Format.draws_induction
    (motive := fun count draws => ∃ text,
      blobLoop blob last p.bytes count (p.draws count * p.chars) draws = some (text, []) ∧
        Canonical alphabet PAD p.bits p.chars text count (p.bitsOf count draws) ∧
        text.length = p.draws count * p.chars) ?_ ?_ ?_ h
  · refine ⟨[], rfl, .nil p.bits_pos hchars, ?_⟩
    rw [Format.draws_zero, Nat.zero_mul]
    rfl
  · intro c v hpos hlt
    obtain ⟨hcanon, hlen⟩ := hlast c v hpos hlt
    refine ⟨last c v, ?_, by rwa [Format.bitsOf_lt hlt], ?_⟩
    · rw [Format.draws_of_lt hpos hlt, Nat.one_mul, blobLoop, if_neg (by omega),
        if_pos ⟨hpos.ne', hchars.ne'⟩, ← hlen, List.take_length]
    · rw [hlen, Format.draws_of_lt hpos hlt, Nat.one_mul]
  · rintro c v draws hge hdraws ⟨text, hloop, hcanon, hlen⟩
    have hbloblen : (blob v).length = p.chars := by
      rw [hblob, charsFor, List.length_map, length_digits]
    refine ⟨blob v ++ text, ?_, ?_, ?_⟩
    · have htake : (blob v).take (p.draws c * p.chars) = blob v := by
        refine List.take_of_length_le ?_
        rw [hbloblen, Format.draws_of_ge hge]
        exact Nat.le_mul_of_pos_left _ (Nat.succ_pos _)
      have hps : p.draws c * p.chars - (blob v).length = p.draws (c - p.bytes) * p.chars := by
        rw [hbloblen, Format.draws_of_ge hge, Nat.succ_mul, Nat.add_sub_cancel]
      have hne : p.draws c * p.chars ≠ 0 := by
        rw [Format.draws_of_ge hge]
        exact (Nat.mul_pos (Nat.succ_pos _) hchars).ne'
      rw [blobLoop, if_pos ⟨hge, hne⟩]
      simp only [htake, hps, hloop, Option.map_some]
    · rw [Format.bitsOf_ge hge, ← Nat.add_sub_of_le hge, hblob]
      rw [Nat.add_sub_cancel_left]
      refine hcanon.append (fun d hd => ?_) ?_ ?_
      · rw [halphabet]
        exact digits_lt hd
      · rw [length_digits, p.fits]
      · rw [length_digits]
    · rw [List.length_append, hlen, hbloblen, Format.draws_of_ge hge, Nat.succ_mul, Nat.add_comm]

end Futils.Random
