import Mathlib.Data.Nat.Bitwise

/-!
# Numbers and bytes as bit strings

The bits of a number of a given width, the most significant one first, and the bytes that a bit string
is made of.
-/

namespace Futils.Lib

/-- The low `s` bits of `x`. -/
def bitsOf : ℕ → ℕ → List Bool
  | 0, _ => []
  | s + 1, x => x.testBit s :: bitsOf s x

/-- The number with these bits. -/
def ofBits : List Bool → ℕ
  | [] => 0
  | b :: bs => 2 ^ bs.length * b.toNat + ofBits bs

variable {s x y : ℕ} {bs cs : List Bool}

/-! ### The bits of a number -/

@[simp] lemma length_bitsOf : (bitsOf s x).length = s := by
  induction s with
  | zero => rfl
  | succ s ih => rw [bitsOf, List.length_cons, ih]

/-- The bits of a number depend on its low bits only. -/
lemma bitsOf_congr (h : ∀ i < s, x.testBit i = y.testBit i) : bitsOf s x = bitsOf s y := by
  induction s with
  | zero => rfl
  | succ s ih =>
    rw [bitsOf, bitsOf, h s s.lt_succ_self, ih fun i hi => h i (Nat.lt_succ_of_lt hi)]

/-- The leading bits of a number depend on its high bits only. -/
lemma take_bitsOf_congr {r : ℕ} (hr : r ≤ s)
    (h : ∀ i < s, s - r ≤ i → x.testBit i = y.testBit i) :
    (bitsOf s x).take r = (bitsOf s y).take r := by
  induction s generalizing r with
  | zero => rfl
  | succ s ih =>
    cases r with
    | zero => rfl
    | succ r =>
      rw [bitsOf, bitsOf, List.take_succ_cons, List.take_succ_cons,
        h s s.lt_succ_self (by omega), ih (by omega) fun i hi hri => h i (by omega) (by omega)]

/-- When the low `k` bits are zero, the others come first. -/
lemma bitsOf_eq_append {k : ℕ} (hk : k ≤ s) (h : ∀ i < k, x.testBit i = false) :
    bitsOf s x = (bitsOf s x).take (s - k) ++ List.replicate k false := by
  induction s generalizing k with
  | zero =>
    obtain rfl := Nat.le_zero.mp hk
    rfl
  | succ s ih =>
    rcases hk.lt_or_eq with hlt | rfl
    · have hle : k ≤ s := Nat.le_of_lt_succ hlt
      rw [bitsOf, Nat.succ_sub hle, List.take_succ_cons, List.cons_append, ← ih hle h]
    · have hzero : bitsOf s x = List.replicate s false := by
        simpa using ih le_rfl fun i hi => h i (Nat.lt_succ_of_lt hi)
      rw [Nat.sub_self, List.take_zero, List.nil_append, List.replicate_succ, bitsOf,
        h s s.lt_succ_self, hzero]

lemma bitsOf_xor : bitsOf s (x ^^^ y) = List.zipWith xor (bitsOf s x) (bitsOf s y) := by
  induction s with
  | zero => rfl
  | succ s ih => rw [bitsOf, bitsOf, bitsOf, List.zipWith_cons_cons, Nat.testBit_xor, ih]

lemma ofBits_lt : ofBits bs < 2 ^ bs.length := by
  induction bs with
  | nil => exact Nat.one_pos
  | cons b bs ih =>
    rw [ofBits, List.length_cons, pow_succ]
    cases b <;> simp <;> omega

lemma bitsOf_ofBits (h : bs.length = s) : bitsOf s (ofBits bs) = bs := by
  subst h
  induction bs with
  | nil => rfl
  | cons b bs ih =>
    have hhead : (ofBits (b :: bs)).testBit bs.length = b := by
      rw [ofBits, Nat.testBit_two_pow_mul_add _ ofBits_lt, if_neg (lt_irrefl _), Nat.sub_self]
      cases b <;> rfl
    have htail : bitsOf bs.length (ofBits (b :: bs)) = bitsOf bs.length (ofBits bs) := by
      refine bitsOf_congr fun i hi => ?_
      rw [ofBits, Nat.testBit_two_pow_mul_add _ ofBits_lt, if_pos hi]
    rw [List.length_cons, bitsOf, hhead, htail, ih]

lemma ofBits_bitsOf : ofBits (bitsOf s x) = x % 2 ^ s := by
  induction s with
  | zero => rw [bitsOf, ofBits, pow_zero, Nat.mod_one]
  | succ s ih => rw [bitsOf, ofBits, length_bitsOf, ih, Nat.toNat_testBit, Nat.mod_pow_succ, add_comm]

/-! ### Bytes -/

/-- The bits of a byte string. -/
def bitsOfBytes (bytes : List UInt8) : List Bool := bytes.flatMap fun b => bitsOf 8 b.toNat

/-- The first `n` bytes of a bit string. -/
def bytesOf : ℕ → List Bool → List UInt8
  | 0, _ => []
  | n + 1, bs => (ofBits (bs.take 8)).toUInt8 :: bytesOf n (bs.drop 8)

@[simp] lemma length_bytesOf {n : ℕ} : (bytesOf n bs).length = n := by
  induction n generalizing bs with
  | zero => rfl
  | succ n ih => rw [bytesOf, List.length_cons, ih]

@[simp] lemma length_bitsOfBytes {bytes : List UInt8} :
    (bitsOfBytes bytes).length = 8 * bytes.length := by
  induction bytes with
  | nil => rfl
  | cons b bytes ih =>
    have hsplit : bitsOfBytes (b :: bytes) = bitsOf 8 b.toNat ++ bitsOfBytes bytes := rfl
    rw [hsplit, List.length_append, length_bitsOf, ih, List.length_cons]
    omega

lemma bytesOf_take {n : ℕ} : bytesOf n (bs.take (8 * n)) = bytesOf n bs := by
  induction n generalizing bs with
  | zero => rfl
  | succ n ih =>
    rw [bytesOf, bytesOf, List.take_take, min_eq_left (by omega), List.drop_take,
      show 8 * (n + 1) - 8 = 8 * n by omega, ih]

lemma bytesOf_bitsOfBytes {bytes : List UInt8} :
    bytesOf bytes.length (bitsOfBytes bytes) = bytes := by
  induction bytes with
  | nil => rfl
  | cons b bytes ih =>
    have hsplit : bitsOfBytes (b :: bytes) = bitsOf 8 b.toNat ++ bitsOfBytes bytes := rfl
    rw [List.length_cons, bytesOf, hsplit, List.take_left' length_bitsOf,
      List.drop_left' length_bitsOf, ih, ofBits_bitsOf, Nat.mod_eq_of_lt b.toNat_lt]
    simp

lemma bitsOfBytes_bytesOf {n : ℕ} (h : 8 * n ≤ bs.length) :
    bitsOfBytes (bytesOf n bs) = bs.take (8 * n) := by
  induction n generalizing bs with
  | zero => rfl
  | succ n ih =>
    have hlen : (bs.take 8).length = 8 := by
      rw [List.length_take]
      omega
    have hlt : ofBits (bs.take 8) < 2 ^ 8 := by
      have hbound : ofBits (bs.take 8) < 2 ^ (bs.take 8).length := ofBits_lt
      rwa [hlen] at hbound
    have hbyte : bitsOf 8 (ofBits (bs.take 8)).toUInt8.toNat = bs.take 8 := by
      have hnat : (ofBits (bs.take 8)).toUInt8.toNat = ofBits (bs.take 8) :=
        UInt8.toNat_ofNat_of_lt' hlt
      rw [hnat, bitsOf_ofBits hlen]
    have hdrop : 8 * n ≤ (bs.drop 8).length := by
      rw [List.length_drop]
      omega
    have hsplit : bitsOfBytes (bytesOf (n + 1) bs) =
        bitsOf 8 (ofBits (bs.take 8)).toUInt8.toNat ++ bitsOfBytes (bytesOf n (bs.drop 8)) := rfl
    rw [hsplit, hbyte, ih hdrop, show 8 * (n + 1) = 8 + 8 * n by omega, List.take_add]

end Futils.Lib
