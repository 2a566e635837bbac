import Futils.Random.Defs
import Futils.Lib.Uniform
import Mathlib.Data.FinEnum
import Mathlib.Data.Fintype.Vector
import Mathlib.Data.Nat.Digits.Defs

/-!
# The bits that a text takes from its draws

A text is made of blobs, one for each draw.  `Format.bitsOf p count draws` are the bits of the `count`
bytes that it stands for.  They are linear in the draws, so that the bytes are uniform exactly when
every bit string comes from some draws.
-/

namespace Futils.Random

open Futils.Lib

/-- How a draw is cut up: `chars` characters of `bits` bits each make up `bytes` bytes, and a last blob
of fewer bytes is shifted by `shift` from one character to the next. -/
structure Format where
  bits : ℕ
  shift : ℕ
  chars : ℕ
  bytes : ℕ
  fits : bits * chars = 8 * bytes
  pos : 0 < bytes

/-- The low digits of `v`, each after a shift by `shift`. -/
def digits (s shift : ℕ) : ℕ → ℕ → List ℕ
  | 0, _ => []
  | n + 1, v => v % 2 ^ s :: digits s shift n (v / 2 ^ shift)

/-- The bits of a whole blob. -/
def Format.blobBits (p : Format) (v : ℕ) : List Bool :=
  digitBits p.bits (digits p.bits p.bits p.chars v)

/-- The bits of a blob for `c` bytes only. -/
def Format.lastBits (p : Format) (c v : ℕ) : List Bool :=
  (digitBits p.bits (digits p.bits p.shift (c * 8 / p.bits + 1) v)).take (8 * c)

variable {w : ℕ}

def Format.bitsOf (p : Format) : ℕ → List (BitVec w) → List Bool
  | _, [] => []
  | count, v :: draws =>
    if p.bytes ≤ count then p.blobBits v.toNat ++ p.bitsOf (count - p.bytes) draws
    else p.lastBits count v.toNat

lemma Format.bitsOf_ge {p : Format} {c : ℕ} (h : p.bytes ≤ c) (v : BitVec w)
    (draws : List (BitVec w)) :
    p.bitsOf c (v :: draws) = p.blobBits v.toNat ++ p.bitsOf (c - p.bytes) draws := if_pos h

lemma Format.bitsOf_lt {p : Format} {c : ℕ} (h : c < p.bytes) (v : BitVec w)
    (draws : List (BitVec w)) : p.bitsOf c (v :: draws) = p.lastBits c v.toNat :=
  if_neg (not_le.mpr h)

/-- The number of draws for `count` bytes. -/
def Format.draws (p : Format) (count : ℕ) : ℕ := (count + p.bytes - 1) / p.bytes

variable {p : Format} {s shift n v x y c count : ℕ} {ds : List ℕ} {bs : List Bool}

/-! ### How many draws there are -/

lemma Format.draws_zero : p.draws 0 = 0 := by
  have := p.pos
  exact Nat.div_eq_of_lt (by omega)

lemma Format.draws_of_lt (h₀ : 0 < c) (h : c < p.bytes) : p.draws c = 1 := by
  unfold draws
  rw [Nat.div_eq_of_lt_le] <;> omega

lemma Format.draws_of_ge (h : p.bytes ≤ c) : p.draws c = p.draws (c - p.bytes) + 1 := by
  have := p.pos
  unfold draws
  rw [← Nat.add_div_right _ this]
  congr 1
  omega

/-- The blobs come first, and the last one has the remainder: how to argue about the draws. -/
lemma Format.draws_induction {motive : ℕ → List (BitVec w) → Prop} (zero : motive 0 [])
    (last : ∀ c v, 0 < c → c < p.bytes → motive c [v])
    (blob : ∀ c v draws, p.bytes ≤ c → draws.length = p.draws (c - p.bytes) →
      motive (c - p.bytes) draws → motive c (v :: draws))
    {c : ℕ} {draws : List (BitVec w)} (h : draws.length = p.draws c) : motive c draws := by
  induction draws generalizing c with
  | nil =>
    rcases Nat.eq_zero_or_pos c with rfl | hc
    · exact zero
    · rcases lt_or_ge c p.bytes with hlt | hge
      · rw [draws_of_lt hc hlt] at h
        cases h
      · rw [draws_of_ge hge] at h
        cases h
  | cons v draws ih =>
    rcases lt_or_ge c p.bytes with hlt | hge
    · rcases Nat.eq_zero_or_pos c with rfl | hc
      · rw [draws_zero] at h
        cases h
      · rw [draws_of_lt hc hlt] at h
        obtain rfl := List.length_eq_zero_iff.mp (Nat.succ.inj h)
        exact last c v hc hlt
    · rw [draws_of_ge hge] at h
      exact blob c v draws hge (Nat.succ.inj h) (ih (Nat.succ.inj h))

/-! ### Digits -/

@[simp] lemma length_digits : (digits s shift n v).length = n := by
  induction n generalizing v with
  | zero => rfl
  | succ n ih => rw [digits, List.length_cons, ih]

lemma digits_lt {d : ℕ} (h : d ∈ digits s shift n v) : d < 2 ^ s := by
  induction n generalizing v with
  | zero => cases h
  | succ n ih =>
    rcases List.mem_cons.mp h with rfl | h
    · exact Nat.mod_lt _ (Nat.two_pow_pos s)
    · exact ih h

lemma digits_xor :
    digits s shift n (x ^^^ y) = List.zipWith (· ^^^ ·) (digits s shift n x) (digits s shift n y) := by
  induction n generalizing x y with
  | zero => rfl
  | succ n ih =>
    rw [digits, digits, digits, List.zipWith_cons_cons, Nat.xor_mod_two_pow, Nat.xor_div_two_pow, ih]

/-- Every digits are those of some number. -/
lemma digits_ofDigits (h : ∀ d ∈ ds, d < 2 ^ s) :
    digits s s ds.length (Nat.ofDigits (2 ^ s) ds) = ds := by
  induction ds with
  | nil => rfl
  | cons d ds ih =>
    have hd : d < 2 ^ s := h d List.mem_cons_self
    rw [List.length_cons, digits, Nat.ofDigits_cons, Nat.add_mul_mod_self_left, Nat.mod_eq_of_lt hd,
      Nat.add_mul_div_left _ _ (Nat.two_pow_pos s), Nat.div_eq_of_lt hd, Nat.zero_add,
      ih fun x hx => h x (List.mem_cons_of_mem _ hx)]

/-- Every bit string is that of some digits. -/
lemma exists_digits (h : bs.length = s * n) :
    ∃ ds : List ℕ, ds.length = n ∧ (∀ d ∈ ds, d < 2 ^ s) ∧ digitBits s ds = bs := by
  induction n generalizing bs with
  | zero =>
    rw [Nat.mul_zero] at h
    obtain rfl := List.length_eq_zero_iff.mp h
    exact ⟨[], rfl, by simp, rfl⟩
  | succ n ih =>
    rw [Nat.mul_succ] at h
    have hdrop : (bs.drop s).length = s * n := by
      rw [List.length_drop]
      omega
    obtain ⟨ds, hlen, hds, hbits⟩ := ih hdrop
    have htake : (bs.take s).length = s := by
      rw [List.length_take]
      omega
    refine ⟨ofBits (bs.take s) :: ds, by rw [List.length_cons, hlen], ?_, ?_⟩
    · intro d hd
      rcases List.mem_cons.mp hd with rfl | hd
      · have hlt : ofBits (bs.take s) < 2 ^ (bs.take s).length := ofBits_lt
        rwa [htake] at hlt
      · exact hds d hd
    · rw [digitBits_cons, bitsOf_ofBits htake, hbits, List.take_append_drop]

/-! ### Linearity -/

lemma digitBits_xor {ds ds' : List ℕ} (h : ds.length = ds'.length) :
    digitBits s (List.zipWith (· ^^^ ·) ds ds') =
      List.zipWith xor (digitBits s ds) (digitBits s ds') := by
  induction ds generalizing ds' with
  | nil => rfl
  | cons d ds ih =>
    cases ds' with
    | nil => cases h
    | cons d' ds' =>
      rw [List.zipWith_cons_cons, digitBits_cons, digitBits_cons, digitBits_cons, Lib.bitsOf_xor,
        ih (Nat.succ.inj h), List.zipWith_append (by simp)]

lemma Format.blobBits_xor :
    p.blobBits (x ^^^ y) = List.zipWith xor (p.blobBits x) (p.blobBits y) := by
  unfold blobBits
  rw [digits_xor, digitBits_xor (by simp)]

lemma Format.lastBits_xor :
    p.lastBits c (x ^^^ y) = List.zipWith xor (p.lastBits c x) (p.lastBits c y) := by
  unfold lastBits
  rw [digits_xor, digitBits_xor (by simp), List.take_zipWith]

@[simp] lemma Format.length_blobBits : (p.blobBits v).length = 8 * p.bytes := by
  unfold blobBits
  rw [length_digitBits, length_digits, p.fits]

@[simp] lemma Format.length_lastBits : (p.lastBits c v).length = 8 * c := by
  unfold lastBits
  rw [List.length_take, length_digitBits, length_digits, Nat.mul_comm 8 c]
  rcases Nat.eq_zero_or_pos p.bits with hb | hb
  · have hfits := p.fits
    have := p.pos
    rw [hb, Nat.zero_mul] at hfits
    omega
  · exact min_eq_left (Nat.lt_mul_div_succ _ hb).le

/-- **The bits are linear in the draws.** -/
lemma Format.bitsOf_xor {draws draws' : List (BitVec w)} (h : draws.length = draws'.length) :
    p.bitsOf count (List.zipWith (· ^^^ ·) draws draws') =
      List.zipWith xor (p.bitsOf count draws) (p.bitsOf count draws') := by
  induction draws generalizing count draws' with
  | nil => rfl
  | cons v draws ih =>
    cases draws' with
    | nil => cases h
    | cons v' draws' =>
      rw [List.zipWith_cons_cons]
      unfold bitsOf
      split_ifs
      · rw [BitVec.toNat_xor, blobBits_xor, ih (Nat.succ.inj h), List.zipWith_append (by simp)]
      · rw [BitVec.toNat_xor, lastBits_xor]

lemma Format.length_bitsOf {draws : List (BitVec w)} (h : draws.length = p.draws count) :
    (p.bitsOf count draws).length = 8 * count := by
  refine draws_induction (motive := fun count draws => (p.bitsOf count draws).length = 8 * count)
    rfl ?_ ?_ h
  · intro c v _ hlt
    rw [bitsOf_lt hlt, length_lastBits]
  · intro c v draws hge _ ih
    rw [bitsOf_ge hge, List.length_append, length_blobBits, ih]
    omega

/-! ### Moving draws -/

lemma zipWith_cancel {α : Type*} {f : α → α → α} (h : ∀ x y, f (f x y) y = x) {l t : List α}
    (hlen : l.length = t.length) : List.zipWith f (List.zipWith f l t) t = l := by
  induction l generalizing t with
  | nil => rfl
  | cons a l ih =>
    cases t with
    | nil => cases hlen
    | cons b t => rw [List.zipWith_cons_cons, List.zipWith_cons_cons, h, ih (Nat.succ.inj hlen)]

/-- The draws, each with the difference of two others added. -/
def move (a₀ a₁ a : List.Vector (BitVec w) n) : List.Vector (BitVec w) n :=
  ⟨List.zipWith (· ^^^ ·) a.1 (List.zipWith (· ^^^ ·) a₀.1 a₁.1), by simp [a.2, a₀.2, a₁.2]⟩

lemma move_involutive (a₀ a₁ : List.Vector (BitVec w) n) : Function.Involutive (move a₀ a₁) := by
  intro a
  refine Subtype.ext (zipWith_cancel ?_ (by simp [a.2, a₀.2, a₁.2]))
  intro x y
  rw [BitVec.xor_assoc, BitVec.xor_self, BitVec.xor_zero]

lemma move_symm (a₀ a₁ : List.Vector (BitVec w) n) : move a₀ a₁ = move a₁ a₀ := by
  funext a
  refine Subtype.ext (congrArg (List.zipWith _ a.1) ?_)
  exact List.zipWith_comm_of_comm fun x y => BitVec.xor_comm x y

/-- **Draws with the bits of one list of draws** are moved to draws with those of another. -/
lemma Format.bitsOf_move {a₀ a₁ a : List.Vector (BitVec w) (p.draws count)}
    (h : p.bitsOf count a.1 = p.bitsOf count a₀.1) :
    p.bitsOf count (move a₀ a₁ a).1 = p.bitsOf count a₁.1 := by
  have hlen : (p.bitsOf count a₁.1).length = (p.bitsOf count a₀.1).length := by
    rw [length_bitsOf a₁.2, length_bitsOf a₀.2]
  have hcomm : ∀ l t : List Bool, List.zipWith xor l t = List.zipWith xor t l := fun l t =>
    List.zipWith_comm_of_comm Bool.xor_comm
  unfold move
  rw [bitsOf_xor (by simp [a.2, a₀.2, a₁.2]), bitsOf_xor (by simp [a₀.2, a₁.2]), h,
    hcomm _ (List.zipWith xor _ _), hcomm (p.bitsOf count a₀.1) (p.bitsOf count a₁.1)]
  exact zipWith_cancel (fun x y => by simp) hlen

/-! ### Which bits there are -/

/-- The last blob can have any bits. -/
def Format.Full (w : ℕ) (p : Format) (c : ℕ) : Prop :=
  ∀ bs : List Bool, bs.length = 8 * c → ∃ v : BitVec w, p.lastBits c v.toNat = bs

/-- Every digits that fit are those of some draw. -/
lemma exists_draw (hds : ∀ d ∈ ds, d < 2 ^ s) (hw : s * ds.length ≤ w) :
    ∃ v : BitVec w, digits s s ds.length v.toNat = ds := by
  have hlt : Nat.ofDigits (2 ^ s) ds < 2 ^ w := by
    have hpow : Nat.ofDigits (2 ^ s) ds < (2 ^ s) ^ ds.length := by
      rcases Nat.eq_zero_or_pos s with rfl | hs
      · have hzero : ∀ l : List ℕ, (∀ d ∈ l, d < 2 ^ 0) → Nat.ofDigits (2 ^ 0) l = 0 := by
          intro l hl
          induction l with
          | nil => rfl
          | cons d l ih =>
            have hd := hl d List.mem_cons_self
            rw [Nat.ofDigits_cons, ih fun x hx => hl x (List.mem_cons_of_mem _ hx)]
            omega
        rw [hzero ds hds]
        positivity
      · exact Nat.ofDigits_lt_base_pow_length (Nat.one_lt_two_pow hs.ne') fun d hd => hds d hd
    rw [← pow_mul] at hpow
    exact hpow.trans_le (Nat.pow_le_pow_right Nat.two_pos hw)
  refine ⟨BitVec.ofNat w (Nat.ofDigits (2 ^ s) ds), ?_⟩
  rw [BitVec.toNat_ofNat, Nat.mod_eq_of_lt hlt, digits_ofDigits hds]

lemma Format.exists_blob (hw : 8 * p.bytes ≤ w) (h : bs.length = 8 * p.bytes) :
    ∃ v : BitVec w, p.blobBits v.toNat = bs := by
  rw [← p.fits] at h hw
  obtain ⟨ds, hlen, hds, hbits⟩ := exists_digits h
  obtain ⟨v, hv⟩ := exists_draw (w := w) hds (by rwa [hlen])
  refine ⟨v, ?_⟩
  unfold blobBits
  rw [← hlen, hv, hbits]

/-- A last blob that is shifted by whole characters is full. -/
lemma Format.full_of_shift (hshift : p.shift = p.bits) (hw : 8 * p.bytes ≤ w) (hc : c < p.bytes) :
    p.Full w c := by
  intro bs hbs
  have hfits := p.fits
  have hbits : 0 < p.bits := by
    rcases Nat.eq_zero_or_pos p.bits with hb | hb
    · rw [hb, Nat.zero_mul] at hfits
      omega
    · exact hb
  have hchars : c * 8 / p.bits + 1 ≤ p.chars := by
    refine Nat.succ_le_of_lt ((Nat.div_lt_iff_lt_mul hbits).mpr ?_)
    rw [Nat.mul_comm p.chars, hfits]
    omega
  have hroom : 8 * c ≤ p.bits * (c * 8 / p.bits + 1) := by
    rw [Nat.mul_comm 8]
    exact (Nat.lt_mul_div_succ _ hbits).le
  have hpadded : (bs ++ List.replicate (p.bits * (c * 8 / p.bits + 1) - 8 * c) false).length =
      p.bits * (c * 8 / p.bits + 1) := by
    rw [List.length_append, List.length_replicate, hbs]
    omega
  obtain ⟨ds, hlen, hds, hdigits⟩ := exists_digits hpadded
  obtain ⟨v, hv⟩ := exists_draw (w := w) hds (by
    rw [hlen]
    exact (Nat.mul_le_mul_left _ hchars).trans (hfits.trans_le hw))
  refine ⟨v, ?_⟩
  unfold lastBits
  rw [hshift, ← hlen, hv, hdigits, List.take_left' hbs]

/-- The end of the bits is the last blob. -/
lemma Format.drop_bitsOf {draws : List (BitVec w)} (h : draws.length = p.draws count) :
    ∃ v : BitVec w,
      (p.bitsOf count draws).drop (8 * (count - count % p.bytes)) =
        p.lastBits (count % p.bytes) v.toNat := by
  refine draws_induction
    (motive := fun count draws => ∃ v : BitVec w,
      (p.bitsOf count draws).drop (8 * (count - count % p.bytes)) =
        p.lastBits (count % p.bytes) v.toNat) ?_ ?_ ?_ h
  · refine ⟨0, ?_⟩
    rw [Nat.zero_mod]
    rfl
  · intro c v _ hlt
    refine ⟨v, ?_⟩
    rw [Nat.mod_eq_of_lt hlt, Nat.sub_self, bitsOf_lt hlt]
    rfl
  · rintro c v draws hge - ⟨v', ih⟩
    refine ⟨v', ?_⟩
    have hmod : c % p.bytes = (c - p.bytes) % p.bytes := Nat.mod_eq_sub_mod hge
    have hle := Nat.mod_le (c - p.bytes) p.bytes
    rw [hmod, ← ih]
    rw [bitsOf_ge hge, show 8 * (c - (c - p.bytes) % p.bytes) =
      8 * p.bytes + 8 * (c - p.bytes - (c - p.bytes) % p.bytes) by omega]
    rw [← length_blobBits (p := p) (v := v.toNat), List.drop_length_add_append]

/-- **Every bit string comes from some draws** exactly when the last blob is full. -/
theorem Format.exists_bitsOf_iff (hw : 8 * p.bytes ≤ w) :
    (∀ bs : List Bool, bs.length = 8 * count →
      ∃ draws : List (BitVec w), draws.length = p.draws count ∧ p.bitsOf count draws = bs) ↔
    p.Full w (count % p.bytes) := by
  constructor
  · intro h bs hbs
    have hle := Nat.mod_le count p.bytes
    obtain ⟨draws, hlen, hbits⟩ :=
      h (List.replicate (8 * (count - count % p.bytes)) false ++ bs) (by simp; omega)
    obtain ⟨v, hv⟩ := drop_bitsOf hlen
    refine ⟨v, ?_⟩
    rw [← hv, hbits, List.drop_left' (by simp)]
  · intro hfull
    induction count using Nat.strong_induction_on with
    | _ count ih =>
      intro bs hbs
      rcases lt_or_ge count p.bytes with hlt | hge
      · rcases Nat.eq_zero_or_pos count with rfl | hpos
        · exact ⟨[], draws_zero.symm, (List.length_eq_zero_iff.mp hbs).symm⟩
        · rw [Nat.mod_eq_of_lt hlt] at hfull
          obtain ⟨v, hv⟩ := hfull bs hbs
          refine ⟨[v], (draws_of_lt hpos hlt).symm, ?_⟩
          rw [bitsOf_lt hlt, hv]
      · have hpos := p.pos
        rw [Nat.mod_eq_sub_mod hge] at hfull
        obtain ⟨draws, hlen, hbits⟩ := ih (count - p.bytes) (by omega) hfull
          (bs.drop (8 * p.bytes)) (by rw [List.length_drop]; omega)
        have htake : (bs.take (8 * p.bytes)).length = 8 * p.bytes := by
          rw [List.length_take]
          omega
        obtain ⟨v, hv⟩ := exists_blob hw htake
        refine ⟨v :: draws, by rw [List.length_cons, hlen, draws_of_ge hge], ?_⟩
        rw [bitsOf_ge hge, hv, hbits, List.take_append_drop]

end Futils.Random
