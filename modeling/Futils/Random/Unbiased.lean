import Futils.Random.Maximum

/-!
# Bounded random numbers are unbiased

The mask is the ones below the highest bit of the maximum, so that a draw keeps as many low bits as the
maximum has: each value up to the maximum comes from as many draws as the others, and more than half of
the draws give one.
-/

namespace Futils.Random

open Futils.Lib

variable {w n k : ℕ} {maximum mask : BitVec w} {raw : List UInt8} {pool : List (Mem UInt8)}

/-! ### Bits -/

lemma toNat_setWidth_of_le {v : ℕ} (h : w ≤ v) (x : BitVec w) : (x.setWidth v).toNat = x.toNat := by
  rw [BitVec.toNat_setWidth]
  exact Nat.mod_eq_of_lt (x.isLt.trans_le (Nat.pow_le_pow_right Nat.two_pos h))

lemma toNat_p2minus1 (v : BitVec 64) : (p2minus1 v).toNat = 2 ^ v.toNat.size - 1 := by
  refine Smeared.eq_ones (n := 64) ?_ (Nat.size_le.mpr v.isLt)
  unfold p2minus1
  simp only [BitVec.toNat_or, BitVec.toNat_ushiftRight]
  exact (smeared_one v.toNat).double.double.double.double.double.double

/-- One step counts what it shifts out, and leaves few bits. -/
lemma ilog2Step_spec (hk : k < 64) (x : ℕ × BitVec 64) :
    (ilog2Step k x).1 + (ilog2Step k x).2.toNat.size = x.1 + x.2.toNat.size ∧
      (ilog2Step k x).2.toNat.size ≤ max k (x.2.toNat.size - (k + 1)) := by
  have hone : ((1 : BitVec 64) <<< k).toNat = 2 ^ k := by
    rw [BitVec.toNat_shiftLeft, Nat.shiftLeft_eq, show (1 : BitVec 64).toNat = 1 from rfl, Nat.one_mul]
    exact Nat.mod_eq_of_lt (Nat.pow_lt_pow_right (by omega) hk)
  unfold ilog2Step
  split_ifs with h
  · rw [ge_iff_le, BitVec.le_def, hone] at h
    have hlong := Nat.lt_size.mpr h
    rw [BitVec.toNat_ushiftRight, size_shiftRight]
    omega
  · rw [ge_iff_le, BitVec.le_def, hone, not_le] at h
    have hshort := Nat.size_le.mpr h
    omega

lemma ilog2plus1_eq (v : BitVec 64) : ilog2plus1 v = v.toNat.size := by
  have hv : v.toNat.size ≤ 64 := Nat.size_le.mpr v.isLt
  obtain ⟨h₃₂, hle₃₂⟩ := ilog2Step_spec (k := 32) (by omega) (0, v)
  obtain ⟨h₁₆, hle₁₆⟩ := ilog2Step_spec (k := 16) (by omega) (ilog2Step 32 (0, v))
  obtain ⟨h₈, hle₈⟩ := ilog2Step_spec (k := 8) (by omega) (ilog2Step 16 (ilog2Step 32 (0, v)))
  obtain ⟨x₄, hx₄⟩ : ∃ x, x = ilog2Step 8 (ilog2Step 16 (ilog2Step 32 (0, v))) := ⟨_, rfl⟩
  obtain ⟨h₄, hle₄⟩ := ilog2Step_spec (k := 4) (by omega) x₄
  obtain ⟨h₂, hle₂⟩ := ilog2Step_spec (k := 2) (by omega) (ilog2Step 4 x₄)
  obtain ⟨h₁, hle₁⟩ := ilog2Step_spec (k := 1) (by omega) (ilog2Step 2 (ilog2Step 4 x₄))
  obtain ⟨h₀, hle₀⟩ :=
    ilog2Step_spec (k := 0) (by omega) (ilog2Step 1 (ilog2Step 2 (ilog2Step 4 x₄)))
  rw [← hx₄] at h₈ hle₈
  dsimp only at h₃₂ hle₃₂
  unfold ilog2plus1
  rw [← hx₄]
  omega

/-- **The helpers are exact**: `ilog2plus1` counts the bits that a value needs, none for `0`, and `p2minus1` has
as many ones. -/
theorem ilog2plus1_p2minus1_exact (v : BitVec 64) :
    IsLeast {k | v.toNat < 2 ^ k} (ilog2plus1 v) ∧ (ilog2plus1 v = 0 ↔ v = 0) ∧
      (p2minus1 v).toNat = 2 ^ ilog2plus1 v - 1 ∧
      IsLeast {m | v.toNat ≤ m ∧ ∃ k, m = 2 ^ k - 1} (p2minus1 v).toNat := by
  rw [ilog2plus1_eq, toNat_p2minus1]
  refine ⟨isLeast_size v.toNat, ?_, rfl, isLeast_ones v.toNat⟩
  rw [Nat.size_eq_zero, ← BitVec.toNat_inj]
  rfl

/-! ### Raw draws -/

lemma toNat_native (h : raw.length = n) (hw : 8 * n ≤ w) : (native w raw).toNat = leNat raw := by
  have hlt := leNat_lt_of_length h
  have hpow : 256 ^ n ≤ 2 ^ w := by
    rw [show 256 = 2 ^ 8 from rfl, ← pow_mul]
    exact Nat.pow_le_pow_right Nat.two_pos hw
  exact BitVec.toNat_ofNat .. ▸ Nat.mod_eq_of_lt (hlt.trans_le hpow)

/-- The bytes that are gathered are put above those before them. -/
lemma toNat_gather (i : ℕ) (val : BitVec w) (hval : val.toNat < 2 ^ (8 * i))
    (hw : 8 * (i + raw.length) ≤ w) :
    (gather w i val raw).toNat = val.toNat + 2 ^ (8 * i) * leNat raw := by
  induction raw generalizing i val with
  | nil => rfl
  | cons b raw ih =>
    rw [List.length_cons] at hw
    have hb := b.toNat_lt
    have hpow : 2 ^ (8 * (i + 1)) = 2 ^ (8 * i) * 256 := by
      rw [Nat.mul_succ, pow_add]
      rfl
    have hfits : 2 ^ (8 * (i + 1)) ≤ 2 ^ w := Nat.pow_le_pow_right Nat.two_pos (by omega)
    have hbyte : (BitVec.ofNat w b.toNat <<< (8 * i)).toNat = 2 ^ (8 * i) * b.toNat := by
      have hlt : 2 ^ (8 * i) * b.toNat < 2 ^ w := by
        refine lt_of_lt_of_le ?_ hfits
        rw [hpow]
        exact Nat.mul_lt_mul_of_pos_left hb (Nat.two_pow_pos _)
      have hmod : b.toNat < 2 ^ w :=
        (Nat.le_mul_of_pos_left _ (Nat.two_pow_pos _)).trans_lt hlt
      rw [BitVec.toNat_shiftLeft, BitVec.toNat_ofNat, Nat.mod_eq_of_lt hmod, Nat.shiftLeft_eq,
        Nat.mul_comm, Nat.mod_eq_of_lt hlt]
    have hor : (val ||| BitVec.ofNat w b.toNat <<< (8 * i)).toNat =
        val.toNat + 2 ^ (8 * i) * b.toNat := by
      rw [BitVec.toNat_or, hbyte, Nat.or_comm, ← Nat.two_pow_add_eq_or_of_lt hval, Nat.add_comm]
    have hnext : val.toNat + 2 ^ (8 * i) * b.toNat < 2 ^ (8 * (i + 1)) := by
      rw [hpow]
      calc val.toNat + 2 ^ (8 * i) * b.toNat < 2 ^ (8 * i) * (b.toNat + 1) := by
            rw [Nat.mul_succ]
            omega
        _ ≤ 2 ^ (8 * i) * 256 := Nat.mul_le_mul_left _ hb
    rw [gather, ih (i + 1) _ (hor ▸ hnext) (by omega), hor, leNat, hpow, Nat.mul_add, ← Nat.mul_assoc]
    omega

lemma toNat_gather_zero (h : raw.length = n) (hw : 8 * n ≤ w) :
    (gather w 0 0 raw).toNat = leNat raw := by
  subst h
  rw [toNat_gather 0 0 Nat.one_pos (by omega)]
  simp

/-! ### What a draw gives -/

/-- The value that a raw draw gives, if it is not rejected. -/
def accept (maximum : BitVec w) (raw : List UInt8) : Option (BitVec w) :=
  let out := leNat raw % 2 ^ maximum.toNat.size
  if out ≤ maximum.toNat then some (BitVec.ofNat w out) else none

/-- `f` draws `n` bytes, if any, until a draw gives a value. -/
def Draws (f : List (Mem UInt8) → Outcome (BitVec w)) (n : ℕ)
    (accept : List UInt8 → Option (BitVec w)) : Prop :=
  if n = 0 then ∃ x, accept [] = some x ∧ ∀ pool, f pool = .value x pool
  else
    f [] = .starved ∧ ∀ raw pool, f (raw :: pool) =
      match accept (raw.load 0 n) with
      | some x => .value x pool
      | none => f pool

/-- Each value up to the maximum comes from as many draws of `n` bytes as the others, no other value from
any, and more than half of the draws give one. -/
structure Unbiased (n : ℕ) (accept : List UInt8 → Option (BitVec w)) (maximum : BitVec w) : Prop where
  le : ∀ raw x, accept raw = some x → x ≤ maximum
  even : ∃ many, 0 < many ∧ ∀ x ≤ maximum,
    Nat.card {raw : List.Vector UInt8 n // accept raw.1 = some x} = many
  often : 256 ^ n < 2 * Nat.card {raw : List.Vector UInt8 n // (accept raw.1).isSome = true}

lemma accept_eq_some {x : BitVec w} : accept maximum raw = some x ↔
    leNat raw % 2 ^ maximum.toNat.size = x.toNat ∧ x ≤ maximum := by
  have hlt : leNat raw % 2 ^ maximum.toNat.size < 2 ^ w :=
    (Nat.mod_lt _ (Nat.two_pow_pos _)).trans_le
      (Nat.pow_le_pow_right Nat.two_pos (Nat.size_le.mpr maximum.isLt))
  unfold accept
  dsimp only
  rw [BitVec.le_def]
  constructor
  · intro h
    split_ifs at h with hle
    obtain rfl := Option.some.inj h
    rw [BitVec.toNat_ofNat, Nat.mod_eq_of_lt hlt]
    exact ⟨rfl, hle⟩
  · rintro ⟨hx, hle⟩
    rw [hx, if_pos hle, BitVec.ofNat_toNat, BitVec.setWidth_eq]

lemma isSome_accept : (accept maximum raw).isSome = true ↔
    leNat raw % 2 ^ maximum.toNat.size ≤ maximum.toNat := by
  unfold accept
  dsimp only
  split_ifs with h
  · exact iff_of_true rfl h
  · exact iff_of_false Bool.false_ne_true h

/-- **Draws of enough bytes are unbiased.** -/
theorem unbiased_accept (h : maximum.toNat.size ≤ 8 * n) : Unbiased n (accept maximum) maximum := by
  obtain ⟨k, hk⟩ : ∃ k, k = maximum.toNat.size := ⟨_, rfl⟩
  have hmax : maximum.toNat < 2 ^ k := hk ▸ Nat.lt_size_self _
  rw [← hk] at h
  constructor
  · intro raw x hx
    exact (accept_eq_some.mp hx).2
  · refine ⟨2 ^ (8 * n - k), Nat.two_pow_pos _, fun x hx => ?_⟩
    have hiff : ∀ raw : List.Vector UInt8 n,
        accept maximum raw.1 = some x ↔ leNat raw.1 % 2 ^ k = x.toNat := by
      intro raw
      rw [accept_eq_some, ← hk]
      exact and_iff_left hx
    have hone : Nat.card {y : Fin (2 ^ k) // (y : ℕ) = x.toNat} = 1 := by
      refine Nat.card_eq_one_iff_unique.mpr ⟨⟨fun y z => ?_⟩, ⟨⟨x.toNat, ?_⟩, rfl⟩⟩
      · exact Subtype.ext (Fin.ext (y.2.trans z.2.symm))
      · exact (BitVec.le_def.mp hx).trans_lt hmax
    rw [Nat.card_congr (Equiv.subtypeEquivRight hiff), card_lowBits h (· = x.toNat), hone, Nat.mul_one]
  · have hiff : ∀ raw : List.Vector UInt8 n, (accept maximum raw.1).isSome = true ↔
        leNat raw.1 % 2 ^ k ≤ maximum.toNat := fun raw => hk ▸ isSome_accept
    have hcount : Nat.card {y : Fin (2 ^ k) // (y : ℕ) ≤ maximum.toNat} = maximum.toNat + 1 :=
      card_fin_le hmax
    rw [Nat.card_congr (Equiv.subtypeEquivRight hiff), card_lowBits h (· ≤ maximum.toNat), hcount,
      bytes_pow h, Nat.mul_left_comm]
    exact Nat.mul_lt_mul_of_pos_left (hk ▸ two_pow_size_lt _) (Nat.two_pow_pos _)

/-! ### What the functions do -/

/-- For every maximum: enough bytes are drawn for the mask, the draws are unbiased, the program does not
abort, and a value that is returned is in range. -/
def Fair (f : BitVec w → List (Mem UInt8) → Outcome (BitVec w)) : Prop :=
  ∀ maximum, ∃ n accept,
    (p2minus1 (maximum.setWidth 64)).toNat < 256 ^ n ∧
    Draws (f maximum) n accept ∧ Unbiased n accept maximum ∧
    ∀ pool, f maximum pool ≠ .abort ∧ ∀ x rest, f maximum pool = .value x rest → x ≤ maximum

/-- What draws from a pool that starves at last: a value that some bytes give. -/
lemma Draws.outcome {f : List (Mem UInt8) → Outcome (BitVec w)} {accept : List UInt8 → Option (BitVec w)}
    (h : Draws f n accept) (pool : List (Mem UInt8)) :
    f pool = .starved ∨ ∃ raw x rest, accept raw = some x ∧ f pool = .value x rest := by
  unfold Draws at h
  split_ifs at h with hn
  · obtain ⟨x, hx, hf⟩ := h
    exact Or.inr ⟨[], x, pool, hx, hf pool⟩
  · obtain ⟨hnil, hcons⟩ := h
    induction pool with
    | nil => exact Or.inl hnil
    | cons raw pool ih =>
      rw [hcons]
      rcases hx : accept (raw.load 0 n) with _ | x
      · exact ih
      · exact Or.inr ⟨_, x, pool, hx, rfl⟩

lemma fair_of_draws {f : BitVec w → List (Mem UInt8) → Outcome (BitVec w)} (hw : w ≤ 64)
    (h : ∀ maximum : BitVec w, ∃ n, maximum.toNat.size ≤ 8 * n ∧
      Draws (f maximum) n (accept maximum)) : Fair f := by
  intro maximum
  obtain ⟨n, hsize, hdraws⟩ := h maximum
  have hunbiased := unbiased_accept hsize
  refine ⟨n, accept maximum, ?_, hdraws, hunbiased, fun pool => ?_⟩
  · rw [toNat_p2minus1, toNat_setWidth_of_le hw, show 256 = 2 ^ 8 from rfl, ← pow_mul]
    have hle := Nat.pow_le_pow_right Nat.two_pos hsize
    have hpos := Nat.two_pow_pos maximum.toNat.size
    omega
  · rcases hdraws.outcome pool with hf | ⟨raw, x, rest, hx, hf⟩
    · rw [hf]
      exact ⟨nofun, fun _ _ h => nomatch h⟩
    · rw [hf]
      refine ⟨nofun, fun y rest' h => ?_⟩
      obtain ⟨rfl, -⟩ := Outcome.value.inj h
      exact hunbiased.le raw _ hx

/-! ### The four functions -/

/-- The value of a draw before it is compared. -/
lemma toNat_masked {v : ℕ} {out mask : BitVec v} (hmask : mask.toNat = 2 ^ k - 1) :
    (out &&& mask).toNat = out.toNat % 2 ^ k := by
  rw [BitVec.toNat_and, hmask]
  exact Nat.and_two_pow_sub_one_eq_mod ..

/-- **The loop, at any width in which the maximum fits.** -/
lemma draws_converted {v : ℕ} {rand : List UInt8 → BitVec v} (hn : n ≠ 0)
    (hrand : ∀ raw, raw.length = n → (rand raw).toNat = leNat raw)
    (hmask : mask.toNat = 2 ^ maximum.toNat.size - 1) (hv : maximum.toNat.size ≤ v) :
    Draws (converted (randMaximumLoop n rand) maximum mask) n (accept maximum) := by
  have hfits : ∀ y < 2 ^ maximum.toNat.size, y % 2 ^ v = y := by
    intro y hy
    exact Nat.mod_eq_of_lt (hy.trans_le (Nat.pow_le_pow_right Nat.two_pos hv))
  have hmax : (maximum.setWidth v).toNat = maximum.toNat := by
    rw [BitVec.toNat_setWidth]
    exact hfits _ (Nat.lt_size_self _)
  have hmask' : (mask.setWidth v).toNat = 2 ^ maximum.toNat.size - 1 := by
    rw [BitVec.toNat_setWidth, hmask]
    exact hfits _ (Nat.sub_lt (Nat.two_pow_pos _) Nat.one_pos)
  unfold Draws
  rw [if_neg hn]
  refine ⟨rfl, fun raw pool => ?_⟩
  have hout : (rand (raw.load 0 n) &&& mask.setWidth v).toNat =
      leNat (raw.load 0 n) % 2 ^ maximum.toNat.size := by
    rw [toNat_masked hmask', hrand _ (Mem.length_load ..)]
  unfold converted
  rw [randMaximumLoop]
  by_cases h : leNat (raw.load 0 n) % 2 ^ maximum.toNat.size ≤ maximum.toNat
  · have hgt : ¬ rand (raw.load 0 n) &&& mask.setWidth v > maximum.setWidth v := by
      rw [gt_iff_lt, BitVec.lt_def, hout, hmax]
      omega
    have haccept : accept maximum (raw.load 0 n) =
        some ((rand (raw.load 0 n) &&& mask.setWidth v).setWidth w) := by
      rw [accept, if_pos h, ← hout]
      exact congrArg some (BitVec.ofNat_toNat w _)
    rw [if_neg hgt, haccept]
    rfl
  · have hgt : rand (raw.load 0 n) &&& mask.setWidth v > maximum.setWidth v := by
      rw [gt_iff_lt, BitVec.lt_def, hout, hmax]
      omega
    have haccept : accept maximum (raw.load 0 n) = none := by
      rw [accept, if_neg h]
    rw [if_pos hgt, haccept]

lemma converted_self (f : BitVec w → BitVec w → List (Mem UInt8) → Outcome (BitVec w))
    (maximum mask : BitVec w) : converted f maximum mask = f maximum mask := by
  funext pool
  have hid : (BitVec.setWidth w : BitVec w → BitVec w) = id := by
    funext x
    exact BitVec.setWidth_eq x
  unfold converted
  rw [BitVec.setWidth_eq, BitVec.setWidth_eq, hid]
  rcases f maximum mask pool with _ | _ | _ <;> rfl

/-- The mask of a maximum that is not longer than 64 bits. -/
lemma toNat_mask (hw : w ≤ 64) (maximum : BitVec w) :
    ((p2minus1 (maximum.setWidth 64)).setWidth w).toNat = 2 ^ maximum.toNat.size - 1 := by
  rw [BitVec.toNat_setWidth, toNat_p2minus1, toNat_setWidth_of_le hw]
  have hsize := Nat.size_le.mpr maximum.isLt
  have hpow := Nat.pow_le_pow_right Nat.two_pos hsize
  have hpos := Nat.two_pow_pos maximum.toNat.size
  exact Nat.mod_eq_of_lt (by omega)

lemma fair_poolRand8Maximum : Fair poolRand8Maximum := by
  refine fair_of_draws (by omega) fun maximum => ⟨1, ?_, ?_⟩
  · exact Nat.size_le.mpr maximum.isLt
  · have hrand : ∀ raw : List UInt8, raw.length = 1 → (poolRand8 raw).toNat = leNat raw :=
      fun raw h => toNat_native h (by omega)
    have hdraws := draws_converted Nat.one_ne_zero hrand (toNat_mask (by omega) maximum)
      (Nat.size_le.mpr maximum.isLt)
    rwa [converted_self] at hdraws

/-- **The `switch`, at any number of bytes** that it has a case for. -/
lemma draws_switch {top count : ℕ} (hmask : mask.toNat = 2 ^ maximum.toNat.size - 1)
    (hsize : maximum.toNat.size ≤ 8 * count) (hcount : count ≤ top) (htop : top ≤ 8) :
    Draws (fun pool => randMaximumSwitch top maximum mask pool count) count (accept maximum) := by
  have hcase : ¬ count > top := by omega
  have draws : ∀ n v (rand : List UInt8 → BitVec v), count = n → n ≠ 0 → 8 * n ≤ v →
      (∀ raw, raw.length = n → (rand raw).toNat = leNat raw) →
      Draws (converted (randMaximumLoop n rand) maximum mask) n (accept maximum) := by
    intro n v rand hcount hn hv hrand
    exact draws_converted hn hrand hmask (by omega)
  unfold randMaximumSwitch
  simp only [if_neg hcase]
  rcases count with _ | _ | _ | _ | _ | _ | _ | _ | _ | count
  · refine (if_pos rfl).mpr ⟨0, ?_, fun _ => rfl⟩
    have hzero : maximum.toNat.size = 0 := Nat.le_zero.mp hsize
    rw [accept_eq_some, hzero]
    exact ⟨Nat.mod_one _, Nat.zero_le _⟩
  · exact draws 1 8 poolRand8 rfl (by omega) (by omega) fun _ h => toNat_native h (by omega)
  · exact draws 2 16 poolRand16 rfl (by omega) (by omega) fun _ h => toNat_native h (by omega)
  · exact draws 3 32 poolRand24 rfl (by omega) (by omega) fun _ h => toNat_gather_zero h (by omega)
  · exact draws 4 32 poolRand32 rfl (by omega) (by omega) fun _ h => toNat_native h (by omega)
  · exact draws 5 64 poolRand40 rfl (by omega) (by omega) fun _ h => toNat_gather_zero h (by omega)
  · exact draws 6 64 poolRand48 rfl (by omega) (by omega) fun _ h => toNat_gather_zero h (by omega)
  · exact draws 7 64 poolRand56 rfl (by omega) (by omega) fun _ h => toNat_gather_zero h (by omega)
  · exact draws 8 64 poolRand64 rfl (by omega) (by omega) fun _ h => toNat_native h (by omega)
  · omega

/-- As many bytes are drawn as the maximum has. -/
lemma draws_poolRandMaximum (top : ℕ) (hw : w = 8 * top) (htop : top ≤ 8) (maximum : BitVec w) :
    Draws (poolRandMaximum top maximum) ((maximum.toNat.size + 7) / 8) (accept maximum) := by
  have hmask := toNat_mask (by omega) maximum
  have hsize := Nat.size_le.mpr maximum.isLt
  have hcount : (ilog2plus1 (((p2minus1 (maximum.setWidth 64)).setWidth w).setWidth 64) + 7) / 8 =
      (maximum.toNat.size + 7) / 8 := by
    rw [ilog2plus1_eq, toNat_setWidth_of_le (by omega), hmask, size_ones]
  have henough : maximum.toNat.size ≤ 8 * ((maximum.toNat.size + 7) / 8) := by omega
  have hswitch := draws_switch hmask henough (show _ ≤ top by omega) htop
  rw [← hcount] at hswitch ⊢
  exact hswitch

lemma fair_poolRandMaximum (top : ℕ) (hw : w = 8 * top) (htop : top ≤ 8) :
    Fair (poolRandMaximum (w := w) top) :=
  fair_of_draws (by omega) fun maximum =>
    ⟨_, by omega, draws_poolRandMaximum top hw htop maximum⟩

/-- **Bounded random numbers are unbiased.** -/
theorem pool_rand_maximum_fair :
    Fair poolRand8Maximum ∧ Fair poolRand16Maximum ∧ Fair poolRand32Maximum ∧
      Fair poolRand64Maximum := by
  refine ⟨fair_poolRand8Maximum, ?_, ?_, ?_⟩
  · exact fair_poolRandMaximum 2 rfl (by omega)
  · exact fair_poolRandMaximum 4 rfl (by omega)
  · exact fair_poolRandMaximum 8 rfl (by omega)

end Futils.Random
