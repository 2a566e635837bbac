import Futils.Varint.Stream

/-!
# What the reader accepts is the number that was sent

Only a code of the maximal length can spell a number that the type does not hold, by bits of its
last byte.  The loop tests the low half of the byte after it instead, so such a code is accepted
when that byte has a zero low half, and its number is cut to the type; every other accepted code
yields its number exactly.
-/

namespace Futils.Varint

open Futils.Lib Futils.Lib.Base128

namespace Fmt

/-- What was accepted fits the type and is the number that was read; a code inside the buffer whose
number does not fit is refused. -/
def NeverTruncates (f : Fmt) (src : Mem UInt8) (srcLen : ℕ) (r : ReadRes f.Val) : Prop :=
  (r.ret = 0 → ∃ k v, r.valLen = some k ∧ r.val = some v ∧ payload src k < 2 ^ f.width ∧
    f.toInt v = f.ofWire (payload src k)) ∧
  ∀ k, IsCode src k → k ≤ srcLen → 2 ^ f.width ≤ payload src k → r.ret < 0

/-- The buffer holds a code of the maximal length, its last byte has a bit that the type has no
room for, and the low half of the byte after it is zero. -/
def Overlong (f : Fmt) (src : Mem UInt8) (srcLen : ℕ) : Prop :=
  f.valLenMax ≤ srcLen ∧ IsCode src f.valLenMax ∧
    2 ^ (f.width - 7 * (f.valLenMax - 1)) ≤ (src (f.valLenMax - 1)).toNat ∧
    src f.valLenMax &&& 0x0f = 0

section

variable (f : Fmt) {src : Mem UInt8} {srcLen : ℕ}

/-- A shorter code always fits. -/
lemma payload_lt_of_short {n : ℕ} (h : n < f.valLenMax) : payload src n < 2 ^ f.width :=
  Nat.lt_of_lt_of_le (payload_lt src n) (Nat.pow_le_pow_right (by decide) (by
    have : 7 * (f.valLenMax - 1) ≤ f.width := by cases f <;> decide
    omega))

/-- A code of the maximal length fits exactly when its last byte does. -/
lemma payload_lt_iff_last (h : IsCode src f.valLenMax) :
    payload src f.valLenMax < 2 ^ f.width ↔
      (src (f.valLenMax - 1)).toNat < 2 ^ (f.width - 7 * (f.valLenMax - 1)) := by
  obtain ⟨k, hk⟩ : ∃ k, f.valLenMax = k + 1 := ⟨_, (Nat.sub_add_cancel f.valLenMax_pos).symm⟩
  have hw : 7 * k ≤ f.width := by
    have : 7 * (f.valLenMax - 1) ≤ f.width := by cases f <;> decide
    omega
  rw [hk] at h ⊢
  have hb : (src k).toNat < 128 := Nat.not_le.mp h.2.2
  have hlow := payload_lt src k
  have hpow : 2 ^ f.width = 2 ^ (f.width - 7 * k) * 2 ^ (7 * k) := by
    rw [← Nat.pow_add, Nat.sub_add_cancel hw]
  rw [Nat.add_sub_cancel, payload_succ, toNat_and_7f, Nat.mod_eq_of_lt hb, hpow]
  constructor
  · intro hlt
    exact Nat.lt_of_mul_lt_mul_right (Nat.lt_of_le_of_lt (Nat.le_add_left _ _) hlt)
  · intro hlt
    calc payload src k + (src k).toNat * 2 ^ (7 * k)
        < 2 ^ (7 * k) + (src k).toNat * 2 ^ (7 * k) := by omega
      _ = ((src k).toNat + 1) * 2 ^ (7 * k) := by ring
      _ ≤ 2 ^ (f.width - 7 * k) * 2 ^ (7 * k) := Nat.mul_le_mul_right _ hlt

lemma Overlong.accepts {f : Fmt} (h : f.Overlong src srcLen) :
    Accepts src srcLen f.valLenMax f.valLenMax :=
  ⟨h.2.1, h.1, le_rfl, fun _ => h.2.2.2⟩

/-- Among accepted codes, the overlong ones are those whose number does not fit. -/
lemma overlong_iff_of_accepts {n : ℕ} (h : Accepts src srcLen f.valLenMax n) :
    f.Overlong src srcLen ↔ ¬ payload src n < 2 ^ f.width := by
  constructor
  · intro ho
    obtain rfl := h.1.unique ho.2.1
    rw [f.payload_lt_iff_last ho.2.1]
    exact Nat.not_lt.mpr ho.2.2.1
  · intro hn
    have he : n = f.valLenMax := by
      by_contra hne
      exact hn (f.payload_lt_of_short (Nat.lt_of_le_of_ne h.2.2.1 hne))
    subst he
    rw [f.payload_lt_iff_last h.1] at hn
    exact ⟨h.2.1, h.1, Nat.not_lt.mp hn, h.2.2.2 rfl⟩

lemma read_ret_of_empty (src : Mem UInt8) (val : f.Val) (valLen : ℕ) :
    (f.read (some src) 0 (some val) (some valLen)).ret = -EINVAL := by
  cases f <;> rfl

end

/-- **The reader never truncates exactly when the buffer does not hold an overlong code.** -/
theorem neverTruncates_iff (f : Fmt) (src : Mem UInt8) (srcLen : ℕ) (val : f.Val) (valLen : ℕ) :
    f.NeverTruncates src srcLen (f.read (some src) srcLen (some val) (some valLen)) ↔
      ¬ f.Overlong src srcLen := by
  by_cases hacc : ∃ n, Accepts src srcLen f.valLenMax n
  · obtain ⟨n, hn⟩ := hacc
    obtain ⟨h1, h2, v, h3, h4⟩ := f.read_of_accepts val valLen hn
    rw [f.overlong_iff_of_accepts hn, not_not]
    constructor
    · rintro ⟨h, -⟩
      obtain ⟨k, -, hk, -, hlt, -⟩ := h h1
      rw [h2] at hk
      rwa [Option.some.inj hk]
    · intro hlt
      refine ⟨fun _ => ⟨n, v, h2, h3, hlt, h4 hlt⟩, ?_⟩
      intro k hk _ hge
      rw [hk.unique hn.1] at hge
      omega
  · have hneg : (f.read (some src) srcLen (some val) (some valLen)).ret < 0 := by
      by_cases h0 : srcLen = 0
      · rw [h0, read_ret_of_empty]
        decide
      · rw [f.read_of_not_accepts h0 val valLen fun n hn => hacc ⟨n, hn⟩]
        decide
    refine iff_of_true ⟨?_, fun _ _ _ _ => hneg⟩ fun ho => hacc ⟨_, ho.accepts⟩
    intro h0
    omega

/-- The code `ff ff 7f` of 2097151, followed by a zero byte, is read as 65535. -/
theorem not_neverTruncates_u16 :
    ∃ src : Mem UInt8, src = Mem.store (fun _ => 0) 0 [0xff, 0xff, 0x7f, 0x00] ∧
      payload src 3 = 2097151 ∧ (u16.read (some src) 4 (some 0) (some 0)).val = some 65535 ∧
      ¬ u16.NeverTruncates src 4 (u16.read (some src) 4 (some 0) (some 0)) := by
  refine ⟨_, rfl, by decide +kernel, by decide +kernel, ?_⟩
  intro h
  obtain ⟨k, -, hk, -, hlt, -⟩ := h.1 (by decide +kernel)
  have : k = 3 := by
    have : some k = some 3 := hk.symm.trans (by decide +kernel)
    exact Option.some.inj this
  subst this
  exact absurd hlt (by decide +kernel)

end Fmt

end Futils.Varint
