import Futils.Varint.Defs

/-!
# What the reading loop computes

The loop accepts exactly the codes that end inside the buffer, are not longer than the format
allows and, when they have the maximal length, are followed by a byte whose low half is zero
(`Accepts`).  On such a code it returns the payload modulo `2 ^ 64`; on everything else it returns
`-EPROTO`.
-/

namespace Futils.Varint

open Futils.Lib Futils.Lib.Base128

/-- The code of `n` bytes at the start of `src` passes the tests of the loop. -/
def Accepts (src : Mem UInt8) (srcLen valLenMax n : ℕ) : Prop :=
  IsCode src n ∧ n ≤ srcLen ∧ n ≤ valLenMax ∧ (n = valLenMax → src n &&& 0x0f = 0)

/-! ### One turn -/

section Turn

variable {src : Mem UInt8} {srcLen valLenMax : ℕ} {val : UInt64} {offset : ℕ}

/-- The accumulator after the byte at `offset`. -/
def accum (src : Mem UInt8) (val : UInt64) (offset : ℕ) : UInt64 :=
  val ||| ((src offset &&& 0x7f).toUInt64 <<< (7 * offset).toUInt64)

lemma readLoop_out (h : srcLen < offset + 1 ∨ valLenMax < offset + 1) (shift : ℕ) :
    readLoop src srcLen valLenMax val shift offset =
      ⟨-EPROTO, val ||| ((src offset &&& 0x7f).toUInt64 <<< shift.toUInt64), offset + 1,
        [offset, offset], [shift]⟩ := by
  rw [readLoop, if_pos h]

lemma readLoop_peek (h₁ : offset + 1 ≤ srcLen) (h₂ : offset + 1 = valLenMax)
    (h₃ : src (offset + 1) &&& 0x0f ≠ 0) :
    readLoop src srcLen valLenMax val (7 * offset) offset =
      ⟨-EPROTO, accum src val offset, offset + 1, [offset, offset, offset + 1], [7 * offset]⟩ := by
  rw [readLoop, if_neg (by omega)]
  simp only [h₂, true_and, if_true]
  rw [if_pos (by rwa [← h₂])]
  simp [accum]

lemma readLoop_last (h₁ : offset + 1 ≤ srcLen) (h₂ : offset + 1 ≤ valLenMax)
    (h₃ : offset + 1 = valLenMax → src (offset + 1) &&& 0x0f = 0) (h : ¬ Cont (src offset)) :
    readLoop src srcLen valLenMax val (7 * offset) offset =
      ⟨0, accum src val offset, offset + 1,
        [offset, offset] ++ (if offset + 1 = valLenMax then [offset + 1] else []),
        [7 * offset]⟩ := by
  rw [readLoop, if_neg (by omega)]
  have hn : ¬ (offset + 1 = valLenMax ∧ src (offset + 1) &&& 0x0f ≠ 0) := fun hp => hp.2 (h₃ hp.1)
  simp only [if_neg hn, and_80_ne_zero_iff, if_neg h, accum]

lemma readLoop_more (h₁ : offset + 1 ≤ srcLen) (h₂ : offset + 1 ≤ valLenMax)
    (h₃ : offset + 1 = valLenMax → src (offset + 1) &&& 0x0f = 0) (h : Cont (src offset)) :
    readLoop src srcLen valLenMax val (7 * offset) offset =
      let r := readLoop src srcLen valLenMax (accum src val offset) (7 * (offset + 1)) (offset + 1)
      ⟨r.ret, r.val, r.offset,
        [offset, offset] ++ (if offset + 1 = valLenMax then [offset + 1] else []) ++ r.reads,
        7 * offset :: r.shifts⟩ := by
  rw [readLoop, if_neg (by omega)]
  have hn : ¬ (offset + 1 = valLenMax ∧ src (offset + 1) &&& 0x0f ≠ 0) := fun hp => hp.2 (h₃ hp.1)
  simp only [if_neg hn, and_80_ne_zero_iff, if_pos h, accum, Nat.mul_succ]

/-- Below the tenth byte the accumulator holds the payload so far, and takes in the next group. -/
lemma accum_toNat (hk : offset ≤ 9) (hv : val.toNat = payload src offset) :
    (accum src val offset).toNat = payload src (offset + 1) % 2 ^ 64 := by
  have hlt := payload_lt src offset
  have hb := and_7f_lt (src offset)
  have hsh : (7 * offset).toUInt64.toNat % 64 = 7 * offset := by
    rw [Nat.toUInt64, UInt64.toNat_ofNat']
    omega
  obtain ⟨c, hc⟩ : ∃ c, 2 ^ 64 = 2 ^ (7 * offset) * c :=
    ⟨2 ^ (64 - 7 * offset), by rw [← Nat.pow_add]; congr 1; omega⟩
  -- what the shift keeps of the group is a multiple of `2 ^ (7 * offset)`
  have hmod : (src offset &&& 0x7f).toNat * 2 ^ (7 * offset) % 2 ^ 64 =
      2 ^ (7 * offset) * ((src offset &&& 0x7f).toNat % c) := by
    rw [hc, Nat.mul_comm, Nat.mul_mod_mul_left]
  have hp : payload src offset < 2 ^ 64 :=
    Nat.lt_of_lt_of_le hlt (Nat.pow_le_pow_right (by decide) (by omega))
  have hcm : (src offset &&& 0x7f).toNat % c < c :=
    Nat.mod_lt _ (Nat.pos_of_ne_zero fun h0 => by simp [h0] at hc)
  have hsum : (src offset &&& 0x7f).toNat * 2 ^ (7 * offset) % 2 ^ 64 + payload src offset < 2 ^ 64 :=
    calc _ < 2 ^ (7 * offset) * ((src offset &&& 0x7f).toNat % c) + 2 ^ (7 * offset) := by
          rw [hmod]
          omega
      _ = 2 ^ (7 * offset) * ((src offset &&& 0x7f).toNat % c + 1) := by ring
      _ ≤ 2 ^ (7 * offset) * c := Nat.mul_le_mul_left _ hcm
      _ = 2 ^ 64 := hc.symm
  rw [accum, UInt64.toNat_or, UInt64.toNat_shiftLeft, UInt8.toNat_toUInt64, hsh, Nat.shiftLeft_eq,
    hv, hmod, Nat.or_comm, ← Nat.two_pow_add_eq_or_of_lt hlt, ← hmod, payload_succ,
    Nat.add_comm (payload src offset), Nat.add_mod _ (payload src offset), Nat.mod_eq_of_lt hp,
    Nat.mod_eq_of_lt hsum]

/-- While a code goes on, nothing is lost. -/
lemma accum_toNat_of_lt (hk : offset < 9) (hv : val.toNat = payload src offset) :
    (accum src val offset).toNat = payload src (offset + 1) := by
  rw [accum_toNat (by omega) hv]
  refine Nat.mod_eq_of_lt (Nat.lt_of_lt_of_le (payload_lt _ _) ?_)
  exact Nat.pow_le_pow_right (by decide) (by omega)

end Turn

/-! ### All turns -/

section Loop

variable {src : Mem UInt8} {srcLen valLenMax : ℕ} (hmax : valLenMax ≤ 10)
include hmax

/-- **An accepted code is read**, from any byte of it on. -/
theorem readLoop_of_accepts {n : ℕ} (h : Accepts src srcLen valLenMax n) {offset : ℕ}
    {val : UInt64} (hk : offset < n) (hv : val.toNat = payload src offset) :
    let r := readLoop src srcLen valLenMax val (7 * offset) offset
    r.ret = 0 ∧ r.offset = n ∧ r.val.toNat = payload src n % 2 ^ 64 := by
  obtain ⟨⟨h0, hc, hl⟩, hL, hN, hp⟩ := h
  induction hd : n - offset generalizing offset val with
  | zero => omega
  | succ d ih =>
    rcases Nat.lt_or_ge (offset + 1) n with hlt | hge
    · have := ih hlt (accum_toNat_of_lt (by omega) hv) (by omega)
      rw [readLoop_more (by omega) (by omega) (by omega) (hc offset hlt)]
      exact this
    · have hn : n = offset + 1 := by omega
      subst hn
      rw [readLoop_last hL hN hp hl]
      exact ⟨rfl, rfl, accum_toNat (by omega) hv⟩

omit hmax in
/-- **What is not accepted is refused** with `-EPROTO`. -/
theorem readLoop_of_not_accepts (h : ∀ n, ¬ Accepts src srcLen valLenMax n) {offset : ℕ}
    {val : UInt64} (hc : ∀ i < offset, Cont (src i)) :
    (readLoop src srcLen valLenMax val (7 * offset) offset).ret = -EPROTO := by
  induction hd : valLenMax + 1 - offset generalizing offset val with
  | zero => rw [readLoop_out (by omega)]
  | succ d ih =>
    by_cases hout : srcLen < offset + 1 ∨ valLenMax < offset + 1
    · rw [readLoop_out hout]
    by_cases hp : offset + 1 = valLenMax ∧ src (offset + 1) &&& 0x0f ≠ 0
    · rw [readLoop_peek (by omega) hp.1 hp.2]
    have hp' : offset + 1 = valLenMax → src (offset + 1) &&& 0x0f = 0 := fun e => by
      by_contra hne
      exact hp ⟨e, hne⟩
    by_cases hcont : Cont (src offset)
    · rw [readLoop_more (by omega) (by omega) hp' hcont]
      refine ih ?_ (by omega)
      intro i hi
      rcases Nat.lt_succ_iff_lt_or_eq.mp hi with hi | rfl
      · exact hc i hi
      · exact hcont
    · exact absurd ⟨⟨by omega, fun i hi => hc i (by omega), by simpa using hcont⟩, by omega,
        by omega, hp'⟩ (h (offset + 1))

end Loop

/-! ### The reader -/

section Reader

variable {src : Mem UInt8} {srcLen valLenMax : ℕ} (val : UInt64) (valLen : ℕ)

theorem varintRead_of_accepts (hmax : valLenMax ≤ 10) {n : ℕ}
    (h : Accepts src srcLen valLenMax n) :
    let r := varintRead (some src) srcLen (some val) (some valLen) valLenMax
    r.ret = 0 ∧ r.valLen = some n ∧ ∃ v, r.val = some v ∧ v.toNat = payload src n % 2 ^ 64 := by
  have hpos : srcLen ≠ 0 := by
    have := h.1.1
    have := h.2.1
    omega
  obtain ⟨h1, h2, h3⟩ := readLoop_of_accepts hmax h h.1.1
    (show (0 : UInt64).toNat = payload src 0 by simp)
  simp only [Nat.mul_zero] at h1 h2 h3
  refine ⟨?_, ?_, _, ?_, h3⟩ <;> simp only [varintRead, if_neg hpos, h1, if_true, h2]

theorem varintRead_of_not_accepts (hpos : srcLen ≠ 0)
    (h : ∀ n, ¬ Accepts src srcLen valLenMax n) :
    (varintRead (some src) srcLen (some val) (some valLen) valLenMax).ret = -EPROTO := by
  simp only [varintRead, if_neg hpos]
  exact readLoop_of_not_accepts h (show ∀ i < 0, Cont (src i) by simp)

end Reader

end Futils.Varint
