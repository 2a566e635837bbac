import Futils.Lib.Base128

/-!
# Shortest base-128 codes as byte strings

A code ends with its first byte that does not say that another one follows, so that no code is a proper
prefix of another.  Of the codes that spell a number, one does not end with a superfluous zero byte; it is
`encode`, and it is shorter than the others.
-/

namespace Futils.Lib.Base128

/-- Every byte but the last says that another one follows. -/
def Code : List UInt8 → Prop
  | [] => False
  | [b] => ¬ Cont b
  | b :: c :: bs => Cont b ∧ Code (c :: bs)

/-- The number that a byte string spells, the least significant group first. -/
def spelled : List UInt8 → ℕ
  | [] => 0
  | b :: bs => b.toNat % 128 + 128 * spelled bs

/-- A code without a superfluous byte. -/
structure Shortest (n : ℕ) (bs : List UInt8) : Prop where
  code : Code bs
  spells : spelled bs = n
  last : 1 < bs.length → bs.getLast? ≠ some 0

variable {n : ℕ} {b : UInt8} {bs cs : List UInt8}

/-! ### Codes -/

lemma code_singleton : Code [b] ↔ ¬ Cont b := Iff.rfl

lemma code_cons (h : bs ≠ []) : Code (b :: bs) ↔ Cont b ∧ Code bs := by
  cases bs with
  | nil => exact absurd rfl h
  | cons c bs => exact Iff.rfl

lemma Code.ne_nil (h : Code bs) : bs ≠ [] := by
  rintro rfl
  exact h

/-- **No code is a proper prefix of another**. -/
theorem Code.eq_of_prefix (hb : Code bs) (hc : Code cs) (h : bs <+: cs) : bs = cs := by
  induction bs generalizing cs with
  | nil => exact absurd rfl hb.ne_nil
  | cons b bs ih =>
    obtain ⟨rest, rfl⟩ := h
    rw [List.cons_append] at hc ⊢
    rcases eq_or_ne bs [] with rfl | hne
    · rcases eq_or_ne rest [] with rfl | hrest
      · rfl
      · -- the only byte of the first code has a byte after it in the second one
        rw [List.nil_append, code_cons hrest] at hc
        exact absurd hc.1 hb
    · rw [code_cons hne] at hb
      rw [code_cons (by simp [hne])] at hc
      rw [← ih hb.2 hc.2 (List.prefix_append bs rest)]

/-! ### The shortest code -/

lemma spelled_singleton (h : ¬ Cont b) : spelled [b] = b.toNat := by
  unfold Cont at h
  simp only [spelled]
  omega

/-- A code that does not end with a zero byte spells a positive number. -/
lemma spelled_pos (h : Code bs) (hlast : bs.getLast? ≠ some 0) : 0 < spelled bs := by
  induction bs with
  | nil => exact absurd rfl h.ne_nil
  | cons b bs ih =>
    rcases eq_or_ne bs [] with rfl | hne
    · rw [spelled_singleton h, Nat.pos_iff_ne_zero]
      intro hb
      have hzero : b = 0 := UInt8.toNat_inj.mp hb
      simp [hzero] at hlast
    · rw [code_cons hne] at h
      rw [List.getLast?_cons_of_ne_nil hne] at hlast
      have htail := ih h.2 hlast
      simp only [spelled]
      omega

/-- The shortest code of `n` is the only one without a superfluous byte. -/
lemma Shortest.eq_encode (h : Shortest n bs) : bs = encode n := by
  induction bs generalizing n with
  | nil => exact absurd rfl h.code.ne_nil
  | cons b bs ih =>
    obtain ⟨hcode, rfl, hlast⟩ := h
    rcases eq_or_ne bs [] with rfl | hne
    · have hb : b.toNat < 128 := Nat.not_le.mp (code_singleton.mp hcode)
      rw [spelled_singleton hcode, encode_of_lt hb]
      simp
    · rw [code_cons hne] at hcode
      have hlen : 1 < (b :: bs).length := by simpa [List.length_pos_iff] using hne
      have htail : bs.getLast? ≠ some 0 := by
        have := hlast hlen
        rwa [List.getLast?_cons_of_ne_nil hne] at this
      have hpos : 0 < spelled bs := spelled_pos hcode.2 htail
      have hb : 128 ≤ b.toNat := hcode.1
      have hbyte : b.toNat < 256 := b.toNat_lt
      have hmod : (b.toNat % 128 + 128 * spelled bs) % 128 + 128 = b.toNat := by omega
      have hdiv : (b.toNat % 128 + 128 * spelled bs) / 128 = spelled bs := by omega
      rw [spelled, encode_of_ge (by omega), hmod, hdiv, ← ih ⟨hcode.2, rfl, fun _ => htail⟩]
      simp

lemma shortest_encode (n : ℕ) : Shortest n (encode n) := by
  induction n using Nat.strongRecOn with
  | ind n ih =>
    by_cases h : n < 128
    · have hbyte : n.toUInt8.toNat = n := toNat_toUInt8 (by omega)
      have hcode : Code [n.toUInt8] := by
        rw [code_singleton, Cont, hbyte]
        omega
      rw [encode_of_lt h]
      refine ⟨hcode, ?_, ?_⟩
      · rw [spelled_singleton hcode, hbyte]
      · simp
    · have hbyte : (n % 128 + 128).toUInt8.toNat = n % 128 + 128 := toNat_toUInt8 (by omega)
      have hne := encode_ne_nil (n / 128)
      obtain ⟨hcode, hspells, hlast⟩ := ih (n / 128) (by omega)
      rw [encode_of_ge h]
      refine ⟨?_, ?_, ?_⟩
      · rw [code_cons hne, Cont, hbyte]
        exact ⟨by omega, hcode⟩
      · rw [spelled, hspells, hbyte]
        omega
      · intro _
        rw [List.getLast?_cons_of_ne_nil hne]
        by_cases hlen : 1 < (encode (n / 128)).length
        · exact hlast hlen
        · -- the last group is the whole of `n / 128`, which is not zero
          have hsmall : n / 128 < 128 := by
            by_contra hge
            rw [encode_of_ge hge, List.length_cons] at hlen
            have := length_encode_pos (n / 128 / 128)
            omega
          rw [encode_of_lt hsmall, List.getLast?_singleton, Ne, Option.some.injEq, ← UInt8.toNat_inj,
            toNat_toUInt8 (by omega)]
          simp only [UInt8.toNat_zero]
          omega

/-- **Uniqueness**. -/
theorem shortest_iff : Shortest n bs ↔ bs = encode n := by
  constructor
  · exact Shortest.eq_encode
  · rintro rfl
    exact shortest_encode n

/-- Every code of a number is at least as long as the shortest one. -/
theorem length_encode_le (h : Code bs) : (encode (spelled bs)).length ≤ bs.length := by
  have hlt : spelled bs < 2 ^ (7 * bs.length) := by
    clear h
    induction bs with
    | nil => simp [spelled]
    | cons b bs ih =>
      rw [spelled, List.length_cons, Nat.mul_succ, Nat.pow_add]
      omega
  obtain ⟨k, hk⟩ := Nat.exists_eq_succ_of_ne_zero (List.length_pos_iff.mpr h.ne_nil).ne'
  rw [hk] at hlt ⊢
  exact (length_encode_le_iff _ k).mpr hlt

end Futils.Lib.Base128
