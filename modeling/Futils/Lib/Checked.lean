import Mathlib.Data.Int.Notation
import Mathlib.Data.Nat.Notation
import Mathlib.Tactic.SplitIfs

/-!
# Signed arithmetic without overflow

An operation on signed integers of 64 bits is undefined when its result is not one of them: it is `none`
here, and otherwise the result is exact.
-/

namespace Futils.Lib

/-- A signed integer of 64 bits can have this value. -/
def Fits (x : ℤ) : Prop := -9223372036854775808 ≤ x ∧ x ≤ 9223372036854775807

instance (x : ℤ) : Decidable (Fits x) := inferInstanceAs (Decidable (_ ∧ _))

/-- The integer of this value. -/
def int64 (x : ℤ) : Option Int64 := if Fits x then some (.ofInt x) else none

def iadd (a b : Int64) : Option Int64 := int64 (a.toInt + b.toInt)

def isub (a b : Int64) : Option Int64 := int64 (a.toInt - b.toInt)

def imul (a b : Int64) : Option Int64 := int64 (a.toInt * b.toInt)

variable {x : ℤ} {a b c : Int64}

lemma fits_toInt (a : Int64) : Fits a.toInt := by
  have hlo := a.le_toInt
  have hhi := a.toInt_lt
  unfold Fits
  omega

lemma toInt_ofInt (h : Fits x) : (Int64.ofInt x).toInt = x := by
  obtain ⟨hlo, hhi⟩ := h
  exact Int64.toInt_ofInt_of_le (by omega) (by omega)

/-- **What is computed is exact.** -/
lemma int64_eq_some : int64 x = some a ↔ a.toInt = x := by
  unfold int64
  constructor
  · intro h
    split_ifs at h with hfits
    rw [← Option.some.inj h]
    exact toInt_ofInt hfits
  · rintro rfl
    rw [if_pos (fits_toInt a), Int64.ofInt_toInt]

lemma int64_eq_none : int64 x = none ↔ ¬ Fits x := by
  unfold int64
  split_ifs with hfits <;> simp [hfits]

lemma iadd_eq_some : iadd a b = some c ↔ c.toInt = a.toInt + b.toInt := int64_eq_some

lemma isub_eq_some : isub a b = some c ↔ c.toInt = a.toInt - b.toInt := int64_eq_some

lemma imul_eq_some : imul a b = some c ↔ c.toInt = a.toInt * b.toInt := int64_eq_some

lemma exists_int64 (h : Fits x) : ∃ a : Int64, a.toInt = x := ⟨.ofInt x, toInt_ofInt h⟩

/-! ### Conversions -/

/-- The conversion to an unsigned integer wraps. -/
lemma toNat_toUInt64 (a : Int64) : (a.toUInt64.toNat : ℤ) = a.toInt % 18446744073709551616 := by
  have hcond := BitVec.toInt_eq_toNat_cond a.toBitVec
  have hlt := a.toBitVec.isLt
  change ((a.toBitVec.toNat : ℕ) : ℤ) = a.toBitVec.toInt % 18446744073709551616
  split_ifs at hcond <;> omega

/-- And the conversion back. -/
lemma toInt_toInt64 {u : UInt64} (h : (u.toNat : ℤ) ≤ 9223372036854775807) : u.toInt64.toInt = u.toNat := by
  have hcond := BitVec.toInt_eq_toNat_cond u.toBitVec
  change u.toBitVec.toInt = (u.toBitVec.toNat : ℕ)
  have hnat : (u.toBitVec.toNat : ℤ) ≤ 9223372036854775807 := h
  split_ifs at hcond <;> omega

end Futils.Lib
