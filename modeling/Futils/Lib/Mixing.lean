import Mathlib.Data.List.Basic
import Mathlib.Data.Nat.ModEq
import Mathlib.Data.Nat.Prime.Basic
import Mathlib.Algebra.Group.Nat.Defs

/-!
# Mixing functions of words

Hash functions mix a word by adding or xoring it to itself shifted.  Added to itself shifted left, a word is
multiplied by an odd number; xored to itself shifted right, its bits can be recovered from the highest one
on.  Neither loses anything, so that a fold of such steps tells two inputs apart that differ in one item.
-/

namespace Futils.Lib

section Words

variable {w k : ℕ}

lemma toNat_add_shiftLeft (x : BitVec w) : (x + x <<< k).toNat = x.toNat * (2 ^ k + 1) % 2 ^ w := by
  rw [BitVec.toNat_add, BitVec.toNat_shiftLeft, Nat.shiftLeft_eq, Nat.add_mod_mod, Nat.mul_add, Nat.mul_one,
    Nat.add_comm]

/-- The multiplication by `2 ^ k + 1` loses nothing. -/
lemma add_shiftLeft_injective (hk : 0 < k) : Function.Injective fun x : BitVec w => x + x <<< k := by
  intro x y h
  have hodd : Nat.gcd (2 ^ w) (2 ^ k + 1) = 1 := by
    refine Nat.Coprime.pow_left w ?_
    rw [Nat.coprime_two_left]
    exact (Nat.even_pow.mpr ⟨even_two, hk.ne'⟩).add_one
  have hmod : x.toNat * (2 ^ k + 1) ≡ y.toNat * (2 ^ k + 1) [MOD 2 ^ w] := by
    have hnat := congrArg BitVec.toNat h
    simp only [toNat_add_shiftLeft] at hnat
    exact hnat
  have hcancel := Nat.ModEq.cancel_right_of_coprime hodd hmod
  exact BitVec.eq_of_toNat_eq (hcancel.eq_of_lt_of_lt x.isLt y.isLt)

/-- The highest bits stay, and each bit below is found from those above it. -/
lemma xor_ushiftRight_injective (hk : 0 < k) : Function.Injective fun x : BitVec w => x ^^^ x >>> k := by
  intro x y h
  have hbit : ∀ i, (x.getLsbD i ^^ x.getLsbD (k + i)) = (y.getLsbD i ^^ y.getLsbD (k + i)) := by
    intro i
    have hi := congrArg (fun z => z.getLsbD i) h
    simpa only [BitVec.getLsbD_xor, BitVec.getLsbD_ushiftRight] using hi
  have hall : ∀ n i, w ≤ i + n → x.getLsbD i = y.getLsbD i := by
    intro n
    induction n with
    | zero =>
      intro i hi
      rw [BitVec.getLsbD_of_ge x i hi, BitVec.getLsbD_of_ge y i hi]
    | succ n ih =>
      intro i hi
      have hhigh : x.getLsbD (k + i) = y.getLsbD (k + i) := ih (k + i) (by omega)
      have hlow := hbit i
      rw [hhigh] at hlow
      exact Bool.xor_left_inj.mp hlow
  exact BitVec.eq_of_getLsbD_eq fun i _ => hall w i (Nat.le_add_left w i)

/-- A rotation moves the bits. -/
lemma or_shift_injective (hk : k ≤ w) : Function.Injective fun x : BitVec w => x <<< k ||| x >>> (w - k) := by
  intro x y h
  have hbit : ∀ i, (x <<< k ||| x >>> (w - k)).getLsbD i = (y <<< k ||| y >>> (w - k)).getLsbD i :=
    fun i => congrArg (fun z => z.getLsbD i) h
  simp only [BitVec.getLsbD_or, BitVec.getLsbD_shiftLeft, BitVec.getLsbD_ushiftRight] at hbit
  refine BitVec.eq_of_getLsbD_eq fun j hj => ?_
  by_cases hlow : j < w - k
  · -- the bit `j` is moved up by `k`
    have hj' := hbit (j + k)
    have hgone : ∀ z : BitVec w, z.getLsbD (w - k + (j + k)) = false :=
      fun z => BitVec.getLsbD_of_ge z _ (by omega)
    rw [Nat.add_sub_cancel, hgone, hgone] at hj'
    simpa [show j + k < w by omega, show ¬ j + k < k by omega] using hj'
  · -- the bit `j` comes round
    have hj' := hbit (j - (w - k))
    rw [show w - k + (j - (w - k)) = j by omega] at hj'
    simpa [show j - (w - k) < k by omega] using hj'

end Words

section Vectors

variable {α : Type*} {n : ℕ}

/-- One word is mixed with another, which stays. -/
lemma set_injective {g : α → α → α} (hg : ∀ b, Function.Injective fun a => g a b) {i j : Fin n} (hij : i ≠ j) :
    Function.Injective fun x : Vector α n => x.set i (g x[i] x[j]) := by
  intro x y h
  have hget : ∀ k (hk : k < n), (x.set i (g x[i] x[j]))[k] = (y.set i (g y[i] y[j]))[k] :=
    fun k hk => congrArg (fun z : Vector α n => z[k]) h
  have hother : ∀ k (hk : k < n), k ≠ i → x[k] = y[k] := by
    intro k hk hne
    have hk' := hget k hk
    rwa [Vector.getElem_set_ne _ _ hne.symm, Vector.getElem_set_ne _ _ hne.symm] at hk'
  refine Vector.ext fun k hk => ?_
  by_cases hki : k = i
  · subst hki
    have hmixed := hget i i.isLt
    rw [Vector.getElem_set_self, Vector.getElem_set_self] at hmixed
    have hj : x[j] = y[j] := hother j j.isLt fun hji => hij (Fin.ext hji.symm)
    rw [hj] at hmixed
    exact hg _ hmixed
  · exact hother k hk hki

end Vectors

section Folds

variable {α β : Type*} {step : α → β → α}

/-- Steps that lose nothing make up folds that lose nothing. -/
lemma foldl_injective (h : ∀ b, Function.Injective fun a => step a b) (l : List β) :
    Function.Injective fun a => l.foldl step a := by
  induction l with
  | nil => exact Function.injective_id
  | cons b l ih =>
    intro a a' heq
    exact h b (ih heq)

/-- **One item is changed**: the fold is another one. -/
theorem foldl_set_ne (h : ∀ b, Function.Injective fun a => step a b) (hitem : ∀ a, Function.Injective (step a))
    (a : α) {l : List β} {i : ℕ} (hi : i < l.length) {b : β} (hb : b ≠ l[i]) :
    (l.set i b).foldl step a ≠ l.foldl step a := by
  have hset : l.set i b = l.take i ++ b :: l.drop (i + 1) := List.set_eq_take_append_cons_drop.trans (if_pos hi)
  have hsplit : l = l.take i ++ l[i] :: l.drop (i + 1) := by
    rw [List.getElem_cons_drop, List.take_append_drop]
  intro heq
  rw [hset] at heq
  nth_rewrite 3 [hsplit] at heq
  simp only [List.foldl_append, List.foldl_cons] at heq
  exact hb (hitem _ (foldl_injective h _ heq))

end Folds

end Futils.Lib
