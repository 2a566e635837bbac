import Mathlib.Logic.Equiv.Basic
import Mathlib.SetTheory.Cardinal.Finite

/-!
# Uniform maps

A map is uniform on a set of values if it takes each of them equally often, so that uniform inputs give
uniform values.  Where inputs can be moved from the ones with one value to the ones with another,
that is no more than taking each of the values at all.
-/

namespace Futils.Lib

variable {α β : Type*} {f : α → β} {B : Set β}

/-- The values in `B` are all taken equally often. -/
def Uniform (f : α → β) (B : Set β) : Prop := ∃ k, ∀ b ∈ B, Nat.card {a // f a = b} = k

/-- A uniform map that takes one of the values takes them all. -/
lemma Uniform.surj [Finite α] (h : Uniform f B) {a : α} (ha : f a ∈ B) : ∀ b ∈ B, ∃ a, f a = b := by
  obtain ⟨k, hk⟩ := h
  have hpos : 0 < k := by
    rw [← hk _ ha]
    have : Nonempty {x // f x = f a} := ⟨a, rfl⟩
    exact Nat.card_pos
  intro b hb
  rw [← hk b hb] at hpos
  obtain ⟨⟨a', ha'⟩, -⟩ := Nat.card_pos_iff.mp hpos
  exact ⟨a', ha'⟩

/-- **Uniform is onto**, if `move a₀ a₁` exchanges the inputs with the value of `a₀` for the ones with
the value of `a₁`. -/
theorem uniform_iff_surj [Finite α] (move : α → α → α → α)
    (hinv : ∀ a₀ a₁, Function.Involutive (move a₀ a₁)) (hsymm : ∀ a₀ a₁, move a₀ a₁ = move a₁ a₀)
    (hmove : ∀ a₀ a₁ a, f a = f a₀ → f (move a₀ a₁ a) = f a₁) {a : α} (ha : f a ∈ B) :
    Uniform f B ↔ ∀ b ∈ B, ∃ a, f a = b := by
  constructor
  · intro h
    exact h.surj ha
  · intro h
    refine ⟨Nat.card {x // f x = f a}, fun b hb => ?_⟩
    obtain ⟨a', rfl⟩ := h b hb
    refine Nat.card_congr ((hinv a' a).toPerm.subtypeEquiv fun x => ?_)
    constructor
    · exact hmove a' a x
    · intro hx
      change f (move a' a x) = f a at hx
      have hback := hmove a a' _ hx
      rw [hsymm a a', hinv a' a x] at hback
      exact hback

end Futils.Lib
