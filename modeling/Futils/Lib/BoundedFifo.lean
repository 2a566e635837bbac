import Mathlib.Algebra.BigOperators.Group.List.Basic
import Mathlib.Tactic.Ring

/-!
# Bounded queues

A queue of weighted elements that takes an element as long as the total weight stays within a
capacity, and gives the elements back in the order in which it took them.
-/

namespace Futils.Lib.BoundedFifo

variable {α : Type*} (cost : α → ℕ) (cap : ℕ)

/-- The total weight of the elements in the queue. -/
def weight (q : List α) : ℕ := (q.map cost).sum

/-- Take an element, if there is room for it. -/
def push (q : List α) (a : α) : Option (List α) :=
  if weight cost q + cost a ≤ cap then some (q ++ [a]) else none

/-- Give back the oldest element. -/
def pop : List α → Option (α × List α)
  | [] => none
  | a :: q => some (a, q)

@[simp] lemma weight_nil : weight cost [] = 0 := rfl

@[simp] lemma weight_cons (a : α) (q : List α) : weight cost (a :: q) = cost a + weight cost q := by
  simp [weight]

/-- Elements of weight at least `c` are at most `weight / c` many. -/
lemma mul_length_le {c : ℕ} {q : List α} (h : ∀ a ∈ q, c ≤ cost a) :
    c * q.length ≤ weight cost q := by
  induction q with
  | nil => simp
  | cons a q ih =>
    have h1 := h a List.mem_cons_self
    have h2 := ih fun b hb => h b (List.mem_cons_of_mem _ hb)
    rw [List.length_cons, weight_cons, Nat.mul_succ]
    omega

end Futils.Lib.BoundedFifo
