import Mathlib.Data.Nat.Notation
import Mathlib.Tactic.SplitIfs

/-!
# Reachable states

A labelled transition system is a partial step function.  `Reach step ok s₀` are the states that
runs from `s₀` reach when each of their steps meets `ok`, a condition on the state before the step
and the label; an invariant has to be kept by such steps only.
-/

namespace Futils.Lib

variable {S A : Type*}

/-- The states reached from `s₀` by steps that meet `ok`. -/
inductive Reach (step : S → A → Option S) (ok : S → A → Prop) (s₀ : S) : S → Prop
  | refl : Reach step ok s₀ s₀
  | tail {s s' : S} {a : A} :
      Reach step ok s₀ s → ok s a → step s a = some s' → Reach step ok s₀ s'

/-- Every step is allowed. -/
def anyStep (_ : S) (_ : A) : Prop := True

instance (s : S) (a : A) : Decidable (anyStep s a) := inferInstanceAs (Decidable True)

/-- Execute a list of labels, as long as the steps meet `ok`. -/
def exec (step : S → A → Option S) (ok : S → A → Prop) [∀ s a, Decidable (ok s a)] (s : S) :
    List A → Option S
  | [] => some s
  | a :: as => if ok s a then (step s a).bind fun s => exec step ok s as else none

/-- **An invariant holds in every state reached.** -/
theorem Reach.invariant {step : S → A → Option S} {ok : S → A → Prop} {s₀ s : S} {I : S → Prop}
    (hr : Reach step ok s₀ s) (h₀ : I s₀)
    (hstep : ∀ s a s', I s → ok s a → step s a = some s' → I s') : I s := by
  induction hr with
  | refl => exact h₀
  | tail _ hok hs ih => exact hstep _ _ _ ih hok hs

lemma Reach.trans {step : S → A → Option S} {ok : S → A → Prop} {s₀ s₁ s₂ : S}
    (h₁ : Reach step ok s₀ s₁) (h₂ : Reach step ok s₁ s₂) : Reach step ok s₀ s₂ := by
  induction h₂ with
  | refl => exact h₁
  | tail _ hok hs ih => exact ih.tail hok hs

/-- Steps that meet a condition meet a weaker one. -/
lemma Reach.mono {step : S → A → Option S} {ok ok' : S → A → Prop} {s₀ s : S} (h : Reach step ok s₀ s)
    (hok : ∀ s a, ok s a → ok' s a) : Reach step ok' s₀ s := by
  induction h with
  | refl => exact .refl
  | tail _ hstep hs ih => exact ih.tail (hok _ _ hstep) hs

/-- What is executed is reached. -/
theorem reach_of_exec {step : S → A → Option S} {ok : S → A → Prop} [∀ s a, Decidable (ok s a)]
    {as : List A} {s s' : S} (h : exec step ok s as = some s') : Reach step ok s s' := by
  induction as generalizing s with
  | nil =>
    obtain rfl := Option.some.inj h
    exact .refl
  | cons a as ih =>
    rw [exec] at h
    split_ifs at h with hok
    obtain ⟨s₁, hs, hrest⟩ := Option.bind_eq_some_iff.mp h
    exact (Reach.refl.tail hok hs).trans (ih hrest)

/-- **Steps that each lower a rank**, under an invariant that they keep, are no more than the rank allows. -/
theorem length_add_rank_le_of_invariant {step : S → A → Option S} {ok : S → A → Prop}
    [∀ s a, Decidable (ok s a)] (rank : S → ℕ) (I : S → Prop)
    (hstep : ∀ s a s', I s → ok s a → step s a = some s' → I s' ∧ rank s' < rank s) {as : List A}
    {s s' : S} (hs : I s) (h : exec step ok s as = some s') : as.length + rank s' ≤ rank s := by
  induction as generalizing s with
  | nil =>
    obtain rfl := Option.some.inj h
    exact Nat.le_of_eq (Nat.zero_add _)
  | cons a as ih =>
    rw [exec] at h
    split_ifs at h with hok
    obtain ⟨s₁, hs₁, hrest⟩ := Option.bind_eq_some_iff.mp h
    obtain ⟨hkeep, hlt⟩ := hstep s a s₁ hs hok hs₁
    have hle := ih hkeep hrest
    rw [List.length_cons]
    omega

/-- The same without an invariant. -/
theorem length_add_rank_le {step : S → A → Option S} {ok : S → A → Prop} [∀ s a, Decidable (ok s a)]
    {rank : S → ℕ} (hrank : ∀ s a s', ok s a → step s a = some s' → rank s' < rank s) {as : List A}
    {s s' : S} (h : exec step ok s as = some s') : as.length + rank s' ≤ rank s :=
  length_add_rank_le_of_invariant rank (fun _ => True)
    (fun s a s' _ hok hs => ⟨trivial, hrank s a s' hok hs⟩) trivial h

/-! ### Runs of a total step function -/

/-- `P` holds at each step of the run that makes the steps `as` from `s`. -/
def Along (next : S → A → S) (P : S → A → Prop) : S → List A → Prop
  | _, [] => True
  | s, a :: as => P s a ∧ Along next P (next s a) as

/-- **What is the same at each step is the same along a run**, under an invariant that the steps keep
as long as it holds. -/
theorem along_iff {next : S → A → S} {I : S → Prop} {P Q R : S → A → Prop}
    (hiff : ∀ s a, I s → Q s a → (P s a ↔ R s a))
    (hkeep : ∀ s a, I s → Q s a → P s a → I (next s a)) {s : S} {as : List A} (hs : I s)
    (hQ : Along next Q s as) : Along next P s as ↔ Along next R s as := by
  induction as generalizing s with
  | nil => exact Iff.rfl
  | cons a as ih =>
    have hstep := hiff s a hs hQ.1
    constructor
    · intro h
      exact ⟨hstep.mp h.1, (ih (hkeep s a hs hQ.1 h.1) hQ.2).mp h.2⟩
    · intro h
      have hP := hstep.mpr h.1
      exact ⟨hP, (ih (hkeep s a hs hQ.1 hP) hQ.2).mpr h.2⟩

end Futils.Lib
