import Mathlib.Algebra.Order.BigOperators.Group.Finset
import Mathlib.Data.List.Basic
import Mathlib.Data.Nat.Notation

/-!
# Threads, a lock and a condition variable

Each of any number of threads is at a place of type `P`.  Of a place it is known whether its thread holds the
lock there, and whether it waits for the condition variable; `Sound` says that the lock and the list of the
waiting threads agree with the places, which the moves of the threads keep.
-/

namespace Futils.Lib

variable {ι P : Type*} [DecidableEq ι]

/-- Who holds the lock, who waits for the condition variable, and where each thread is. -/
structure Monitor (ι P : Type*) where
  lock : Option ι
  waiters : List ι
  pc : ι → P

namespace Monitor

/-- All threads are at the same place, outside of the lock. -/
def start (ι : Type*) (p : P) : Monitor ι P := ⟨none, [], fun _ => p⟩

/-- The thread `i` moves to `p`. -/
def goto (t : Monitor ι P) (i : ι) (p : P) : Monitor ι P := { t with pc := Function.update t.pc i p }

/-- It takes the lock. -/
def acquire (t : Monitor ι P) (i : ι) (p : P) : Monitor ι P := { t.goto i p with lock := some i }

/-- It gives the lock back. -/
def release (t : Monitor ι P) (i : ι) (p : P) : Monitor ι P := { t.goto i p with lock := none }

/-- It gives the lock back and waits, in one step. -/
def await (t : Monitor ι P) (i : ι) (p : P) : Monitor ι P :=
  { t.goto i p with lock := none, waiters := t.waiters ++ [i] }

/-- It waits no longer. -/
def leave (t : Monitor ι P) (i : ι) (p : P) : Monitor ι P :=
  { t.goto i p with waiters := t.waiters.erase i }

variable {t : Monitor ι P} {holds waits : P → Bool} {i j : ι} {p p₀ : P}

@[simp] lemma pc_goto_self : (t.goto i p).pc i = p := Function.update_self ..

@[simp] lemma pc_acquire : (t.acquire i p).pc = (t.goto i p).pc := rfl

@[simp] lemma pc_release : (t.release i p).pc = (t.goto i p).pc := rfl

@[simp] lemma pc_await : (t.await i p).pc = (t.goto i p).pc := rfl

@[simp] lemma pc_leave : (t.leave i p).pc = (t.goto i p).pc := rfl

lemma pc_goto_of_ne (h : j ≠ i) : (t.goto i p).pc j = t.pc j := Function.update_of_ne h ..

/-- What holds of every place still does after a move to a place of which it holds. -/
lemma forall_goto {Q : ι → P → Prop} (h : ∀ j, Q j (t.pc j)) (hp : Q i p) (j : ι) : Q j ((t.goto i p).pc j) := by
  by_cases hj : j = i
  · rw [hj, pc_goto_self]
    exact hp
  · rw [pc_goto_of_ne hj]
    exact h j

/-! ### The lock and the waiting threads -/

/-- The lock and the list of the waiting threads are as the places say. -/
structure Sound (holds waits : P → Bool) (t : Monitor ι P) : Prop where
  lock : ∀ i, holds (t.pc i) = true ↔ t.lock = some i
  waiters : ∀ i, i ∈ t.waiters ↔ waits (t.pc i) = true
  nodup : t.waiters.Nodup

omit [DecidableEq ι] in
lemma sound_start (hh : holds p = false) (hw : waits p = false) : (start ι p).Sound holds waits := by
  refine ⟨fun i => ?_, fun i => ?_, List.nodup_nil⟩
  · simp [start, hh]
  · simp [start, hw]

omit [DecidableEq ι] in
/-- **One thread at a time holds the lock.** -/
lemma Sound.eq (h : t.Sound holds waits) (hi : holds (t.pc i) = true) (hj : holds (t.pc j) = true) : j = i := by
  have hlock := (h.lock i).mp hi
  rw [(h.lock j).mp hj] at hlock
  exact Option.some.inj hlock

lemma Sound.goto (h : t.Sound holds waits) (hi : t.pc i = p₀) (hh : holds p = holds p₀)
    (hw : waits p = waits p₀) : (t.goto i p).Sound holds waits := by
  subst hi
  refine ⟨fun j => ?_, fun j => ?_, h.nodup⟩
  · refine forall_goto (Q := fun j p => holds p = true ↔ t.lock = some j) h.lock ?_ j
    rw [hh]
    exact h.lock i
  · refine forall_goto (Q := fun j p => j ∈ t.waiters ↔ waits p = true) h.waiters ?_ j
    rw [hw]
    exact h.waiters i

lemma Sound.acquire (h : t.Sound holds waits) (hfree : t.lock = none) (hi : t.pc i = p₀)
    (hh : holds p = true) (hw : waits p = waits p₀) : (t.acquire i p).Sound holds waits := by
  subst hi
  refine ⟨fun j => ?_, fun j => ?_, h.nodup⟩
  · change holds ((t.goto i p).pc j) = true ↔ some i = some j
    by_cases hj : j = i
    · rw [hj, pc_goto_self]
      exact iff_of_true hh rfl
    · rw [pc_goto_of_ne hj, h.lock j, hfree, Option.some.injEq]
      exact iff_of_false nofun (Ne.symm hj)
  · refine forall_goto (Q := fun j p => j ∈ t.waiters ↔ waits p = true) h.waiters ?_ j
    rw [hw]
    exact h.waiters i

/-- Nobody holds the lock once its holder has given it back. -/
lemma Sound.not_holds_goto (h : t.Sound holds waits) (hi : holds (t.pc i) = true) (hh : holds p = false) (j : ι) :
    holds ((t.goto i p).pc j) = false := by
  by_cases hj : j = i
  · rw [hj, pc_goto_self]
    exact hh
  · rw [pc_goto_of_ne hj, ← Bool.not_eq_true]
    exact fun hholds => hj (h.eq hi hholds)

lemma Sound.release (h : t.Sound holds waits) (hi : t.pc i = p₀) (hheld : holds p₀ = true)
    (hh : holds p = false) (hw : waits p = waits p₀) : (t.release i p).Sound holds waits := by
  subst hi
  refine ⟨fun j => ?_, fun j => ?_, h.nodup⟩
  · change holds ((t.goto i p).pc j) = true ↔ none = some j
    rw [h.not_holds_goto hheld hh]
    exact iff_of_false nofun nofun
  · refine forall_goto (Q := fun j p => j ∈ t.waiters ↔ waits p = true) h.waiters ?_ j
    rw [hw]
    exact h.waiters i

lemma Sound.await (h : t.Sound holds waits) (hi : t.pc i = p₀) (hheld : holds p₀ = true)
    (hnot : waits p₀ = false) (hh : holds p = false) (hw : waits p = true) :
    (t.await i p).Sound holds waits := by
  subst hi
  have hmem : i ∉ t.waiters := by
    rw [h.waiters i, hnot]
    nofun
  refine ⟨fun j => ?_, fun j => ?_, ?_⟩
  · change holds ((t.goto i p).pc j) = true ↔ none = some j
    rw [h.not_holds_goto hheld hh]
    exact iff_of_false nofun nofun
  · change j ∈ t.waiters ++ [i] ↔ waits ((t.goto i p).pc j) = true
    rw [List.mem_append, List.mem_singleton]
    by_cases hj : j = i
    · rw [hj, pc_goto_self]
      exact iff_of_true (.inr rfl) hw
    · rw [pc_goto_of_ne hj, h.waiters j]
      exact or_iff_left hj
  · exact h.nodup.append (List.nodup_singleton i) (List.disjoint_singleton.mpr hmem)

lemma Sound.leave (h : t.Sound holds waits) (hi : t.pc i = p₀) (hh : holds p = holds p₀)
    (hw : waits p = false) : (t.leave i p).Sound holds waits := by
  subst hi
  refine ⟨fun j => ?_, fun j => ?_, h.nodup.erase i⟩
  · refine forall_goto (Q := fun j p => holds p = true ↔ t.lock = some j) h.lock ?_ j
    rw [hh]
    exact h.lock i
  · change j ∈ t.waiters.erase i ↔ waits ((t.goto i p).pc j) = true
    rw [h.nodup.mem_erase_iff]
    by_cases hj : j = i
    · rw [hj, pc_goto_self, hw]
      exact iff_of_false (fun hne => hne.1 rfl) nofun
    · rw [pc_goto_of_ne hj, h.waiters j]
      exact and_iff_right hj

/-! ### How far the threads have to go -/

/-- The ranks of the threads' places, for the threads of `F`. -/
def total (rank : P → ℕ) (F : Finset ι) (t : Monitor ι P) : ℕ := ∑ i ∈ F, rank (t.pc i)

lemma total_goto (rank : P → ℕ) {F : Finset ι} (hi : i ∈ F) :
    (t.goto i p).total rank F + rank (t.pc i) = t.total rank F + rank p := by
  have hsum : ∑ j ∈ F.erase i, rank ((t.goto i p).pc j) = ∑ j ∈ F.erase i, rank (t.pc j) :=
    Finset.sum_congr rfl fun j hj => by rw [pc_goto_of_ne (Finset.ne_of_mem_erase hj)]
  unfold total
  rw [← Finset.add_sum_erase F _ hi, ← Finset.add_sum_erase F (fun j => rank (t.pc j)) hi, pc_goto_self, hsum]
  omega

omit [DecidableEq ι] in
lemma total_le {rank : P → ℕ} {n : ℕ} (hrank : ∀ p, rank p ≤ n) (F : Finset ι) : t.total rank F ≤ n * F.card := by
  rw [Nat.mul_comm]
  exact Finset.sum_le_card_nsmul F _ n fun i _ => hrank (t.pc i)

end Monitor

end Futils.Lib
