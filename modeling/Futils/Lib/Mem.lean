import Mathlib.Data.List.GetD
import Mathlib.Data.List.Range

/-!
# Addressed memory

A memory is a function from addresses to cells.  `store` copies a list to an address, as `memcpy`
does, and `load` reads a block back.  A buffer that a caller passes as a pointer and a length is a
memory of which the first cells are the buffer and the others are whatever lies after it: what a
function returns may depend on the latter only when it reads past the end.
-/

namespace Futils.Lib

/-- A memory over an arbitrary type of cells. -/
abbrev Mem (α : Type*) := ℕ → α

namespace Mem

variable {α : Type*}

/-- Copy the list `bs` to the address `off`. -/
def store (m : Mem α) (off : ℕ) (bs : List α) : Mem α := fun i =>
  if i < off then m i else bs.getD (i - off) (m i)

/-- The block of `n` cells at the address `off`. -/
def load (m : Mem α) (off n : ℕ) : List α := (List.range n).map fun i => m (off + i)

/-- The memory seen through a pointer advanced by `k`. -/
def shift (m : Mem α) (k : ℕ) : Mem α := fun i => m (k + i)

/-! ### Copying -/

@[simp] lemma store_nil (m : Mem α) (off : ℕ) : store m off [] = m := by
  funext i
  simp [store]

lemma store_of_lt (m : Mem α) {off i : ℕ} (bs : List α) (h : i < off) : store m off bs i = m i := by
  simp [store, h]

lemma store_of_ge (m : Mem α) {off i : ℕ} (bs : List α) (h : off + bs.length ≤ i) :
    store m off bs i = m i := by
  rw [store, if_neg (by omega), List.getD_eq_default _ _ (by omega)]

/-- Inside the block, the copied cell is read. -/
lemma store_apply (m : Mem α) {off i : ℕ} (bs : List α) (h : off ≤ i) (hi : i - off < bs.length) :
    store m off bs i = bs[i - off] := by
  rw [store, if_neg (by omega), List.getD_eq_getElem _ _ hi]

lemma store_cons (m : Mem α) (off : ℕ) (b : α) (bs : List α) :
    store m off (b :: bs) = store (store m off [b]) (off + 1) bs := by
  funext i
  rcases Nat.lt_trichotomy i off with h | h | h
  · simp [store, h, Nat.lt_succ_of_lt h]
  · simp [store, h]
  · have e : i - off = (i - (off + 1)) + 1 := by omega
    simp only [store, if_neg (show ¬ i < off by omega), if_neg (show ¬ i < off + 1 by omega), e,
      List.getD_cons_succ, List.getD_nil]

lemma store_append (m : Mem α) (off : ℕ) (as bs : List α) :
    store m off (as ++ bs) = store (store m off as) (off + as.length) bs := by
  induction as generalizing m off with
  | nil => simp
  | cons a as ih =>
    rw [List.cons_append, store_cons, ih, ← store_cons, List.length_cons,
      show off + 1 + as.length = off + (as.length + 1) by omega]

/-- Copying at address `0` and advancing past the block leaves what lay after it. -/
lemma shift_store_append (m : Mem α) (as bs : List α) :
    shift (store m 0 (as ++ bs)) as.length = store (shift m as.length) 0 bs := by
  funext i
  simp only [shift, store, Nat.not_lt_zero, if_false, Nat.sub_zero]
  rw [List.getD_append_right _ _ _ _ (by omega), Nat.add_sub_cancel_left]

lemma shift_store_cons (m : Mem α) (b : α) (bs : List α) :
    shift (store m 0 (b :: bs)) 1 = store (shift m 1) 0 bs :=
  shift_store_append m [b] bs

/-! ### Reading blocks -/

@[simp] lemma load_zero (m : Mem α) (off : ℕ) : load m off 0 = [] := rfl

@[simp] lemma length_load (m : Mem α) (off n : ℕ) : (load m off n).length = n := by simp [load]

lemma getElem_load (m : Mem α) (off n i : ℕ) (h : i < (load m off n).length) :
    (load m off n)[i] = m (off + i) := by simp [load]

lemma load_congr {m m' : Mem α} {off n : ℕ} (h : ∀ i, off ≤ i → i < off + n → m' i = m i) :
    load m' off n = load m off n := by
  refine List.map_congr_left fun i hi => ?_
  have hi := List.mem_range.mp hi
  exact h (off + i) (by omega) (by omega)

lemma mem_load {m : Mem α} {off n : ℕ} {a : α} :
    a ∈ load m off n ↔ ∃ i, i < n ∧ m (off + i) = a := by
  unfold load
  rw [List.mem_map]
  constructor
  · rintro ⟨i, hi, rfl⟩
    exact ⟨i, List.mem_range.mp hi, rfl⟩
  · rintro ⟨i, hi, rfl⟩
    exact ⟨i, List.mem_range.mpr hi, rfl⟩

lemma take_load (m : Mem α) (off n k : ℕ) : (load m off n).take k = load m off (min k n) := by
  rw [load, ← List.map_take, List.take_range, load]

lemma drop_load (m : Mem α) (off n k : ℕ) :
    (load m off n).drop k = load m (off + k) (n - k) := by
  refine List.ext_getElem (by simp) ?_
  intro i h₁ h₂
  rw [List.getElem_drop, getElem_load, getElem_load, Nat.add_assoc]

lemma load_add (m : Mem α) (off k n : ℕ) :
    load m off (k + n) = load m off k ++ load m (off + k) n := by
  rw [← List.take_append_drop k (load m off (k + n)), take_load, drop_load,
    Nat.min_eq_left (Nat.le_add_right k n), Nat.add_sub_cancel_left]

/-- A block is read in two parts. -/
lemma load_eq_append {m : Mem α} {off k n : ℕ} {l l' : List α} (hl : l.length = k) :
    load m off (k + n) = l ++ l' ↔ load m off k = l ∧ load m (off + k) n = l' := by
  rw [load_add]
  constructor
  · intro h
    exact List.append_inj h ((length_load ..).trans hl.symm)
  · rintro ⟨rfl, rfl⟩
    rfl

@[simp] lemma load_store (m : Mem α) (off : ℕ) (bs : List α) :
    load (store m off bs) off bs.length = bs := by
  refine List.ext_getElem (by simp) ?_
  intro i h₁ h₂
  rw [getElem_load, store_apply _ _ (by omega) (by omega)]
  simp

end Mem

end Futils.Lib
