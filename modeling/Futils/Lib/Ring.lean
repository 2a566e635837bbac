import Futils.Lib.Mem

/-!
# Circular blocks

A ring of `cap` cells holds a block that starts at any cell and goes on at cell `0` after the last
one.  `ringStore` is the copy in at most two pieces that programs make; it appends to the block it
follows (`ringLoad_ringStore_append`), and the front of a block is cut off by moving its start
(`ringLoad_add`).
-/

namespace Futils.Lib.Mem

variable {α : Type*}

/-- The block of `n` cells that starts at `start`. -/
def ringLoad (m : Mem α) (cap start n : ℕ) : List α :=
  (List.range n).map fun i => m ((start + i) % cap)

/-- Copy `bs` to the ring: up to its end, then from cell `0` on. -/
def ringStore (m : Mem α) (cap start : ℕ) (bs : List α) : Mem α :=
  (m.store start (bs.take (cap - start))).store 0 (bs.drop (cap - start))

/-! ### Addresses -/

lemma mod_of_lt_two_mul {x cap : ℕ} (h : x < 2 * cap) :
    x % cap = if x < cap then x else x - cap := by
  split_ifs with hlt
  · exact Nat.mod_eq_of_lt hlt
  · rw [Nat.mod_eq_sub_mod (by omega), Nat.mod_eq_of_lt (by omega)]

/-! ### Reading -/

@[simp] lemma length_ringLoad (m : Mem α) (cap start n : ℕ) :
    (ringLoad m cap start n).length = n := by simp [ringLoad]

lemma getElem_ringLoad (m : Mem α) (cap start n i : ℕ) (h : i < (ringLoad m cap start n).length) :
    (ringLoad m cap start n)[i] = m ((start + i) % cap) := by simp [ringLoad]

/-- **A block is its front and the block that starts after it.** -/
lemma ringLoad_add (m : Mem α) (cap start a b : ℕ) :
    ringLoad m cap start (a + b) =
      ringLoad m cap start a ++ ringLoad m cap ((start + a) % cap) b := by
  simp [ringLoad, List.range_add, Function.comp_def, Nat.add_assoc]

/-- Reading in two pieces: up to the end of the ring, then from cell `0` on. -/
lemma ringLoad_eq_load (m : Mem α) {cap start n : ℕ} (hs : start < cap) (hn : n ≤ cap) :
    ringLoad m cap start n =
      m.load start (min (cap - start) n) ++ m.load 0 (n - (cap - start)) := by
  rcases Nat.le_total n (cap - start) with h | h
  · rw [Nat.min_eq_right h, Nat.sub_eq_zero_of_le h, load_zero, List.append_nil]
    apply List.map_congr_left
    intro i hi
    rw [Nat.mod_eq_of_lt]
    have := List.mem_range.mp hi
    omega
  · rw [Nat.min_eq_left h]
    conv_lhs => rw [← Nat.add_sub_cancel' h, ringLoad_add]
    congr 1
    · apply List.map_congr_left
      intro i hi
      rw [Nat.mod_eq_of_lt]
      have := List.mem_range.mp hi
      omega
    · apply List.map_congr_left
      intro i hi
      have := List.mem_range.mp hi
      rw [Nat.add_sub_cancel' (Nat.le_of_lt hs), Nat.mod_self, Nat.mod_eq_of_lt (by omega)]

/-! ### Writing -/

/-- The copied cells are read back at their places. -/
lemma ringStore_apply (m : Mem α) {cap start : ℕ} {bs : List α} (hs : start < cap)
    (hn : bs.length ≤ cap) {i : ℕ} (hi : i < bs.length) :
    ringStore m cap start bs ((start + i) % cap) = bs[i] := by
  rw [mod_of_lt_two_mul (by omega), ringStore]
  split_ifs with h
  · rw [store_of_ge _ _ (by rw [List.length_drop]; omega),
      store_apply _ _ (by omega) (by rw [List.length_take]; omega), List.getElem_take]
    congr 1
    omega
  · rw [store_apply _ _ (by omega) (by rw [List.length_drop]; omega), List.getElem_drop]
    congr 1
    omega

/-- The cells before the copied block, as many as there is room for, are unchanged. -/
lemma ringStore_apply_of_before (m : Mem α) {cap start n j : ℕ} {bs : List α} (hs : start < cap)
    (hn : n + bs.length ≤ cap) (hj : j < n) :
    ringStore m cap ((start + n) % cap) bs ((start + j) % cap) = m ((start + j) % cap) := by
  rw [mod_of_lt_two_mul (show start + j < 2 * cap by omega),
    mod_of_lt_two_mul (show start + n < 2 * cap by omega), ringStore]
  have hlen := @List.length_drop α
  have hlen' := @List.length_take α
  -- the place read lies before the pieces or after them
  split_ifs with h₁ h₂ h₂
  · rw [store_of_ge _ _ (by rw [hlen]; omega), store_of_lt _ _ (by omega)]
  · omega
  · rw [store_of_ge _ _ (by rw [hlen]; omega), store_of_ge _ _ (by rw [hlen']; omega)]
  · rw [store_of_ge _ _ (by rw [hlen]; omega), store_of_lt _ _ (by omega)]

/-- **A copy that follows a block appends to it.** -/
theorem ringLoad_ringStore_append (m : Mem α) {cap start n : ℕ} {bs : List α} (hs : start < cap)
    (hn : n + bs.length ≤ cap) :
    ringLoad (ringStore m cap ((start + n) % cap) bs) cap start (n + bs.length) =
      ringLoad m cap start n ++ bs := by
  have hpos : 0 < cap := by omega
  rw [ringLoad_add]
  congr 1
  · exact List.map_congr_left fun j hj =>
      ringStore_apply_of_before m hs hn (List.mem_range.mp hj)
  · refine List.ext_getElem (by simp) ?_
    intro i h₁ h₂
    rw [getElem_ringLoad, ringStore_apply m (Nat.mod_lt _ hpos) (by omega) h₂]

end Futils.Lib.Mem
