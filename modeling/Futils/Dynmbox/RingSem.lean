import Futils.Dynmbox.Defs
import Futils.Lib.Ring

/-!
# What the ring buffer functions compute

Neither loop runs more than twice, and no assertion of `increment`, `rbuf_write` or `rbuf_read`
fails when the length asked for fits: a write stores a circular block at the write cursor, a read
loads one from the read cursor, and the cursors move around the ring.
-/

namespace Futils.Dynmbox

open Futils.Lib

/-- The cursor after `n` cells. -/
def advance (idx : Idx) (n : ℕ) : Idx := ⟨(idx + n) % ALLOCATED_LEN, Nat.mod_lt _ (by decide)⟩

lemma increment_eq (idx : Idx) {amount : ℕ} (h : amount ≤ ALLOCATED_LEN) :
    increment idx amount = some (advance idx amount) := by
  have hmod := Mem.mod_of_lt_two_mul (show idx + amount < 2 * ALLOCATED_LEN by omega)
  unfold increment advance
  simp only [dif_pos h, hmod]
  split_ifs with h₁ h₂ h₂
  · omega
  · simp only [Option.some.injEq, Fin.mk.injEq]
    omega
  · rfl
  · omega

@[simp] lemma advance_zero (idx : Idx) : advance idx 0 = idx :=
  Fin.ext (Nat.mod_eq_of_lt idx.isLt)

@[simp] lemma advance_advance (idx : Idx) (a b : ℕ) :
    advance (advance idx a) b = advance idx (a + b) := by
  simp [advance, Nat.add_assoc]

/-- Moving up to the end of the ring leads to its first cell. -/
lemma advance_to_end (idx : Idx) : (advance idx (ALLOCATED_LEN - idx) : ℕ) = 0 := by
  simp only [advance]
  rw [Nat.add_sub_cancel' idx.isLt.le, Nat.mod_self]

/-! ### The loops -/

lemma rbufWriteLoop_zero (bytes bufmem : Mem UInt8) (idx : Idx) (done : ℕ) :
    rbufWriteLoop bytes bufmem idx done 0 = some (bufmem, idx) := by
  rw [rbufWriteLoop, if_neg (by omega)]

/-- The chunk that goes up to the end of the ring, or less. -/
lemma rbufWriteLoop_step (bytes bufmem : Mem UInt8) (idx : Idx) (done : ℕ) {left : ℕ}
    (h : 0 < left) :
    rbufWriteLoop bytes bufmem idx done left =
      let chunklen := min (ALLOCATED_LEN - idx) left
      rbufWriteLoop bytes (bufmem.store idx (bytes.load done chunklen)) (advance idx chunklen)
        (done + chunklen) (left - chunklen) := by
  have hmin : (if ALLOCATED_LEN - idx > left then left else ALLOCATED_LEN - idx) =
      min (ALLOCATED_LEN - idx) left := by
    split <;> omega
  rw [rbufWriteLoop, if_pos h]
  simp only [hmin, increment_eq idx (show min (ALLOCATED_LEN - idx) left ≤ ALLOCATED_LEN by omega)]

lemma rbufWriteLoop_chunk (bytes bufmem : Mem UInt8) (idx : Idx) (done : ℕ) {left : ℕ}
    (h : left ≤ ALLOCATED_LEN - idx) :
    rbufWriteLoop bytes bufmem idx done left =
      some (bufmem.store idx (bytes.load done left), advance idx left) := by
  rcases Nat.eq_zero_or_pos left with rfl | hpos
  · simp [rbufWriteLoop_zero]
  · rw [rbufWriteLoop_step _ _ _ _ hpos]
    simp only [Nat.min_eq_right h, Nat.sub_self, rbufWriteLoop_zero]

/-- **The write loop stores a circular block.** -/
theorem rbufWriteLoop_eq (bytes bufmem : Mem UInt8) (idx : Idx) (done : ℕ) {left : ℕ}
    (h : left ≤ ALLOCATED_LEN) :
    rbufWriteLoop bytes bufmem idx done left =
      some (bufmem.ringStore ALLOCATED_LEN idx (bytes.load done left), advance idx left) := by
  rw [Mem.ringStore, Mem.take_load, Mem.drop_load]
  rcases Nat.le_total left (ALLOCATED_LEN - idx) with hle | hge
  · rw [rbufWriteLoop_chunk _ _ _ _ hle, Nat.min_eq_right hle, Nat.sub_eq_zero_of_le hle,
      Mem.load_zero, Mem.store_nil]
  · have hwrap := advance_to_end idx
    rw [rbufWriteLoop_step _ _ _ _ (by omega), Nat.min_eq_left hge]
    simp only
    rw [rbufWriteLoop_chunk _ _ _ _ (by rw [hwrap]; omega), hwrap, advance_advance,
      Nat.add_sub_cancel' hge]

lemma rbufReadLoop_zero (bufmem bytes : Mem UInt8) (idx : Idx) (done : ℕ) :
    rbufReadLoop bufmem bytes idx done 0 = some (bytes, idx) := by
  rw [rbufReadLoop, if_neg (by omega)]

lemma rbufReadLoop_step (bufmem bytes : Mem UInt8) (idx : Idx) (done : ℕ) {left : ℕ}
    (h : 0 < left) :
    rbufReadLoop bufmem bytes idx done left =
      let chunklen := min (ALLOCATED_LEN - idx) left
      rbufReadLoop bufmem (bytes.store done (bufmem.load idx chunklen)) (advance idx chunklen)
        (done + chunklen) (left - chunklen) := by
  have hmin : (if ALLOCATED_LEN - idx > left then left else ALLOCATED_LEN - idx) =
      min (ALLOCATED_LEN - idx) left := by
    split <;> omega
  rw [rbufReadLoop, if_pos h]
  simp only [hmin, increment_eq idx (show min (ALLOCATED_LEN - idx) left ≤ ALLOCATED_LEN by omega)]

lemma rbufReadLoop_chunk (bufmem bytes : Mem UInt8) (idx : Idx) (done : ℕ) {left : ℕ}
    (h : left ≤ ALLOCATED_LEN - idx) :
    rbufReadLoop bufmem bytes idx done left =
      some (bytes.store done (bufmem.load idx left), advance idx left) := by
  rcases Nat.eq_zero_or_pos left with rfl | hpos
  · simp [rbufReadLoop_zero]
  · rw [rbufReadLoop_step _ _ _ _ hpos]
    simp only [Nat.min_eq_right h, Nat.sub_self, rbufReadLoop_zero]

/-- **The read loop copies a circular block out.** -/
theorem rbufReadLoop_eq (bufmem bytes : Mem UInt8) (idx : Idx) (done : ℕ) {left : ℕ}
    (h : left ≤ ALLOCATED_LEN) :
    rbufReadLoop bufmem bytes idx done left =
      some (bytes.store done (bufmem.ringLoad ALLOCATED_LEN idx left), advance idx left) := by
  rw [Mem.ringLoad_eq_load _ idx.isLt h, Mem.store_append, Mem.length_load]
  rcases Nat.le_total left (ALLOCATED_LEN - idx) with hle | hge
  · rw [rbufReadLoop_chunk _ _ _ _ hle, Nat.min_eq_right hle, Nat.sub_eq_zero_of_le hle,
      Mem.load_zero, Mem.store_nil]
  · have hwrap := advance_to_end idx
    rw [rbufReadLoop_step _ _ _ _ (by omega), Nat.min_eq_left hge]
    simp only
    rw [rbufReadLoop_chunk _ _ _ _ (by rw [hwrap]; omega), hwrap, advance_advance,
      Nat.add_sub_cancel' hge]

/-! ### The functions -/

/-- **A write that fits stores a block at the write cursor.** -/
theorem rbufWrite_eq (box : DynMbox) (data : Mem UInt8) {len : ℕ} (h : box.used + len ≤ ALLOCATED_LEN) :
    rbufWrite box data len =
      some { box with
        bufmem := box.bufmem.ringStore ALLOCATED_LEN box.writeIdx (data.load 0 len)
        writeIdx := advance box.writeIdx len
        used := box.used + len } := by
  rw [rbufWrite, if_pos (by rw [rbufSpaceLeft]; omega), rbufWriteLoop_eq _ _ _ _ (by omega)]

/-- **A read of what is there loads a block from the read cursor.** -/
theorem rbufRead_eq (box : DynMbox) (buf : Mem UInt8) {len : ℕ} (h : len ≤ box.used)
    (hu : box.used ≤ ALLOCATED_LEN) :
    rbufRead box buf len =
      some ({ box with readIdx := advance box.readIdx len, used := box.used - len },
        buf.store 0 (box.bufmem.ringLoad ALLOCATED_LEN box.readIdx len)) := by
  rw [rbufRead, if_pos (by rw [rbufSpaceUsed]; exact h), rbufReadLoop_eq _ _ _ _ (by omega)]

/-! ### The ring as a queue of bytes -/

/-- **The ring holds the bytes `bs`**: they are the block between the cursors.  When the cursors
are equal, `used` tells the empty ring from the full one. -/
structure Holds (box : DynMbox) (bs : List UInt8) : Prop where
  content : box.bufmem.ringLoad ALLOCATED_LEN box.readIdx box.used = bs
  writeIdx_eq : box.writeIdx = advance box.readIdx box.used
  used_le : box.used ≤ ALLOCATED_LEN

lemma Holds.used_eq {box : DynMbox} {bs : List UInt8} (h : Holds box bs) : box.used = bs.length := by
  rw [← h.content, Mem.length_ringLoad]

theorem Holds.rbufWrite {box : DynMbox} {bs : List UInt8} (h : Holds box bs) (data : Mem UInt8)
    {len : ℕ} (hlen : box.used + len ≤ ALLOCATED_LEN) :
    ∃ box', rbufWrite box data len = some box' ∧ Holds box' (bs ++ data.load 0 len) ∧
      box'.maxMsgSize = box.maxMsgSize := by
  refine ⟨_, rbufWrite_eq box data hlen, ⟨?_, ?_, hlen⟩, rfl⟩
  · have happ := Mem.ringLoad_ringStore_append box.bufmem box.readIdx.isLt
      (show box.used + (data.load 0 len).length ≤ ALLOCATED_LEN by rw [Mem.length_load]; exact hlen)
    rw [Mem.length_load, h.content] at happ
    simp only
    rw [h.writeIdx_eq]
    exact happ
  · simp only
    rw [h.writeIdx_eq, advance_advance]

theorem Holds.rbufRead {box : DynMbox} {as bs : List UInt8} (h : Holds box (as ++ bs))
    (buf : Mem UInt8) :
    ∃ box', rbufRead box buf as.length = some (box', buf.store 0 as) ∧ Holds box' bs ∧
      box'.maxMsgSize = box.maxMsgSize := by
  have hused := h.used_eq
  have hle := h.used_le
  rw [List.length_append] at hused
  have hsplit := h.content
  rw [hused, Mem.ringLoad_add] at hsplit
  obtain ⟨hfront, hrest⟩ := List.append_inj hsplit (by simp)
  have heq := rbufRead_eq box buf (show as.length ≤ box.used by omega) hle
  rw [hfront] at heq
  refine ⟨_, heq, ⟨?_, ?_, by simp only; omega⟩, rfl⟩
  · simp only
    rw [hused, Nat.add_sub_cancel_left]
    exact hrest
  · simp only
    rw [h.writeIdx_eq, advance_advance]
    congr 1
    omega

end Futils.Dynmbox
