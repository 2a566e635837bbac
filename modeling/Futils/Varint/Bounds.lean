import Futils.Varint.ReadSem

/-!
# Which bytes the reader looks at

The loop advances `offset` before it tests the bounds, and lets `offset = src_len` pass: a buffer
that ends with a continuation byte, or exactly with a code of the maximal length, is read one byte
past its end, and a code that goes on after the maximal length costs one turn more (`shift` is then
70 in the 64-bit formats).  `EndsInside` is the exact condition under which none of this happens.
-/

namespace Futils.Varint

open Futils.Lib Futils.Lib.Base128

/-- Every index is inside the buffer, the loop makes at most `valLenMax` turns (there is one shift
a turn) and every shift amount is below the width of the accumulator. -/
def WithinBounds (reads shifts : List ℕ) (srcLen valLenMax : ℕ) : Prop :=
  (∀ i ∈ reads, i < srcLen) ∧ shifts.length ≤ valLenMax ∧ ∀ s ∈ shifts, s < 64

instance (reads shifts : List ℕ) (srcLen valLenMax : ℕ) :
    Decidable (WithinBounds reads shifts srcLen valLenMax) := by
  unfold WithinBounds
  infer_instance

/-- One of the bytes before the last possible one ends the code inside the buffer; or the buffer
goes on after the longest code, and the last possible byte ends the code or the byte after it is
refused. -/
def EndsInside (src : Mem UInt8) (srcLen valLenMax : ℕ) : Prop :=
  (∃ t, t < srcLen ∧ t + 1 < valLenMax ∧ ¬ Cont (src t)) ∨
    (valLenMax < srcLen ∧ (¬ Cont (src (valLenMax - 1)) ∨ src valLenMax &&& 0x0f ≠ 0))

section Loop

variable {src : Mem UInt8} {srcLen valLenMax : ℕ}

/-- The condition does not depend on the continuation bytes already passed. -/
lemma endsInside_iff {k : ℕ} (hc : ∀ i < k, Cont (src i)) :
    EndsInside src srcLen valLenMax ↔
      (∃ t, k ≤ t ∧ t < srcLen ∧ t + 1 < valLenMax ∧ ¬ Cont (src t)) ∨
        (valLenMax < srcLen ∧ (¬ Cont (src (valLenMax - 1)) ∨ src valLenMax &&& 0x0f ≠ 0)) := by
  refine or_congr_left ⟨?_, fun ⟨t, _, h⟩ => ⟨t, h⟩⟩
  rintro ⟨t, h₁, h₂, h₃⟩
  refine ⟨t, ?_, h₁, h₂, h₃⟩
  by_contra hlt
  exact h₃ (hc t (by omega))

/-- Every turn looks at its own byte. -/
lemma mem_reads (val : UInt64) (offset : ℕ) :
    offset ∈ (readLoop src srcLen valLenMax val (7 * offset) offset).reads := by
  rw [readLoop]
  split_ifs <;> simp

lemma withinBounds_turn {reads shifts : List ℕ} {offset d : ℕ} (hL : offset < srcLen)
    (hs : offset ≤ 9) :
    WithinBounds ([offset, offset] ++ reads) (7 * offset :: shifts) srcLen (d + 1) ↔
      WithinBounds reads shifts srcLen d := by
  have h64 : 7 * offset < 64 := by omega
  simp [WithinBounds, hL, h64]

/-- **The turns from the byte at `offset` on** stay within the bounds exactly when the buffer ends
in time.  Induction on the turns that are left; the last possible byte is the base. -/
theorem readLoop_withinBounds (hmax : valLenMax ≤ 10) {offset : ℕ} {val : UInt64}
    (hL : offset < srcLen) (hN : offset < valLenMax) (hc : ∀ i < offset, Cont (src i)) :
    let r := readLoop src srcLen valLenMax val (7 * offset) offset
    WithinBounds r.reads r.shifts srcLen (valLenMax - offset) ↔
      EndsInside src srcLen valLenMax := by
  induction hd : valLenMax - (offset + 1) generalizing offset val with
  | zero =>
    obtain rfl : valLenMax = offset + 1 := by omega
    -- no earlier byte is left to end the code
    have hno : ¬ ∃ t, offset ≤ t ∧ t < srcLen ∧ t + 1 < offset + 1 ∧ ¬ Cont (src t) := by
      rintro ⟨t, h₁, -, h₃, -⟩
      omega
    have hs : 7 * offset < 64 := by omega
    rw [endsInside_iff hc, or_iff_right hno, Nat.add_sub_cancel, Nat.add_sub_cancel_left]
    by_cases hp : src (offset + 1) &&& 0x0f = 0
    · by_cases hcont : Cont (src offset)
      · -- one turn too many
        rw [readLoop_more (by omega) (by omega) (fun _ => hp) hcont, readLoop_out (by omega)]
        simp [WithinBounds, hp, hcont]
      · rw [readLoop_last (by omega) (by omega) (fun _ => hp) hcont]
        simp [WithinBounds, hL, hs, hcont]
    · rw [readLoop_peek (by omega) rfl hp]
      simp [WithinBounds, hL, hs, hp]
  | succ d ih =>
    have hne : offset + 1 ≠ valLenMax := by omega
    obtain ⟨e, he⟩ : ∃ e, valLenMax - offset = e + 1 := ⟨valLenMax - offset - 1, by omega⟩
    rw [he]
    by_cases hcont : Cont (src offset)
    · rw [readLoop_more (by omega) (by omega) (fun h => absurd h hne) hcont]
      simp only [if_neg hne, List.append_nil]
      rw [withinBounds_turn hL (by omega)]
      have hc' : ∀ i < offset + 1, Cont (src i) := fun i hi => by
        rcases Nat.lt_succ_iff_lt_or_eq.mp hi with hi | rfl
        · exact hc i hi
        · exact hcont
      by_cases hend : offset + 1 < srcLen
      · rw [show e = valLenMax - (offset + 1) by omega]
        exact ih hend (by omega) hc' (by omega)
      · -- the buffer ends with a continuation byte, and the byte after it is read
        constructor
        · rintro ⟨hr, -⟩
          exact absurd (hr _ (mem_reads _ _)) hend
        · rw [endsInside_iff hc']
          rintro (⟨t, h₁, h₂, -⟩ | ⟨h, -⟩) <;> omega
    · rw [readLoop_last (by omega) (by omega) (fun h => absurd h hne) hcont]
      have hs : 7 * offset < 64 := by omega
      have hin : EndsInside src srcLen valLenMax := .inl ⟨offset, hL, by omega, hcont⟩
      simp [WithinBounds, hne, hL, hs, hin]

end Loop

/-! ### The six readers -/

lemma Fmt.valLenMax_le (f : Fmt) : f.valLenMax ≤ 10 := by cases f <;> decide

lemma Fmt.valLenMax_pos (f : Fmt) : 0 < f.valLenMax := by cases f <;> decide

/-- Every reader looks at the bytes that the loop looks at, with the maximum of its format. -/
lemma Fmt.read_trace (f : Fmt) (src : Mem UInt8) {srcLen : ℕ} (h : srcLen ≠ 0) (val : f.Val)
    (valLen : ℕ) :
    (f.read (some src) srcLen (some val) (some valLen)).reads =
        (readLoop src srcLen f.valLenMax 0 0 0).reads ∧
      (f.read (some src) srcLen (some val) (some valLen)).shifts =
        (readLoop src srcLen f.valLenMax 0 0 0).shifts := by
  cases f <;> simp [Fmt.read, varintReadU16, varintReadI16, varintReadU32, varintReadI32,
    varintReadU64, varintReadI64, readAs, varintRead, h, Fmt.valLenMax]

/-- **Every reader stays within the bounds exactly when the buffer ends in time.** -/
theorem Fmt.read_withinBounds_iff (f : Fmt) (src : Mem UInt8) (srcLen : ℕ) (hlen : 1 ≤ srcLen)
    (val : f.Val) (valLen : ℕ) :
    let r := f.read (some src) srcLen (some val) (some valLen)
    WithinBounds r.reads r.shifts srcLen f.valLenMax ↔ EndsInside src srcLen f.valLenMax := by
  intro r
  obtain ⟨hr, hs⟩ := f.read_trace src (show srcLen ≠ 0 by omega) val valLen
  rw [show r.reads = _ from hr, show r.shifts = _ from hs]
  exact readLoop_withinBounds f.valLenMax_le (show 0 < srcLen by omega) f.valLenMax_pos (by simp)

/-- A buffer of two bytes that ends in time. -/
theorem Fmt.read_withinBounds_iff_two :
    let src : Mem UInt8 := Mem.store (fun _ => 0) 0 [0x81, 0x01]
    let r := Fmt.u16.read (some src) 2 (some 0) (some 0)
    1 ≤ 2 ∧ (WithinBounds r.reads r.shifts 2 3 ↔ EndsInside src 2 3) :=
  ⟨by decide, Fmt.u16.read_withinBounds_iff _ 2 (by decide) 0 0⟩

/-- The code `ff ff 03` of 65535 fills its buffer of three bytes, and index 3 is read; eleven
continuation bytes cost the 64-bit reader eleven turns and a shift by 70. -/
theorem Fmt.read_not_withinBounds :
    (∃ r, r = Fmt.u16.read (some (Mem.store (fun _ => 0) 0 [0xff, 0xff, 0x03])) 3 (some 0) (some 0) ∧
      3 ∈ r.reads ∧ ¬ WithinBounds r.reads r.shifts 3 3) ∧
    (∃ r, r = Fmt.u64.read (some fun _ => 0x80) 11 (some 0) (some 0) ∧
      r.shifts.length = 11 ∧ 70 ∈ r.shifts ∧ ¬ WithinBounds r.reads r.shifts 11 10) :=
  ⟨⟨_, rfl, by decide +kernel⟩, ⟨_, rfl, by decide +kernel⟩⟩

end Futils.Varint
