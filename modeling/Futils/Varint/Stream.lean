import Futils.Varint.Wire

/-!
# Reading back what was written

A value is read back from a stream unless its code has the maximal length and the byte that follows
it in memory has a non-zero low half: the loop looks at that byte in place of the last byte of the
code.  When the code ends the buffer, the byte is the one past the end of the buffer.
-/

namespace Futils.Varint

open Futils.Lib Futils.Lib.Base128

/-- The bytes that a writer has stored, up to the length it reports. -/
def WriteRes.output (r : WriteRes) : List UInt8 :=
  match r.dst, r.valLen with
  | some dst, some n => dst.load 0 n
  | _, _ => []

namespace Fmt

/-- The bytes that the writer produces for `v` in a buffer of the maximal length at `dst`. -/
def enc (f : Fmt) (dst : Mem UInt8) (v : f.Val) : List UInt8 :=
  (f.write (some dst) f.valLenMax v (some 0)).output

/-- Reading the code of `v`, followed by `rest` in the buffer and by `after` past it, succeeds,
yields `v` and reports the length of the code. -/
def RoundTrips (f : Fmt) (dst : Mem UInt8) (v : f.Val) (rest : List UInt8) (after : Mem UInt8)
    (val : f.Val) (valLen : ℕ) : Prop :=
  let buf := f.enc dst v ++ rest
  let r := f.read (some (after.store 0 buf)) buf.length (some val) (some valLen)
  r.ret = 0 ∧ r.val = some v ∧ r.valLen = some (f.enc dst v).length

/-- Read `n` values one after the other, each from where the one before it ended. -/
def readSeq (f : Fmt) (val : f.Val) : ℕ → Mem UInt8 → ℕ → Option (List f.Val)
  | 0, _, _ => some []
  | n + 1, src, srcLen =>
    let r := f.read (some src) srcLen (some val) (some 0)
    match r.val, r.valLen with
    | some v, some k =>
      if r.ret = 0 then (readSeq f val n (src.shift k) (srcLen - k)).map (v :: ·) else none
    | _, _ => none

/-- The code of `v` is shorter than the maximum, or the byte that follows it has a zero low half;
`past` is the byte past the buffer. -/
def Readable (f : Fmt) (v : f.Val) (rest : List UInt8) (past : UInt8) : Prop :=
  f.wire v < 2 ^ (7 * (f.valLenMax - 1)) ∨ rest.headD past &&& 0x0f = 0

/-- Every value of the list is readable where it stands. -/
def ReadableSeq (f : Fmt) (dst : Mem UInt8) (rest : List UInt8) (past : UInt8) : List f.Val → Prop
  | [] => True
  | v :: vs => f.Readable v (vs.flatMap (f.enc dst) ++ rest) past ∧ ReadableSeq f dst rest past vs

/-! ### One value -/

section One

variable (f : Fmt) (dst : Mem UInt8) (v : f.Val) (rest : List UInt8) (after : Mem UInt8)

lemma enc_eq_code : f.enc dst v = f.code v := by
  rw [enc, write_eq f dst le_rfl]
  simp [WriteRes.output]

lemma length_code_le : (f.code v).length ≤ f.valLenMax := by
  have hw : 2 ^ f.width ≤ 2 ^ (7 * (f.valLenMax - 1 + 1)) :=
    Nat.pow_le_pow_right (by decide) (by cases f <;> decide)
  have := (length_encode_le_iff (f.wire v) (f.valLenMax - 1)).mpr
    (Nat.lt_of_lt_of_le (f.wire_lt v) hw)
  have := f.valLenMax_pos
  rw [code]
  omega

/-- A code has the maximal length when the number on the wire needs the last byte. -/
lemma length_code_eq_iff :
    (f.code v).length = f.valLenMax ↔ ¬ f.wire v < 2 ^ (7 * (f.valLenMax - 1)) := by
  have hle := f.length_code_le v
  obtain ⟨k, hk⟩ : ∃ k, f.valLenMax = k + 2 := by cases f <;> exact ⟨_, rfl⟩
  have := length_encode_le_iff (f.wire v) k
  rw [code] at hle ⊢
  rw [hk, show k + 2 - 1 = k + 1 by omega]
  omega

/-- The byte that follows the code in memory. -/
lemma store_code_length :
    after.store 0 (f.code v ++ rest) (f.code v).length =
      rest.headD (after (f.code v ++ rest).length) := by
  rw [Mem.store_append]
  cases rest with
  | nil =>
    rw [Mem.store_nil, Mem.store_of_ge _ _ (by simp)]
    simp
  | cons b rest =>
    rw [Mem.store_apply _ _ (by simp) (by simp)]
    simp

/-- **The code of a readable value is accepted**, at its own length. -/
theorem accepts_iff (n : ℕ) :
    Accepts (after.store 0 (f.code v ++ rest)) (f.code v ++ rest).length f.valLenMax n ↔
      n = (f.code v).length ∧ f.Readable v rest (after (f.code v ++ rest).length) := by
  have hcode : IsCode (after.store 0 (f.code v ++ rest)) (f.code v).length :=
    isCode_encode (f.wire v) rest after
  have hlen := f.length_code_eq_iff v
  have hbyte := f.store_code_length v rest after
  constructor
  · rintro ⟨hc, -, -, hp⟩
    obtain rfl := hc.unique hcode
    refine ⟨rfl, ?_⟩
    by_cases hw : f.wire v < 2 ^ (7 * (f.valLenMax - 1))
    · exact .inl hw
    · exact .inr (hbyte ▸ hp (hlen.mpr hw))
  · rintro ⟨rfl, hr⟩
    refine ⟨hcode, by simp, f.length_code_le v, ?_⟩
    intro he
    rw [hbyte]
    exact hr.resolve_left (hlen.mp he)

/-- **A readable value is read back.** -/
theorem roundTrips_of_readable (val : f.Val) (valLen : ℕ)
    (h : f.Readable v rest (after (f.enc dst v ++ rest).length)) :
    f.RoundTrips dst v rest after val valLen := by
  rw [RoundTrips, enc_eq_code] at *
  obtain ⟨h1, h2, v', h3, h4⟩ :=
    f.read_of_accepts val valLen ((f.accepts_iff v rest after _).mpr ⟨rfl, h⟩)
  have hp : payload (after.store 0 (f.code v ++ rest)) (f.code v).length = f.wire v :=
    payload_encode (f.wire v) rest after
  rw [hp, ofWire_wire] at h4
  have hv : v' = v := f.toInt_injective (h4 (f.wire_lt v))
  exact ⟨h1, hv ▸ h3, h2⟩

/-- **Any other value is refused.** -/
theorem read_ret_of_not_readable (val : f.Val) (valLen : ℕ)
    (h : ¬ f.Readable v rest (after (f.enc dst v ++ rest).length)) :
    (f.read (some (after.store 0 (f.enc dst v ++ rest))) (f.enc dst v ++ rest).length (some val)
      (some valLen)).ret = -EPROTO := by
  rw [enc_eq_code] at *
  refine f.read_of_not_accepts ?_ val valLen fun n hn => h ((f.accepts_iff v rest after n).mp hn).2
  have := length_encode_pos (f.wire v)
  rw [List.length_append, code]
  omega

end One

/-! ### A stream -/

section Seq

variable (f : Fmt) (dst : Mem UInt8) (rest : List UInt8) (val : f.Val)

/-- **A stream is read back exactly when each of its values is readable where it stands.** -/
theorem readSeq_eq_iff (vs : List f.Val) (after : Mem UInt8) :
    let buf := vs.flatMap (f.enc dst) ++ rest
    f.readSeq val vs.length (after.store 0 buf) buf.length = some vs ↔
      f.ReadableSeq dst rest (after buf.length) vs := by
  induction vs generalizing after with
  | nil => simp [readSeq, ReadableSeq]
  | cons v vs ih =>
    simp only [List.flatMap_cons, List.append_assoc, List.length_cons, ReadableSeq]
    set tail := vs.flatMap (f.enc dst) ++ rest with htail
    by_cases hr : f.Readable v tail (after (f.enc dst v ++ tail).length)
    · obtain ⟨h1, h2, h3⟩ := f.roundTrips_of_readable dst v tail after val 0 hr
      have ih := ih (after.shift (f.enc dst v).length)
      rw [readSeq]
      simp only [h1, h2, h3, if_true, Mem.shift_store_append, and_iff_right hr]
      rw [List.length_append, Nat.add_sub_cancel_left]
      simp only [Mem.shift] at ih
      rw [← ih]
      simp
    · have h1 := f.read_ret_of_not_readable dst v tail after val 0 hr
      have hne : ¬ (-EPROTO = 0) := by decide
      rw [readSeq]
      simp only [h1, if_neg hne, hr, false_and, iff_false]
      split <;> simp

end Seq

/-- **When a value, and a stream of values, is read back.** -/
theorem roundTrips_iff (f : Fmt) (dst : Mem UInt8) :
    (∀ (v : f.Val) (rest : List UInt8) (after : Mem UInt8) (val : f.Val) (valLen : ℕ),
      f.RoundTrips dst v rest after val valLen ↔
        f.Readable v rest (after (f.enc dst v ++ rest).length)) ∧
    (∀ (vs : List f.Val) (rest : List UInt8) (after : Mem UInt8) (val : f.Val),
      let buf := vs.flatMap (f.enc dst) ++ rest
      f.readSeq val vs.length (after.store 0 buf) buf.length = some vs ↔
        f.ReadableSeq dst rest (after buf.length) vs) := by
  constructor
  · intro v rest after val valLen
    constructor
    · intro h
      by_contra hr
      have h1 := f.read_ret_of_not_readable dst v rest after val valLen hr
      exact absurd (h1.symm.trans h.1) (by decide)
    · intro hr
      exact f.roundTrips_of_readable dst v rest after val valLen hr
  · intro vs rest after val
    exact f.readSeq_eq_iff dst rest val vs after

/-- The code of 65535, followed by the byte 1, is refused. -/
theorem not_roundTrips_u16_max :
    ¬ u16.RoundTrips (fun _ => 0) 65535 [0x01] (fun _ => 0) 0 0 := by
  rintro ⟨h, -⟩
  exact absurd h (by decide +kernel)

end Fmt

end Futils.Varint
