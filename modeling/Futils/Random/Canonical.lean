import Futils.Random.Strings
import Futils.Random.Uniformity

/-!
# Random texts are canonical

When the buffer holds it, the whole text is the one that encoding `count` bytes gives: the last group is
padded as its bytes need, and the bits of its last character that stand for nothing are zero.
-/

namespace Futils.Random

open Futils.Lib

variable {e : Encoder} {buffer buffer' : Mem UInt8} {len count : ℕ} {draws rest : List (BitVec e.width)}
  {ret : ℤ}

/-- Each encoder fills its buffer as `snprintf` does. -/
lemma Encoder.exists_write (e : Encoder) (count : ℕ) :
    ∃ chars write, Fills chars (fun _ => true) (e.total count) write ∧ ∀ draws buffer len,
      e.random draws buffer len count = snprintfText (e.total count) (e.total count) write draws buffer len := by
  cases e with
  | base16 => exact ⟨_, _, fills_base16 _, fun _ _ _ => futilsRandomBase16_eq ..⟩
  | base32 => exact ⟨_, _, fills_base32 _, fun _ _ _ => futilsRandomBase32_eq ..⟩
  | base64 => exact ⟨_, _, fills_base64 _, fun _ _ _ => futilsRandomBase64_eq ..⟩

/-- Draws that are not needed are left. -/
lemma Encoder.random_append (more : List (BitVec e.width))
    (h : e.random draws buffer len count = some (ret, buffer', rest)) :
    e.random (draws ++ more) buffer len count = some (ret, buffer', rest ++ more) := by
  obtain ⟨chars, write, hfills, hrandom⟩ := e.exists_write count
  rw [hrandom] at h ⊢
  exact snprintfText_append hfills more h

lemma Encoder.length_alphabet (e : Encoder) : e.alphabet.length = 2 ^ e.format.bits := by
  cases e <;> rfl

/-- An encoder fails for texts that are too long, and returns the length of the others. -/
lemma Encoder.ret_eq (h : e.random draws buffer len count = some (ret, buffer', rest)) :
    ret = if e.total count ≤ INT_MAX then ((e.total count : ℕ) : ℤ) else -EINVAL := by
  obtain ⟨-, write, -, hrandom⟩ := e.exists_write count
  rw [hrandom] at h
  split_ifs with hmax
  · rcases Nat.eq_zero_or_pos len with rfl | hpos
    · rw [snprintfText_zero hmax] at h
      exact (Prod.mk.inj (Option.some.inj h)).1.symm
    · exact (exists_text hmax hpos h).1
  · rw [snprintfText_invalid (Nat.not_le.mp hmax)] at h
    exact (Prod.mk.inj (Option.some.inj h)).1.symm

/-- As many draws as the text takes are enough. -/
lemma Encoder.exists_random (buffer : Mem UInt8) (hlen : e.total count < len)
    (h : e.format.draws count ≤ draws.length) : ∃ r, e.random draws buffer len count = some r := by
  rcases lt_or_ge INT_MAX (e.total count) with hmax | hmax
  · obtain ⟨-, write, -, hrandom⟩ := e.exists_write count
    rw [hrandom, snprintfText_invalid hmax]
    exact ⟨_, rfl⟩
  · obtain ⟨text, hrandom, -⟩ := Encoder.random_eq buffer hmax hlen (List.length_take_of_le h)
    have hmore := Encoder.random_append (draws.drop (e.format.draws count)) hrandom
    rw [List.take_append_drop] at hmore
    exact ⟨_, hmore⟩

lemma Encoder.text_canonical (h : e.random draws buffer len count = some (ret, buffer', rest))
    (haccept : e.total count ≤ INT_MAX) (hlen : e.total count < len) :
    ∃ bytes : List UInt8, bytes.length = count ∧ buffer' (e.total count) = 0 ∧
      buffer'.load 0 (e.total count) = encodeText e.alphabet PAD e.format.bits e.group bytes ∧
      Canonical e.alphabet PAD e.format.bits e.group (buffer'.load 0 (e.total count)) count (bitsOfBytes bytes) := by
  -- with draws to spare, as many as the text takes are in front
  obtain ⟨spare, hspare⟩ : ∃ spare : List (BitVec e.width), spare = List.replicate (e.format.draws count) 0 :=
    ⟨_, rfl⟩
  obtain ⟨used, hused⟩ : ∃ used, used = (draws ++ spare).take (e.format.draws count) := ⟨_, rfl⟩
  have hcount : used.length = e.format.draws count := by
    rw [hused, List.length_take, List.length_append, hspare, List.length_replicate]
    omega
  obtain ⟨text, hrandom, hcanon, htext⟩ := Encoder.random_eq buffer haccept hlen hcount
  have hmore := Encoder.random_append ((draws ++ spare).drop (e.format.draws count)) hrandom
  rw [hused, List.take_append_drop, Encoder.random_append spare h] at hmore
  obtain ⟨-, heq⟩ := Prod.mk.inj (Option.some.inj hmore)
  obtain ⟨rfl, -⟩ := Prod.mk.inj heq
  obtain ⟨hzero, hload⟩ := load_text buffer text
  rw [htext] at hzero hload
  rw [hload]
  refine ⟨bytesOf count (e.format.bitsOf count used), length_bytesOf, hzero, ?_, ?_⟩
  · exact hcanon.eq_encodeText e.length_alphabet
  · rwa [Format.bitsOf_of_bytes hcount]

/-- **A whole text is canonical**, whatever the draws: as many as the text takes are enough for one, its length is
returned, and it is the one that encoding `count` bytes gives.  A text whose length is no `int` is refused. -/
theorem random_text_canonical (e : Encoder) (draws : List (BitVec e.width)) (buffer : Mem UInt8)
    (len count : ℕ) :
    (e.total count < len → e.format.draws count ≤ draws.length →
      ∃ r, e.random draws buffer len count = some r) ∧
    ∀ ret buffer' rest, e.random draws buffer len count = some (ret, buffer', rest) →
      (INT_MAX < e.total count → ret = -EINVAL) ∧
      (e.total count ≤ INT_MAX → ret = (e.total count : ℕ) ∧ (e.total count < len →
        ∃ bytes : List UInt8, bytes.length = count ∧ buffer' (e.total count) = 0 ∧
          buffer'.load 0 (e.total count) = encodeText e.alphabet PAD e.format.bits e.group bytes ∧
          Canonical e.alphabet PAD e.format.bits e.group (buffer'.load 0 (e.total count)) count
            (bitsOfBytes bytes))) := by
  constructor
  · intro hlen h
    exact Encoder.exists_random buffer hlen h
  · intro ret buffer' rest h
    have hret := Encoder.ret_eq h
    constructor
    · intro hmax
      rwa [if_neg (Nat.not_le.mpr hmax)] at hret
    · intro hmax
      rw [if_pos hmax] at hret
      exact ⟨hret, fun hlen => Encoder.text_canonical h hmax hlen⟩

/-- Two bytes in base 32, and four in base 64: both have a last group that is not full. -/
theorem random_text_canonical_padded :
    (∃ (buffer' : Mem UInt8) (bytes : List UInt8),
      Encoder.base32.random [12345] (fun _ => 7) 9 2 = some (8, buffer', []) ∧ bytes.length = 2 ∧
        buffer'.load 0 8 = encodeText base32Alphabet PAD 5 8 bytes) ∧
    ∃ (buffer' : Mem UInt8) (bytes : List UInt8),
      Encoder.base64.random [12345, 678] (fun _ => 7) 9 4 = some (8, buffer', []) ∧ bytes.length = 4 ∧
        buffer'.load 0 8 = encodeText base64Alphabet PAD 6 4 bytes := by
  constructor
  · obtain ⟨-, hwhole⟩ := (random_text_canonical .base32 [12345] (fun _ => 7) 9 2).2 8 _ [] rfl
    obtain ⟨bytes, hlen, -, htext, -⟩ := (hwhole (by decide)).2 (by decide)
    exact ⟨_, bytes, rfl, hlen, htext⟩
  · obtain ⟨-, hwhole⟩ := (random_text_canonical .base64 [12345, 678] (fun _ => 7) 9 4).2 8 _ [] rfl
    obtain ⟨bytes, hlen, -, htext, -⟩ := (hwhole (by decide)).2 (by decide)
    exact ⟨_, bytes, rfl, hlen, htext⟩

example : encodeText base32Alphabet PAD 5 8 [102, 111] = chars ['M', 'Z', 'X', 'Q', '=', '=', '=', '='] := by
  decide

end Futils.Random
