import Futils.Lib.Fit
import Mathlib.Data.List.Basic

/-!
# UTF-8

The encoding of a text, which is a list of characters, and its inverse on the byte strings that are the
encoding of a text.
-/

namespace Futils.Lib

def encode (text : List Char) : List UInt8 := text.flatMap String.utf8EncodeChar

def decode (bytes : List UInt8) : Option (List Char) := bytes.toByteArray.utf8Decode?.map Array.toList

variable {text text' : List Char} {bytes : List UInt8}

@[simp] lemma encode_nil : encode [] = [] := rfl

@[simp] lemma encode_cons (c : Char) : encode (c :: text) = String.utf8EncodeChar c ++ encode text :=
  List.flatMap_cons

lemma toByteArray_encode (text : List Char) : (encode text).toByteArray = text.utf8Encode := rfl

@[simp] lemma length_encode (text : List Char) : (encode text).length = total Char.utf8Size text := by
  induction text with
  | nil => rfl
  | cons c text ih => rw [encode_cons, List.length_append, String.length_utf8EncodeChar, ih, total_cons]

/-- **Decoding is exact.** -/
lemma decode_eq_some : decode bytes = some text ↔ encode text = bytes := by
  unfold decode
  constructor
  · intro h
    obtain ⟨cs, hcs, rfl⟩ := Option.map_eq_some_iff.mp h
    have hsome : bytes.toByteArray.utf8Decode?.isSome := by rw [hcs]; rfl
    have hget := ByteArray.utf8Encode_get_utf8Decode? (h := hsome)
    rw [Option.get_of_eq_some hsome hcs, ← toByteArray_encode] at hget
    exact List.toByteArray_inj.mp hget
  · rintro rfl
    rw [toByteArray_encode, List.utf8Decode?_utf8Encode]
    rfl

@[simp] lemma decode_encode (text : List Char) : decode (encode text) = some text := decode_eq_some.mpr rfl

lemma encode_injective : Function.Injective encode := by
  intro text text' h
  have hdecode := decode_encode text
  rw [h, decode_encode] at hdecode
  exact (Option.some.inj hdecode).symm

lemma zero_eq_ofNat {b : ℕ} : 0 = UInt8.ofNat b ↔ b % 256 = 0 := by
  rw [eq_comm, ← UInt8.toNat_inj, UInt8.toNat_ofNat]
  rfl

/-- Only the null character has a zero in its encoding. -/
lemma zero_mem_utf8EncodeChar {c : Char} : 0 ∈ String.utf8EncodeChar c ↔ c.val = 0 := by
  rw [← UInt32.toNat_inj, UInt32.toNat_zero]
  unfold String.utf8EncodeChar
  dsimp only
  split_ifs <;> simp only [List.mem_cons, List.not_mem_nil, or_false, zero_eq_ofNat] <;> omega

lemma zero_mem_encode : 0 ∈ encode text ↔ ∃ c ∈ text, c.val = 0 := by
  unfold encode
  rw [List.mem_flatMap]
  exact exists_congr fun _ => and_congr_right fun _ => zero_mem_utf8EncodeChar

end Futils.Lib
