import Futils.Random.Sizes

/-!
# Random texts are written as by `snprintf`

The four functions meet the contract, and no size wraps.
-/

namespace Futils.Random

open Futils.Lib

variable {pool : List (Mem UInt8)} {buffer : Mem UInt8} {len count : ℕ} {alphabet : CString}

/-- The length of the text of an alphabet. -/
def stringTotal (count : ℕ) (alphabet : CString) : ℕ := if alphabet.strlen = 0 then 0 else count

/-- A result, with the draws that are left. -/
def stringResult (o : Outcome (ℤ × Mem UInt8)) : Option (ℤ × Mem UInt8 × List (Mem UInt8)) :=
  o.toOption.map fun r => (r.1.1, r.1.2, r.2)

lemma stringLoop_ne_abort (ps : ℕ) (pool : List (Mem UInt8)) : stringLoop alphabet ps pool ≠ .abort := by
  induction ps generalizing pool with
  | zero => exact nofun
  | succ ps ih =>
    obtain ⟨_, _, -, -, -, hfair⟩ := fair_poolRandMaximum 8 rfl le_rfl (lastIndex alphabet)
    have hdraw : poolRandSizeMaximum (lastIndex alphabet) pool ≠ .abort := (hfair pool).1
    rw [stringLoop_succ]
    cases hvalue : poolRandSizeMaximum (lastIndex alphabet) pool with
    | value r rest =>
      have hrest := ih rest
      dsimp only
      cases hloop : stringLoop alphabet ps rest with
      | value text left => exact nofun
      | starved => exact nofun
      | abort => exact absurd hloop hrest
    | starved => exact nofun
    | abort => exact absurd hvalue hdraw

lemma futilsRandomString_ne_abort :
    futilsRandomString pool buffer len count alphabet ≠ .abort := by
  unfold futilsRandomString
  split_ifs
  · exact nofun
  · exact nofun
  · exact nofun
  · exact nofun
  · have hloop : stringLoop alphabet (min count (len - 1)) pool ≠ .abort := stringLoop_ne_abort _ pool
    cases hrest : stringLoop alphabet (min count (len - 1)) pool with
    | value text left => exact nofun
    | starved => exact nofun
    | abort => exact absurd hrest hloop

lemma futilsRandomString_eq :
    stringResult (futilsRandomString pool buffer len count alphabet) =
      snprintfText count (stringTotal count alphabet)
        (fun ps pool => (stringLoop alphabet ps pool).toOption) pool buffer len := by
  unfold futilsRandomString snprintfText stringTotal
  split_ifs with hmax hlen hnone hnone
  · rfl
  · rfl
  · rfl
  · rw [Nat.zero_min]
    rfl
  · unfold stringResult
    rw [toOption_map, Option.map_map]
    rfl

lemma fills_string_total :
    Fills alphabet.text (fun raw => (accepted (lastIndex alphabet) raw).isSome)
      (stringTotal count alphabet) fun ps pool => (stringLoop alphabet ps pool).toOption := by
  unfold stringTotal
  split_ifs with hnone
  · exact fills_nothing _ _ fun _ => rfl
  · exact fills_string hnone count

/-- **The four functions keep the contract**, and no operation on sizes wraps. -/
theorem random_texts_snprintf (count : ℕ) (alphabet : CString) :
    Snprintf alphabet.text (fun raw => (accepted (lastIndex alphabet) raw).isSome) count
        (stringTotal count alphabet)
        (fun pool buffer len => stringResult (futilsRandomString pool buffer len count alphabet)) ∧
      (∀ pool buffer len, futilsRandomString pool buffer len count alphabet ≠ .abort) ∧
      Snprintf base16Alphabet (fun _ => true) (2 * count) (2 * count)
        (fun pool buffer len => futilsRandomBase16 pool buffer len count) ∧
      Snprintf (base32Alphabet ++ [PAD]) (fun _ => true) (8 * ((count + 4) / 5)) (8 * ((count + 4) / 5))
        (fun pool buffer len => futilsRandomBase32 pool buffer len count) ∧
      Snprintf (base64Alphabet ++ [PAD]) (fun _ => true) (4 * ((count + 2) / 3)) (4 * ((count + 2) / 3))
        (fun pool buffer len => futilsRandomBase64 pool buffer len count) ∧
      ∀ buffer len,
        (∀ pool, futilsRandomStringSz pool buffer len count alphabet =
          some (futilsRandomString pool buffer len count alphabet)) ∧
        (∀ pool, futilsRandomBase16Sz pool buffer len count =
          some (futilsRandomBase16 pool buffer len count)) ∧
        (∀ pool, futilsRandomBase32Sz pool buffer len count =
          some (futilsRandomBase32 pool buffer len count)) ∧
        ∀ pool, futilsRandomBase64Sz pool buffer len count =
          some (futilsRandomBase64 pool buffer len count) := by
  rw [Nat.mul_comm 2, Nat.mul_comm 8, Nat.mul_comm 4]
  refine ⟨?_, fun _ _ _ => futilsRandomString_ne_abort, ?_, ?_, ?_, fun buffer len => ⟨?_, ?_, ?_, ?_⟩⟩
  · simp only [futilsRandomString_eq]
    exact snprintf_of_fills fills_string_total
  · simp only [futilsRandomBase16_eq]
    exact snprintf_of_fills (fills_base16 _)
  · simp only [futilsRandomBase32_eq]
    exact snprintf_of_fills (fills_base32 count)
  · simp only [futilsRandomBase64_eq]
    exact snprintf_of_fills (fills_base64 count)
  · exact fun pool => futilsRandomStringSz_eq pool buffer len count alphabet
  · exact fun pool => futilsRandomBase16Sz_eq pool buffer len count
  · exact fun pool => futilsRandomBase32Sz_eq pool buffer len count
  · exact fun pool => futilsRandomBase64Sz_eq pool buffer len count

end Futils.Random
