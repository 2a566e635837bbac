import Futils.Strings.Defs
import Mathlib.Tactic.Ring

/-!
# What the conversions do

A text that has no null character goes to wide characters and back: of what is written there is an `int`, and
the other way what fits.
-/

namespace Futils.Strings

open Futils.Lib

variable {n k : ℕ} {text : List Char} {input : CString} {output : Mem UInt8} {maxOutputSize : ℕ}
  {illFormed : List UInt8 → IllFormed}

/-! ### Sizes in an `int` -/

lemma toInt_nonneg : 0 ≤ toInt n ↔ n % 2 ^ 32 < 2 ^ 31 := by
  unfold toInt
  rw [Int.bmod_def]
  split_ifs <;> omega

/-- The bits that an `int` does not hold are lost. -/
lemma toInt_eq (h : 0 ≤ toInt n) : toInt n = (n % 2 ^ 32 : ℕ) := by
  have hlt := toInt_nonneg.mp h
  unfold toInt
  rw [Int.bmod_def]
  split_ifs <;> omega

lemma toNat_toInt (h : 0 ≤ toInt n) : (toInt n).toNat = n % 2 ^ 32 := by rw [toInt_eq h, Int.toNat_natCast]

lemma toInt_of_lt (h : n < 2 ^ 31) : toInt n = n := by
  have hmod : n % 2 ^ 32 = n := Nat.mod_eq_of_lt (by omega)
  rw [toInt_eq (toInt_nonneg.mpr (by omega)), hmod]

/-! ### Wide characters -/

/-- The text has no null character. -/
def NoNul (text : List Char) : Prop := ∀ c ∈ text, c.val ≠ 0

lemma zero_notMem_text (s : CString) : 0 ∉ s.text := by
  intro h
  obtain ⟨i, hi, hzero⟩ := Mem.mem_load.mp h
  rw [Nat.zero_add] at hzero
  exact s.ne_nul i hi hzero

lemma length_text (s : CString) : s.text.length = s.strlen := Mem.length_load ..

lemma noNul_of_decode (h : decode input.text = some text) : NoNul text := by
  intro c hc hzero
  refine zero_notMem_text input ?_
  rw [← decode_eq_some.mp h]
  exact zero_mem_encode.mpr ⟨c, hc, hzero⟩

lemma length_le_of_decode (h : decode input.text = some text) : text.length ≤ input.strlen := by
  rw [← length_text, ← decode_eq_some.mp h, length_encode]
  exact length_le_total Char.utf8Size_pos

/-- The characters of a text, in a buffer with zeros after them. -/
def wide (text : List Char) (k : ℕ) : List Wchar := text.map Char.val ++ List.replicate k 0

lemma take_wide : (wide text k).take text.length = text.map Char.val := by
  unfold wide
  rw [← List.length_map (f := Char.val), List.take_left]

lemma wcslen_wide (h : NoNul text) (hk : 0 < k) : wcslen (wide text k) = text.length := by
  unfold wcslen wide
  obtain ⟨k, rfl⟩ := Nat.exists_eq_succ_of_ne_zero hk.ne'
  have hnone : ¬ (text.map Char.val).findIdx (· = 0) < (text.map Char.val).length := by
    rw [List.findIdx_lt_length]
    rintro ⟨w, hw, hzero⟩
    obtain ⟨c, hc, rfl⟩ := List.mem_map.mp hw
    exact h c hc (of_decide_eq_true hzero)
  rw [List.findIdx_append, if_neg hnone, List.length_map, List.replicate_succ]
  exact Nat.zero_add _

/-- There is space for all of it. -/
lemma iconvToWchar_eq (h : decode input.text = some text) :
    iconvToWchar illFormed input.text (input.strlen * sizeofWchar) = ⟨text.map Char.val, none⟩ := by
  unfold iconvToWchar
  rw [h]
  dsimp only
  rw [List.length_map, if_pos (Nat.mul_le_mul_right _ (length_le_of_decode h))]

/-- **Every character is converted**, and their number is put in an `int`. -/
lemma toWcharString_eq (h : decode input.text = some text)
    (hsize : (input.strlen + 1) * sizeofWchar < 2 ^ 64) (hret : 0 ≤ toInt text.length) :
    toWcharString illFormed input.text =
      (toInt text.length, wide text (input.strlen + 1 - text.length)) := by
  unfold toWcharString
  rw [length_text, if_neg (Nat.not_le.mpr hsize), iconvToWchar_eq h]
  dsimp only
  rw [List.length_map, if_neg (Int.not_lt.mpr hret)]
  rfl

lemma IllFormed.neg_errno_neg (e : IllFormed) : -e.errno < 0 := by
  cases e <;> decide

/-- Otherwise it fails. -/
lemma toWcharString_neg (h : ¬ ∃ text, decode input.text = some text ∧
      (input.strlen + 1) * sizeofWchar < 2 ^ 64 ∧ 0 ≤ toInt text.length) :
    (toWcharString illFormed input.text).1 < 0 := by
  unfold toWcharString
  dsimp only
  rw [length_text]
  by_cases hsize : 2 ^ 64 ≤ (input.strlen + 1) * sizeofWchar
  · rw [if_pos hsize]
    exact Int.neg_neg_of_pos (by decide)
  rw [if_neg hsize]
  rcases hdecode : decode input.text with _ | text
  · unfold iconvToWchar
    rw [hdecode]
    exact IllFormed.neg_errno_neg _
  have hneg : toInt text.length < 0 := by
    rw [← Int.not_le]
    intro hret
    exact h ⟨text, hdecode, Nat.not_le.mp hsize, hret⟩
  rw [iconvToWchar_eq hdecode]
  dsimp only
  rw [List.length_map, if_pos hneg]
  dsimp only
  exact hneg

/-! ### Bytes -/

/-- **The longest prefix that fits** is written, and there is no other error than `E2BIG`. -/
lemma iconvToUtf8_map (n : ℕ) (text : List Char) :
    (iconvToUtf8 n (text.map Char.val)).written = encode (fit Char.utf8Size n text) ∧
      ∀ errno ∈ (iconvToUtf8 n (text.map Char.val)).errno, errno = E2BIG := by
  induction text generalizing n with
  | nil => exact ⟨rfl, nofun⟩
  | cons c text ih =>
    rw [List.map_cons, iconvToUtf8, dif_pos c.valid]
    dsimp only
    rw [String.length_utf8EncodeChar, fit]
    split_ifs with hc
    · obtain ⟨hwritten, herrno⟩ := ih (n - c.utf8Size)
      rw [hwritten, encode_cons]
      exact ⟨rfl, herrno⟩
    · refine ⟨rfl, ?_⟩
      rintro errno ⟨⟩
      rfl

/-- The characters of a text that are written in the space for a string. -/
def cut (maxOutputSize : ℕ) (text : List Char) : List Char := fit Char.utf8Size (maxOutputSize - 1) text

lemma toUtf8String_eq (h : NoNul text) (hk : 0 < k) :
    toUtf8String (wide text k) output maxOutputSize =
      let bytes := encode (cut maxOutputSize text)
      let ret := toInt bytes.length
      (ret, if ret < 0 then output.store 0 bytes else (output.store 0 bytes).store ret.toNat [0]) := by
  obtain ⟨hwritten, herrno⟩ := iconvToUtf8_map (maxOutputSize - 1) text
  have hno : ¬ ∃ errno ∈ (iconvToUtf8 (maxOutputSize - 1) (text.map Char.val)).errno,
      errno ≠ E2BIG := by
    rintro ⟨errno, hmem, hne⟩
    exact hne (herrno errno hmem)
  unfold toUtf8String
  rw [wcslen_wide h hk, take_wide]
  dsimp only
  rw [if_neg hno, hwritten]
  rfl

end Futils.Strings
