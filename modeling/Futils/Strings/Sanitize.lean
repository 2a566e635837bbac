import Futils.Strings.Convert

/-!
# Sanitizing and checking agree

What is sanitized is the longest prefix of the text that fits, with its forbidden characters replaced, and it
is checked with success and sanitized to itself, as long as no size is cut when it is put in an `int`.
-/

namespace Futils.Strings

open Futils.Lib

/-! ### What the functions are for -/

/-- A character of the set. -/
def Forbidden (forbiddenChars : Option (List Wchar)) (c : Char) : Prop :=
  ∃ ws ∈ forbiddenChars, c.val ∈ ws

instance (forbiddenChars : Option (List Wchar)) : DecidablePred (Forbidden forbiddenChars) :=
  fun _ => inferInstanceAs (Decidable (∃ _ ∈ _, _))

def sanitizeChar (forbiddenChars : Option (List Wchar)) (replacement c : Char) : Char :=
  if Forbidden forbiddenChars c then replacement else c

def sanitize (forbiddenChars : Option (List Wchar)) (replacement : Char) (text : List Char) : List Char :=
  text.map (sanitizeChar forbiddenChars replacement)

variable (illFormed : List UInt8 → IllFormed) (input : CString) (output : Mem UInt8) (maxOutputSize : ℕ)
  (forbiddenChars : Option (List Wchar)) (replacement : Char)

/-- The string `s` is a good output for `text`, and it stays the same. -/
structure Good (text : List Char) (s : CString) : Prop where
  fits : s.strlen < maxOutputSize
  text_eq : s.text = encode (cut maxOutputSize (sanitize forbiddenChars replacement text))
  check : futilsStringCheckUtf8 illFormed s maxOutputSize 0 forbiddenChars = 0
  again : ∀ output', ∃ s' : CString, s'.text = s.text ∧
    futilsStringSanitizeUtf8 illFormed s output' maxOutputSize forbiddenChars replacement.val =
      ((s'.strlen : ℤ), s'.mem)

/-- If `futils_string_sanitize_utf8` succeeds, the output is good, and its length is returned. -/
def Agree : Prop :=
  ∀ ret output', futilsStringSanitizeUtf8 illFormed input output maxOutputSize forbiddenChars
      replacement.val = (ret, output') → 0 ≤ ret →
    ∃ text, decode input.text = some text ∧ ∃ s : CString, s.mem = output' ∧ ret = s.strlen ∧
      Good illFormed maxOutputSize forbiddenChars replacement text s

/-! ### Long texts -/

/-- The text with its forbidden characters replaced among the first ones, of which there are as many as its
length modulo `2 ^ 32`. -/
def partly (text : List Char) : List Char :=
  sanitize forbiddenChars replacement (text.take (text.length % 2 ^ 32)) ++
    text.drop (text.length % 2 ^ 32)

/-- The number of bytes of the longest prefix of `partly` that fits. -/
def written (text : List Char) : ℕ :=
  total Char.utf8Size (cut maxOutputSize (partly forbiddenChars replacement text))

/-- The forbidden characters that are not among the first ones do not fit, neither themselves nor replaced. -/
def Unreached (text : List Char) : Prop :=
  ∀ j c, text.length % 2 ^ 32 ≤ j → text[j]? = some c → Forbidden forbiddenChars c →
    maxOutputSize - 1 < total Char.utf8Size (sanitize forbiddenChars replacement (text.take j)) +
      min c.utf8Size replacement.utf8Size

/-- The condition: an input that is well-formed, and whose numbers of characters and of bytes that fit are not
negative as `int`, has less than `2 ^ 32` bytes that fit, and no forbidden character behind the first ones that
fits. -/
def Counted : Prop :=
  ∀ text, decode input.text = some text → (input.strlen + 1) * sizeofWchar < 2 ^ 64 →
    text.length % 2 ^ 32 < 2 ^ 31 →
    written maxOutputSize forbiddenChars replacement text % 2 ^ 32 < 2 ^ 31 →
    written maxOutputSize forbiddenChars replacement text < 2 ^ 32 ∧
      Unreached maxOutputSize forbiddenChars replacement text

variable {illFormed input output maxOutputSize forbiddenChars replacement} {text : List Char} {n k : ℕ}

lemma noNul_sanitize (hreplacement : replacement.val ≠ 0) (h : NoNul text) :
    NoNul (sanitize forbiddenChars replacement text) := by
  intro c hc
  obtain ⟨c₀, hc₀, rfl⟩ := List.mem_map.mp hc
  unfold sanitizeChar
  split_ifs
  · exact hreplacement
  · exact h c₀ hc₀

lemma noNul_partly (hreplacement : replacement.val ≠ 0) (h : NoNul text) :
    NoNul (partly forbiddenChars replacement text) := by
  intro c hc
  rcases List.mem_append.mp hc with hc | hc
  · exact noNul_sanitize hreplacement (fun c hc => h c (List.mem_of_mem_take hc)) c hc
  · exact h c (List.mem_of_mem_drop hc)

lemma wide_cons (c : Char) : wide (c :: text) k = c.val :: wide text k := rfl

/-- **The loop** -/
lemma replaceLoop_wide {ws : List Wchar} (h : NoNul text) (hn : n ≤ text.length) :
    replaceLoop ws replacement.val n (wide text k) =
      wide (sanitize (some ws) replacement (text.take n) ++ text.drop n) k := by
  induction text generalizing n with
  | nil =>
    obtain rfl := Nat.le_zero.mp hn
    unfold replaceLoop
    rfl
  | cons c text ih =>
    cases n with
    | zero =>
      unfold replaceLoop
      rfl
    | succ n =>
      have hrest := ih (fun c hc => h c (List.mem_cons_of_mem _ hc)) (Nat.le_of_succ_le_succ hn)
      have hne : c.val ≠ 0 := h c List.mem_cons_self
      have hiff : Wcschr ws c.val ↔ Forbidden (some ws) c := by simp [Wcschr, Forbidden, hne]
      rw [wide_cons, replaceLoop, hrest, List.take_succ_cons, List.drop_succ_cons]
      unfold sanitize
      rw [List.map_cons, List.cons_append, wide_cons]
      congr 1
      unfold sanitizeChar
      simp only [hiff]
      split_ifs <;> rfl

lemma sanitize_none (text : List Char) : sanitize none replacement text = text := by
  unfold sanitize
  refine List.map_id'' ?_ text
  intro c
  unfold sanitizeChar
  rw [if_neg]
  rintro ⟨ws, ⟨⟩, -⟩

variable (illFormed output forbiddenChars) in
/-- **What is converted** when the number of characters is a nonnegative `int`. -/
lemma sanitize_eq (hmax : 2 ≤ maxOutputSize) (hreplacement : replacement.val ≠ 0)
    (h : decode input.text = some text) (hsize : (input.strlen + 1) * sizeofWchar < 2 ^ 64)
    (hret : 0 ≤ toInt text.length) :
    futilsStringSanitizeUtf8 illFormed input output maxOutputSize forbiddenChars replacement.val =
      let bytes := encode (cut maxOutputSize (partly forbiddenChars replacement text))
      let ret := toInt bytes.length
      (ret, if ret < 0 then output.store 0 bytes else (output.store 0 bytes).store ret.toNat [0]) := by
  have hnul := noNul_of_decode h
  have hk : 0 < input.strlen + 1 - text.length := by
    have hle := length_le_of_decode h
    omega
  rw [← toUtf8String_eq (noNul_partly hreplacement hnul) hk]
  unfold futilsStringSanitizeUtf8
  rw [if_neg (Nat.not_lt.mpr hmax), toWcharString_eq h hsize hret]
  dsimp only
  rw [if_neg (Int.not_lt.mpr hret), toNat_toInt hret]
  cases forbiddenChars with
  | none =>
    unfold partly
    rw [sanitize_none, List.take_append_drop]
  | some ws =>
    dsimp only
    rw [replaceLoop_wide hnul (Nat.mod_le _ _)]
    rfl

/-- Otherwise it fails. -/
lemma sanitize_neg (h : ¬ ∃ text, decode input.text = some text ∧
      (input.strlen + 1) * sizeofWchar < 2 ^ 64 ∧ 0 ≤ toInt text.length) :
    (futilsStringSanitizeUtf8 illFormed input output maxOutputSize forbiddenChars replacement.val).1 < 0 := by
  unfold futilsStringSanitizeUtf8
  split_ifs
  · exact Int.neg_neg_of_pos (by decide)
  · have hneg : (toWcharString illFormed input.text).1 < 0 := toWcharString_neg h
    dsimp only
    rw [if_pos hneg]
    exact hneg

end Futils.Strings
