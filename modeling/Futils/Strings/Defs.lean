import Futils.Errno
import Futils.Lib.CString
import Futils.Lib.Utf8

/-!
# Sanitizing and checking UTF-8 strings (`src/string.c`)

`iconv` converts exactly: it fails on input that is not UTF-8, and when there is no space left it stops after
the last whole character that fits.  Memory is allocated unless the size of the block overflows, and
pointers are not null.
-/

namespace Futils.Strings

open Futils.Lib

/-- `wchar_t`, a code point of `sizeof(wchar_t)` bytes. -/
abbrev Wchar := UInt32

def sizeofWchar : ℕ := 4

/-- A size that is put in an `int`. -/
def toInt (n : ℕ) : ℤ := Int.bmod n (2 ^ 32)

/-! ### The C library -/

def wcslen (ws : List Wchar) : ℕ := ws.findIdx (· = 0)

/-- Whether `wcschr` finds a character; it finds the terminating one. -/
def Wcschr (ws : List Wchar) (c : Wchar) : Prop := c = 0 ∨ c ∈ ws

instance (ws : List Wchar) (c : Wchar) : Decidable (Wcschr ws c) := inferInstanceAs (Decidable (_ ∨ _))

/-- The error of `iconv` for input that is not well-formed: it is invalid, or incomplete at its end. -/
inductive IllFormed
  | eilseq
  | einval

def IllFormed.errno : IllFormed → ℤ
  | eilseq => EILSEQ
  | einval => EINVAL

/-- What `iconv` has written, and its error if it returned `-1`. -/
structure Iconv (α : Type) where
  written : List α
  errno : Option ℤ

/-- From `"UTF-8"` to `"WCHAR_T"`.  What is written of input that is not well-formed is not looked at. -/
def iconvToWchar (illFormed : List UInt8 → IllFormed) (input : List UInt8) (outbytes : ℕ) : Iconv Wchar :=
  match decode input with
  | none => ⟨[], some (illFormed input).errno⟩
  | some text =>
    let output := text.map Char.val
    if output.length * sizeofWchar ≤ outbytes then ⟨output, none⟩
    else ⟨output.take (outbytes / sizeofWchar), some E2BIG⟩

/-- From `"WCHAR_T"` to `"UTF-8"`. -/
def iconvToUtf8 : ℕ → List Wchar → Iconv UInt8
  | _, [] => ⟨[], none⟩
  | outbytes, w :: ws =>
    if hw : w.isValidChar then
      let bytes := String.utf8EncodeChar ⟨w, hw⟩
      if bytes.length ≤ outbytes then
        let rest := iconvToUtf8 (outbytes - bytes.length) ws
        ⟨bytes ++ rest.written, rest.errno⟩
      else ⟨[], some E2BIG⟩
    else ⟨[], some EILSEQ⟩

/-! ### Conversions -/

variable (illFormed : List UInt8 → IllFormed)

/-- `to_wchar_string` -/
def toWcharString (input : List UInt8) : ℤ × List Wchar :=
  let inLen := input.length
  if 2 ^ 64 ≤ (inLen + 1) * sizeofWchar then (-ENOMEM, [])
  else
    let conv := iconvToWchar illFormed input (inLen * sizeofWchar)
    match conv.errno with
    | some errno => (-errno, [])
    | none =>
      let ret := toInt conv.written.length
      if ret < 0 then (ret, [])
      else (ret, conv.written ++ List.replicate (inLen + 1 - conv.written.length) 0)

/-- `to_utf8_string`.  The null character is written at the index `ret`, an `int`; where that is negative,
the character is outside of the memory of `output`. -/
def toUtf8String (input : List Wchar) (output : Mem UInt8) (maxOutputLen : ℕ) : ℤ × Mem UInt8 :=
  let conv := iconvToUtf8 (maxOutputLen - 1) (input.take (wcslen input))
  let output := output.store 0 conv.written
  if ∃ errno ∈ conv.errno, errno ≠ E2BIG then (-(conv.errno.getD 0), output)
  else
    let ret := toInt conv.written.length
    (ret, if ret < 0 then output else output.store ret.toNat [0])

/-! ### The functions -/

/-- The first `n` characters are looked at. -/
def replaceLoop (forbiddenChars : List Wchar) (replacementChar : Wchar) : ℕ → List Wchar → List Wchar
  | 0, ws => ws
  | _, [] => []
  | n + 1, w :: ws =>
    (if Wcschr forbiddenChars w then replacementChar else w) ::
      replaceLoop forbiddenChars replacementChar n ws

/-- `futils_string_sanitize_utf8` -/
def futilsStringSanitizeUtf8 (input : CString) (output : Mem UInt8) (maxOutputSize : ℕ)
    (forbiddenChars : Option (List Wchar)) (replacementChar : Wchar) : ℤ × Mem UInt8 :=
  if maxOutputSize < 2 then (-EINVAL, output)
  else
    let (ret, winput) := toWcharString illFormed input.text
    if ret < 0 then (ret, output)
    else
      let winput := match forbiddenChars with
        | none => winput
        | some forbiddenChars => replaceLoop forbiddenChars replacementChar ret.toNat winput
      toUtf8String winput output maxOutputSize

/-- `futils_string_check_utf8` -/
def futilsStringCheckUtf8 (input : CString) (maxBytes maxWchars : ℕ)
    (forbiddenChars : Option (List Wchar)) : ℤ :=
  let inLen := input.strlen
  if maxBytes > 0 ∧ inLen ≥ maxBytes then -E2BIG
  else
    let (ret, winput) := toWcharString illFormed input.text
    if ret < 0 then ret
    else
      let wLen := ret.toNat
      if maxWchars > 0 ∧ wLen > maxWchars then -E2BIG
      else
        match forbiddenChars with
        | none => 0
        | some forbiddenChars =>
          if ∃ w ∈ winput.take wLen, Wcschr forbiddenChars w then -EPROTO else 0

end Futils.Strings
