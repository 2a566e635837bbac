import Futils.Lib.Fill
import Futils.Random.Defs

/-!
# The contract of `snprintf`

The functions that write random texts return the length of the text that is asked for, and write what there
is space for, with a null character after it.
-/

namespace Futils.Random

open Futils.Lib

variable {D : Type*} {chars : List UInt8} {usable : D → Bool} {request total : ℕ}

/-- Writing a text of `total` characters into a buffer of `len` bytes, unless `request` is too large. -/
def snprintfText (request total : ℕ) (write : ℕ → List D → Option (List UInt8 × List D)) (pool : List D)
    (buffer : Mem UInt8) (len : ℕ) : Option (ℤ × Mem UInt8 × List D) :=
  if request > INT_MAX then some (-EINVAL, buffer, pool)
  else if len = 0 then some ((total : ℤ), buffer, pool)
  else (write (min total (len - 1)) pool).map fun r => (total, buffer.store 0 (r.1 ++ [0]), r.2)

/-- The contract, of a function of the draws, the buffer and its length; it is `none` when the draws run out.
A text is cut where the buffer ends, so that a larger buffer gets a text that starts with it from the
same draws. -/
structure Snprintf (chars : List UInt8) (usable : D → Bool) (request total : ℕ)
    (f : List D → Mem UInt8 → ℕ → Option (ℤ × Mem UInt8 × List D)) : Prop where
  invalid : INT_MAX < request → ∀ pool buffer len, f pool buffer len = some (-EINVAL, buffer, pool)
  returns : request ≤ INT_MAX → ∀ {pool buffer len ret buffer' rest},
    f pool buffer len = some (ret, buffer', rest) → ret = total
  nothing : request ≤ INT_MAX → ∀ pool buffer, f pool buffer 0 = some ((total : ℤ), buffer, pool)
  writes : request ≤ INT_MAX → ∀ {pool buffer len ret buffer' rest}, 0 < len →
    f pool buffer len = some (ret, buffer', rest) →
      ∃ text, text.length = min total (len - 1) ∧ (∀ c ∈ text, c ∈ chars) ∧
        buffer' = buffer.store 0 (text ++ [0])
  cut : request ≤ INT_MAX → ∀ {pool buffer len ret buffer' rest more large len' ret' large' rest'},
    f pool buffer len = some (ret, buffer', rest) → total < len' →
      f (pool ++ more) large len' = some (ret', large', rest') →
        ∀ i < min total (len - 1), buffer' i = large' i
  enough : request ≤ INT_MAX → ∀ {pool} buffer len, total ≤ pool.countP usable →
    ∃ buffer' rest, f pool buffer len = some ((total : ℤ), buffer', rest)

/-- What is stored is read from the buffer. -/
lemma store_text (buffer : Mem UInt8) {text : List UInt8} {i : ℕ} (hi : i < text.length) :
    buffer.store 0 (text ++ [0]) i = text[i] := by
  have hlt : i - 0 < (text ++ [0]).length := by
    rw [List.length_append]
    omega
  rw [Mem.store_apply buffer (text ++ [0]) (Nat.zero_le i) hlt]
  exact List.getElem_append_left hi

variable {write : ℕ → List D → Option (List UInt8 × List D)} {pool : List D} {buffer : Mem UInt8} {len : ℕ}

lemma snprintfText_invalid (h : INT_MAX < request) :
    snprintfText request total write pool buffer len = some (-EINVAL, buffer, pool) := if_pos h

lemma snprintfText_zero (h : request ≤ INT_MAX) :
    snprintfText request total write pool buffer 0 = some ((total : ℤ), buffer, pool) := by
  unfold snprintfText
  rw [if_neg (Nat.not_lt.mpr h), if_pos rfl]

lemma snprintfText_of_pos (h : request ≤ INT_MAX) (hlen : 0 < len) :
    snprintfText request total write pool buffer len =
      (write (min total (len - 1)) pool).map fun r => ((total : ℤ), buffer.store 0 (r.1 ++ [0]), r.2) := by
  unfold snprintfText
  rw [if_neg (Nat.not_lt.mpr h), if_neg hlen.ne']

/-- A buffer that is large enough gets the whole text. -/
lemma snprintfText_whole {text : List UInt8} {rest : List D} (h : request ≤ INT_MAX) (hlen : total < len)
    (hwrite : write total pool = some (text, rest)) :
    snprintfText request total write pool buffer len =
      some ((total : ℤ), buffer.store 0 (text ++ [0]), rest) := by
  have hmin : min total (len - 1) = total := min_eq_left (by omega)
  rw [snprintfText_of_pos h (Nat.zero_lt_of_lt hlen), hmin, hwrite]
  rfl

/-- Draws that are not needed are left. -/
lemma snprintfText_append {ret : ℤ} {buffer' : Mem UInt8} {rest : List D} (h : Fills chars usable total write)
    (more : List D) (hres : snprintfText request total write pool buffer len = some (ret, buffer', rest)) :
    snprintfText request total write (pool ++ more) buffer len = some (ret, buffer', rest ++ more) := by
  unfold snprintfText at hres ⊢
  split_ifs at hres ⊢ with hmax hlen
  · obtain ⟨rfl, heq⟩ := Prod.mk.inj (Option.some.inj hres)
    obtain ⟨rfl, rfl⟩ := Prod.mk.inj heq
    rfl
  · obtain ⟨rfl, heq⟩ := Prod.mk.inj (Option.some.inj hres)
    obtain ⟨rfl, rfl⟩ := Prod.mk.inj heq
    rfl
  · obtain ⟨⟨text, rest'⟩, hwrite, heq⟩ := Option.map_eq_some_iff.mp hres
    obtain ⟨rfl, hleft⟩ := Prod.mk.inj heq
    obtain ⟨rfl, rfl⟩ := Prod.mk.inj hleft
    rw [h.append more (Nat.min_le_left ..) hwrite]
    rfl

/-- Where there is space, a text is written. -/
lemma exists_text {ret : ℤ} {buffer' : Mem UInt8} {rest : List D} (h : request ≤ INT_MAX) (hlen : 0 < len)
    (hres : snprintfText request total write pool buffer len = some (ret, buffer', rest)) :
    ret = total ∧ ∃ text rest, write (min total (len - 1)) pool = some (text, rest) ∧
      buffer' = buffer.store 0 (text ++ [0]) := by
  rw [snprintfText_of_pos h hlen] at hres
  obtain ⟨⟨text, rest'⟩, hwrite, heq⟩ := Option.map_eq_some_iff.mp hres
  obtain ⟨rfl, hstore⟩ := Prod.mk.inj heq
  exact ⟨rfl, text, rest', hwrite, (Prod.mk.inj hstore).1.symm⟩

/-- A text and the whole one from the same draws are the same where both are written. -/
lemma text_cut {more : List D} {large : Mem UInt8} {text text' : List UInt8} {rest rest' : List D} {k : ℕ}
    (h : Fills chars usable total write) (hk : k ≤ total) (hwrite : write k pool = some (text, rest))
    (hwrite' : write total (pool ++ more) = some (text', rest')) :
    ∀ i < k, buffer.store 0 (text ++ [0]) i = large.store 0 (text' ++ [0]) i := by
  intro i hi
  obtain ⟨_, hcut⟩ := h.cut hk le_rfl hwrite'
  rw [h.append more hk hwrite] at hcut
  obtain ⟨rfl, -⟩ := Prod.mk.inj (Option.some.inj hcut)
  have hlen := h.length le_rfl hwrite'
  have hlt : i < text'.length := by omega
  rw [store_text large hlt, store_text buffer (by rw [List.length_take]; omega), List.getElem_take]

/-- **The contract holds** of what fills a buffer. -/
theorem snprintf_of_fills (h : Fills chars usable total write) :
    Snprintf chars usable request total (snprintfText request total write) where
  invalid hlt _ _ _ := snprintfText_invalid hlt
  returns := by
    intro hle pool buffer len ret buffer' rest hres
    rcases Nat.eq_zero_or_pos len with rfl | hlen
    · rw [snprintfText_zero hle] at hres
      exact (Prod.mk.inj (Option.some.inj hres)).1.symm
    · exact (exists_text hle hlen hres).1
  nothing hle _ _ := snprintfText_zero hle
  writes := by
    intro hle pool buffer len ret buffer' rest hlen hres
    obtain ⟨-, text, rest', hwrite, hstore⟩ := exists_text hle hlen hres
    have hmin := Nat.min_le_left total (len - 1)
    exact ⟨text, h.length hmin hwrite, h.mem hmin hwrite, hstore⟩
  cut := by
    intro hle pool buffer len ret buffer' rest more large len' ret' large' rest' hres hlen' hlarge i hi
    obtain ⟨-, text, rest₁, hwrite, rfl⟩ := exists_text hle (by omega) hres
    obtain ⟨-, text', rest₂, hwrite', rfl⟩ := exists_text hle (by omega) hlarge
    have hall : min total (len' - 1) = total := by omega
    rw [hall] at hwrite'
    exact text_cut h (Nat.min_le_left ..) hwrite hwrite' i hi
  enough := by
    intro hle pool buffer len henough
    rcases Nat.eq_zero_or_pos len with rfl | hlen
    · exact ⟨buffer, pool, snprintfText_zero hle⟩
    · have hmin := Nat.min_le_left total (len - 1)
      obtain ⟨text, rest, hwrite⟩ := h.enough hmin (hmin.trans henough)
      rw [snprintfText_of_pos hle hlen, hwrite]
      exact ⟨_, rest, rfl⟩

/-! ### Base 16, 32 and 64 -/

lemma futilsRandomBase16_eq (pool : List (BitVec 64)) (buffer : Mem UInt8) (len count : ℕ) :
    futilsRandomBase16 pool buffer len count =
      snprintfText (count * 2) (count * 2) base16Loop pool buffer len := by
  unfold futilsRandomBase16 snprintfText
  by_cases hmax : count * 2 > INT_MAX
  · rw [if_pos hmax, if_pos hmax, ite_self]
  · have hguard : ¬ count > (INT_MAX + 1) / 2 := by
      unfold INT_MAX at hmax ⊢
      omega
    rw [if_neg hguard, if_neg hmax, if_neg hmax]
    cases base16Loop (min (count * 2) (len - 1)) pool <;> rfl

/-- The guards of base 32 and base 64 catch the texts that are too long. -/
structure Guards (bytes chars : ℕ) : Prop where
  few : bytes - 1 ≤ SIZE_MAX ∧ INT_MAX + (chars - 1) ≤ SIZE_MAX
  count : ∀ count, count > SIZE_MAX - (bytes - 1) → (count + (bytes - 1)) / bytes * chars > INT_MAX
  blobs : ∀ blobs, blobs > (INT_MAX + (chars - 1)) / chars → blobs * chars > INT_MAX
  total : ∀ blobs, ¬ blobs > (INT_MAX + (chars - 1)) / chars → blobs * chars ≤ SIZE_MAX

lemma guards_base32 : Guards 5 8 := by
  constructor <;> simp only [SIZE_MAX, INT_MAX] <;> omega

lemma guards_base64 : Guards 3 4 := by
  constructor <;> simp only [SIZE_MAX, INT_MAX] <;> omega

/-- The guards before the one that compares the whole text change nothing. -/
lemma Guards.eq {R : Type} {bytes chars : ℕ} (h : Guards bytes chars) (count : ℕ) (invalid other : R) :
    (if count > SIZE_MAX - (bytes - 1) then invalid
      else if (count + (bytes - 1)) / bytes > (INT_MAX + (chars - 1)) / chars then invalid
      else if (count + (bytes - 1)) / bytes * chars > INT_MAX then invalid else other) =
    if (count + (bytes - 1)) / bytes * chars > INT_MAX then invalid else other := by
  by_cases hmax : (count + (bytes - 1)) / bytes * chars > INT_MAX
  · rw [if_pos hmax, ite_self, ite_self]
  · rw [if_neg fun hcount => hmax (h.count _ hcount), if_neg fun hblobs => hmax (h.blobs _ hblobs)]

lemma futilsRandomBase32_eq (pool : List (BitVec 64)) (buffer : Mem UInt8) (len count : ℕ) :
    futilsRandomBase32 pool buffer len count =
      snprintfText ((count + 4) / 5 * 8) ((count + 4) / 5 * 8)
        (blobLoop base32Blob base32LastBlob 5 count) pool buffer len := by
  refine (guards_base32.eq count _ _).trans ?_
  unfold snprintfText
  cases blobLoop base32Blob base32LastBlob 5 count (min ((count + 4) / 5 * 8) (len - 1)) pool <;> rfl

lemma futilsRandomBase64_eq (pool : List (BitVec 32)) (buffer : Mem UInt8) (len count : ℕ) :
    futilsRandomBase64 pool buffer len count =
      snprintfText ((count + 2) / 3 * 4) ((count + 2) / 3 * 4)
        (blobLoop base64Blob base64LastBlob 3 count) pool buffer len := by
  refine (guards_base64.eq count _ _).trans ?_
  unfold snprintfText
  cases blobLoop base64Blob base64LastBlob 3 count (min ((count + 2) / 3 * 4) (len - 1)) pool <;> rfl

end Futils.Random
