import Futils.Strings.Sanitize

/-!
# When sanitizing and checking agree

Where the loop stops early, the code converts another text, and what is cut of the two texts is the same only
if the first character in which they differ does not fit in either.
-/

namespace Futils.Strings

open Futils.Lib

variable {illFormed : List UInt8 → IllFormed} {input s : CString} {output : Mem UInt8}
  {maxOutputSize : ℕ} {forbiddenChars : Option (List Wchar)} {replacement : Char} {text : List Char}
  {j n : ℕ} {c : Char}

/-! ### The two texts -/

lemma length_sanitize : (sanitize forbiddenChars replacement text).length = text.length := List.length_map ..

lemma getElem?_sanitize :
    (sanitize forbiddenChars replacement text)[j]? =
      text[j]?.map (sanitizeChar forbiddenChars replacement) := List.getElem?_map ..

lemma sanitizeChar_of_not (h : ¬ Forbidden forbiddenChars c) :
    sanitizeChar forbiddenChars replacement c = c := if_neg h

lemma take_sanitize : (sanitize forbiddenChars replacement text).take j =
    sanitize forbiddenChars replacement (text.take j) := List.map_take.symm

lemma getElem?_partly :
    (partly forbiddenChars replacement text)[j]? =
      if j < text.length % 2 ^ 32 then (sanitize forbiddenChars replacement text)[j]? else text[j]? := by
  have hlen : (sanitize forbiddenChars replacement (text.take (text.length % 2 ^ 32))).length =
      text.length % 2 ^ 32 := by
    rw [length_sanitize, List.length_take]
    exact Nat.min_eq_left (Nat.mod_le _ _)
  unfold partly
  split_ifs with hj
  · rw [List.getElem?_append_left (by rwa [hlen]), ← take_sanitize, List.getElem?_take_of_lt hj]
  · rw [List.getElem?_append_right (by rw [hlen]; omega), hlen, List.getElem?_drop]
    congr 1
    omega

lemma length_partly : (partly forbiddenChars replacement text).length = text.length := by
  unfold partly
  rw [List.length_append, length_sanitize, ← List.length_append, List.take_append_drop]

/-- A text of an `int` of characters is looked at as a whole. -/
lemma partly_of_lt (h : text.length < 2 ^ 32) :
    partly forbiddenChars replacement text = sanitize forbiddenChars replacement text := by
  unfold partly
  rw [Nat.mod_eq_of_lt h, List.take_length, List.drop_length, List.append_nil]

/-- The texts are the same up to a character that is forbidden and not looked at. -/
lemma take_partly (h : ∀ i c, text.length % 2 ^ 32 ≤ i → i < j → text[i]? = some c →
      ¬ Forbidden forbiddenChars c) :
    (partly forbiddenChars replacement text).take j = (sanitize forbiddenChars replacement text).take j := by
  refine List.ext_getElem? fun i => ?_
  rw [List.getElem?_take, List.getElem?_take]
  split_ifs with hi
  · rw [getElem?_partly]
    split_ifs with hk
    · rfl
    · rw [getElem?_sanitize]
      rcases hc : text[i]? with _ | c
      · rfl
      · rw [Option.map_some, sanitizeChar_of_not (h i c (Nat.not_lt.mp hk) hi hc)]
  · rfl

lemma sanitize_at (hc : text[j]? = some c) (hforbidden : Forbidden forbiddenChars c) :
    (sanitize forbiddenChars replacement text)[j]? = some replacement := by
  rw [getElem?_sanitize, hc, Option.map_some]
  unfold sanitizeChar
  rw [if_pos hforbidden]

/-- What fits has no such character, -/
lemma not_forbidden_of_unreached (h : Unreached maxOutputSize forbiddenChars replacement text)
    (hj : text.length % 2 ^ 32 ≤ j)
    (hfits : j < (cut maxOutputSize (sanitize forbiddenChars replacement text)).length)
    (hc : text[j]? = some c) : ¬ Forbidden forbiddenChars c := by
  intro hforbidden
  have hroom := (lt_length_fit.mp hfits).2
  rw [total_take_succ (sanitize_at hc hforbidden), take_sanitize] at hroom
  have hbehind := h j c hj hc hforbidden
  have hmin := Nat.min_le_right c.utf8Size replacement.utf8Size
  omega

/-- and the next character of the other text is too large, too. -/
lemma length_cut_partly_le (h : Unreached maxOutputSize forbiddenChars replacement text) :
    (cut maxOutputSize (partly forbiddenChars replacement text)).length ≤
      (cut maxOutputSize (sanitize forbiddenChars replacement text)).length := by
  set p := (cut maxOutputSize (sanitize forbiddenChars replacement text)).length
  by_contra! hlt
  obtain ⟨hlong, hfits⟩ := lt_length_fit.mp hlt
  rw [length_partly] at hlong
  have hc : text[p]? = some text[p] := List.getElem?_eq_getElem hlong
  by_cases hforbidden : text.length % 2 ^ 32 ≤ p ∧ Forbidden forbiddenChars text[p]
  · have hbehind := h p text[p] hforbidden.1 hc hforbidden.2
    have hkept : (partly forbiddenChars replacement text)[p]? = some text[p] := by
      rw [getElem?_partly, if_neg (Nat.not_lt.mpr hforbidden.1), hc]
    have htake : (partly forbiddenChars replacement text).take p =
        (sanitize forbiddenChars replacement text).take p :=
      take_partly fun i c hi hip hci => not_forbidden_of_unreached h hi hip hci
    rw [total_take_succ hkept, htake, take_sanitize] at hfits
    have hmin := Nat.min_le_left text[p].utf8Size replacement.utf8Size
    omega
  · have hmore : ∀ i c, text.length % 2 ^ 32 ≤ i → i < p + 1 → text[i]? = some c →
        ¬ Forbidden forbiddenChars c := by
      intro i c hi hip hci
      rcases Nat.lt_succ_iff_lt_or_eq.mp hip with hip | rfl
      · exact not_forbidden_of_unreached h hi hip hci
      · rw [hc] at hci
        obtain rfl := Option.some.inj hci
        exact fun hf => hforbidden ⟨hi, hf⟩
    rw [take_partly hmore] at hfits
    have hself : p < p := lt_length_fit.mpr ⟨by rwa [length_sanitize], hfits⟩
    exact hself.false

/-- **The same is cut of both** if no such character is reached, -/
lemma cut_partly (h : Unreached maxOutputSize forbiddenChars replacement text) :
    cut maxOutputSize (partly forbiddenChars replacement text) =
      cut maxOutputSize (sanitize forbiddenChars replacement text) := by
  set p := (cut maxOutputSize (sanitize forbiddenChars replacement text)).length
  have htake : (partly forbiddenChars replacement text).take p =
      (sanitize forbiddenChars replacement text).take p :=
    take_partly fun i c hi hip hc => not_forbidden_of_unreached h hi hip hc
  have hcut : cut maxOutputSize (sanitize forbiddenChars replacement text) =
      (sanitize forbiddenChars replacement text).take p := fit_eq_take
  have hstart : (partly forbiddenChars replacement text).take p <+:
      cut maxOutputSize (partly forbiddenChars replacement text) := by
    refine prefix_fit (List.take_prefix p _) ?_
    rw [htake, ← hcut]
    exact total_fit_le _ _
  rw [hcut, ← htake]
  refine (hstart.eq_of_length_le ?_).symm
  rw [List.length_take]
  exact Nat.le_min.mpr ⟨length_cut_partly_le h, (fit_isPrefix _ _).length_le⟩

/-- and only then. -/
lemma unreached_of_cut (hnot : ¬ Forbidden forbiddenChars replacement)
    (h : cut maxOutputSize (partly forbiddenChars replacement text) =
      cut maxOutputSize (sanitize forbiddenChars replacement text)) :
    Unreached maxOutputSize forbiddenChars replacement text := by
  intro j c hj hc hforbidden
  by_contra! hle
  have hlt : j < text.length := (List.getElem?_eq_some_iff.mp hc).1
  have hreplaced : (sanitize forbiddenChars replacement text)[j]? = some replacement :=
    sanitize_at hc hforbidden
  have hkept : (partly forbiddenChars replacement text)[j]? = some c := by
    rw [getElem?_partly, if_neg (Nat.not_lt.mpr hj), hc]
  have hreached : j < (cut maxOutputSize (sanitize forbiddenChars replacement text)).length := by
    rcases Nat.le_total replacement.utf8Size c.utf8Size with hmin | hmin
    · rw [Nat.min_eq_right hmin, ← take_sanitize, ← total_take_succ hreplaced] at hle
      exact lt_length_fit.mpr ⟨by rwa [length_sanitize], hle⟩
    · rw [Nat.min_eq_left hmin, ← take_sanitize] at hle
      have hstart : (sanitize forbiddenChars replacement text).take j <+:
          cut maxOutputSize (partly forbiddenChars replacement text) := by
        rw [h]
        exact prefix_fit (List.take_prefix j _) (by omega)
      have htake := List.prefix_iff_eq_take.mp (hstart.trans (fit_isPrefix _ _))
      rw [List.length_take, length_sanitize, Nat.min_eq_left hlt.le] at htake
      rw [htake, ← total_take_succ hkept] at hle
      rw [← h]
      exact lt_length_fit.mpr ⟨by rwa [length_partly], hle⟩
  have hsame : some replacement = some c := by
    rw [← hreplaced, ← hkept]
    refine (getElem?_fit hreached).symm.trans ?_
    rw [← h] at hreached
    refine Eq.trans ?_ (getElem?_fit hreached)
    exact congrArg (·[j]?) h.symm
  rw [Option.some.inj hsame] at hnot
  exact hnot hforbidden

/-! ### The output -/

lemma not_forbidden_sanitize (hnot : ¬ Forbidden forbiddenChars replacement)
    (hc : c ∈ sanitize forbiddenChars replacement text) : ¬ Forbidden forbiddenChars c := by
  obtain ⟨c₀, -, rfl⟩ := List.mem_map.mp hc
  unfold sanitizeChar
  split_ifs with h
  · exact hnot
  · exact h

lemma sanitize_of_not (h : ∀ c ∈ text, ¬ Forbidden forbiddenChars c) :
    sanitize forbiddenChars replacement text = text := by
  refine (List.map_congr_left fun c hc => ?_).trans (List.map_id text)
  exact sanitizeChar_of_not (h c hc)

/-- **The check** of a string in which nothing is forbidden. -/
lemma check_eq_zero (h : decode s.text = some text) (hfits : s.strlen < maxOutputSize)
    (hlen : s.strlen < 2 ^ 31) (hnot : ∀ c ∈ text, ¬ Forbidden forbiddenChars c) :
    futilsStringCheckUtf8 illFormed s maxOutputSize 0 forbiddenChars = 0 := by
  have hle := length_le_of_decode h
  have hsize : (s.strlen + 1) * sizeofWchar < 2 ^ 64 := by
    unfold sizeofWchar
    omega
  have hret : toInt text.length = text.length := toInt_of_lt (by omega)
  have hfound : ∀ ws ∈ forbiddenChars, ¬ ∃ w ∈ text.map Char.val, Wcschr ws w := by
    rintro ws hws ⟨w, hw, hzero | hmem⟩
    · obtain ⟨c, hc, rfl⟩ := List.mem_map.mp hw
      exact noNul_of_decode h c hc hzero
    · obtain ⟨c, hc, rfl⟩ := List.mem_map.mp hw
      exact hnot c hc ⟨ws, hws, hmem⟩
  unfold futilsStringCheckUtf8
  rw [if_neg (fun hlong => Nat.not_le.mpr hfits hlong.2),
    toWcharString_eq h hsize (hret ▸ Int.natCast_nonneg _), hret]
  dsimp only
  rw [if_neg (Int.not_lt.mpr (Int.natCast_nonneg _)), if_neg (fun hmany => lt_irrefl 0 hmany.1),
    Int.toNat_natCast, take_wide]
  cases forbiddenChars with
  | none => rfl
  | some ws => exact if_neg (hfound ws rfl)

/-- What is written is the string `bytes`, and then what is returned is its length. -/
lemma exists_output (output : Mem UInt8) (hmax : 2 ≤ maxOutputSize) (hnul : NoNul text)
    (hlen : total Char.utf8Size (cut maxOutputSize text) < 2 ^ 31) :
    ∃ s : CString, s.text = encode (cut maxOutputSize text) ∧ s.strlen < maxOutputSize ∧
      s.strlen < 2 ^ 31 ∧ toInt (encode (cut maxOutputSize text)).length = s.strlen ∧
      s.mem = (output.store 0 (encode (cut maxOutputSize text))).store
        (toInt (encode (cut maxOutputSize text)).length).toNat [0] := by
  have hzero : 0 ∉ encode (cut maxOutputSize text) := by
    intro h
    obtain ⟨c, hc, hval⟩ := zero_mem_encode.mp h
    exact hnul c ((fit_isPrefix _ _).mem hc) hval
  have hfits : (encode (cut maxOutputSize text)).length ≤ maxOutputSize - 1 := by
    rw [length_encode]
    exact total_fit_le _ _
  rw [← length_encode] at hlen
  have hret := toInt_of_lt hlen
  refine ⟨CString.stored output _ hzero, CString.text_stored .., ?_, hlen, hret, ?_⟩
  · change (encode (cut maxOutputSize text)).length < maxOutputSize
    omega
  · rw [hret, Int.toNat_natCast]
    have happend := Mem.store_append output 0 (encode (cut maxOutputSize text)) [0]
    rwa [Nat.zero_add] at happend

/-- **A sanitized string is good.** -/
lemma good (hmax : 2 ≤ maxOutputSize) (hreplacement : replacement.val ≠ 0)
    (hnot : ¬ Forbidden forbiddenChars replacement) (hlen : s.strlen < 2 ^ 31)
    (hfits : s.strlen < maxOutputSize)
    (htext : s.text = encode (cut maxOutputSize (sanitize forbiddenChars replacement text))) :
    Good illFormed maxOutputSize forbiddenChars replacement text s := by
  have hdecode := decode_eq_some.mpr htext.symm
  have hallowed : ∀ c ∈ cut maxOutputSize (sanitize forbiddenChars replacement text),
      ¬ Forbidden forbiddenChars c :=
    fun c hc => not_forbidden_sanitize hnot ((fit_isPrefix _ _).mem hc)
  refine ⟨hfits, htext, check_eq_zero hdecode hfits hlen hallowed, ?_⟩
  intro output'
  have hle := length_le_of_decode hdecode
  have hsize : (s.strlen + 1) * sizeofWchar < 2 ^ 64 := by
    unfold sizeofWchar
    omega
  have hret : 0 ≤ toInt (cut maxOutputSize (sanitize forbiddenChars replacement text)).length :=
    toInt_nonneg.mpr (by omega)
  have hpartly : partly forbiddenChars replacement
      (cut maxOutputSize (sanitize forbiddenChars replacement text)) =
        cut maxOutputSize (sanitize forbiddenChars replacement text) := by
    rw [partly_of_lt (by omega), sanitize_of_not hallowed]
  have hcut : cut maxOutputSize (cut maxOutputSize (sanitize forbiddenChars replacement text)) =
      cut maxOutputSize (sanitize forbiddenChars replacement text) := fit_fit _ _
  have hwritten : total Char.utf8Size (cut maxOutputSize
      (cut maxOutputSize (sanitize forbiddenChars replacement text))) < 2 ^ 31 := by
    rw [hcut, ← length_encode, ← htext, length_text]
    exact hlen
  obtain ⟨s', htext', -, -, hlen', hmem⟩ :=
    exists_output output' hmax (noNul_of_decode hdecode) hwritten
  rw [hcut] at htext' hlen' hmem
  refine ⟨s', htext'.trans htext.symm, ?_⟩
  rw [sanitize_eq _ _ _ hmax hreplacement hdecode hsize hret, hpartly, hcut]
  dsimp only
  rw [hmem, hlen', if_neg (Int.not_lt.mpr (Int.natCast_nonneg _))]

/-! ### The condition -/

lemma agree_of_counted (hmax : 2 ≤ maxOutputSize) (hreplacement : replacement.val ≠ 0)
    (hnot : ¬ Forbidden forbiddenChars replacement)
    (h : Counted input maxOutputSize forbiddenChars replacement) :
    Agree illFormed input output maxOutputSize forbiddenChars replacement := by
  intro ret output' hres hret
  have hconverts : ∃ text, decode input.text = some text ∧
      (input.strlen + 1) * sizeofWchar < 2 ^ 64 ∧ 0 ≤ toInt text.length := by
    by_contra hno
    have hneg : (futilsStringSanitizeUtf8 illFormed input output maxOutputSize forbiddenChars
        replacement.val).1 < 0 := sanitize_neg hno
    rw [hres] at hneg
    exact absurd hret (Int.not_le.mpr hneg)
  obtain ⟨text, hdecode, hsize, hlen⟩ := hconverts
  rw [sanitize_eq _ _ _ hmax hreplacement hdecode hsize hlen] at hres
  obtain ⟨rfl, hmem⟩ := Prod.mk.inj hres
  rw [if_neg (Int.not_lt.mpr hret)] at hmem
  rw [length_encode] at hret
  have hmod := toInt_nonneg.mp hret
  obtain ⟨hlt, hunreached⟩ := h text hdecode hsize (toInt_nonneg.mp hlen) hmod
  have hshort : written maxOutputSize forbiddenChars replacement text < 2 ^ 31 := by
    rwa [← Nat.mod_eq_of_lt hlt]
  have hnul : NoNul (partly forbiddenChars replacement text) :=
    noNul_partly hreplacement (noNul_of_decode hdecode)
  obtain ⟨s, htext, hfits, hsmall, hstrlen, hsmem⟩ := exists_output output hmax hnul hshort
  refine ⟨text, hdecode, s, hsmem.trans hmem, hstrlen, ?_⟩
  rw [cut_partly hunreached] at htext
  exact good hmax hreplacement hnot hsmall hfits htext

/-- A string that is cut at a zero. -/
lemma text_of_store {bytes : List UInt8} (hmem : s.mem = (output.store 0 bytes).store s.strlen [0])
    (hle : s.strlen ≤ bytes.length) : s.text = bytes.take s.strlen := by
  unfold CString.text
  rw [hmem]
  have hbefore : ∀ i, 0 ≤ i → i < 0 + s.strlen →
      (output.store 0 bytes).store s.strlen [0] i = output.store 0 bytes i :=
    fun i _ hi => Mem.store_of_lt _ _ (by omega)
  rw [Mem.load_congr hbefore]
  have htake := Mem.take_load (output.store 0 bytes) 0 bytes.length s.strlen
  rwa [Mem.load_store, Nat.min_eq_left hle, eq_comm] at htake

/-- What is less than the space by more than a character is all of the text. -/
lemma cut_eq_self (h : total Char.utf8Size (cut maxOutputSize text) + 4 ≤ maxOutputSize - 1) :
    cut maxOutputSize text = text := by
  have hstart : cut maxOutputSize text <+: text := fit_isPrefix _ _
  refine hstart.eq_of_length_le ?_
  by_contra! hlt
  have hc : text[(cut maxOutputSize text).length]? = some (text[(cut maxOutputSize text).length]) :=
    List.getElem?_eq_getElem hlt
  have hself : (cut maxOutputSize text).length < (cut maxOutputSize text).length := by
    refine lt_length_fit.mpr ⟨hlt, ?_⟩
    have heq : cut maxOutputSize text = text.take (cut maxOutputSize text).length := fit_eq_take
    have hfour := Char.utf8Size_le_four (text[(cut maxOutputSize text).length])
    rw [total_take_succ hc, ← heq]
    omega
  exact hself.false

/-- What is written is not much longer than what is asked for. -/
lemma written_lt
    (h : total Char.utf8Size (cut maxOutputSize (sanitize forbiddenChars replacement text)) < 2 ^ 31) :
    written maxOutputSize forbiddenChars replacement text < 2 ^ 32 := by
  by_contra! hge
  have hspace : written maxOutputSize forbiddenChars replacement text ≤ maxOutputSize - 1 := total_fit_le _ _
  have hall : cut maxOutputSize (sanitize forbiddenChars replacement text) =
      sanitize forbiddenChars replacement text := cut_eq_self (by omega)
  have hlen : text.length < 2 ^ 31 := by
    rw [hall] at h
    have hshort := (length_le_total Char.utf8Size_pos).trans_lt h
    rwa [length_sanitize] at hshort
  unfold written at hge
  rw [partly_of_lt (by omega)] at hge
  omega

lemma counted_of_agree (hmax : 2 ≤ maxOutputSize) (hreplacement : replacement.val ≠ 0)
    (hnot : ¬ Forbidden forbiddenChars replacement)
    (h : Agree illFormed input output maxOutputSize forbiddenChars replacement) :
    Counted input maxOutputSize forbiddenChars replacement := by
  intro text hdecode hsize hlen hmod
  have hres := sanitize_eq illFormed output forbiddenChars hmax hreplacement hdecode hsize
    (toInt_nonneg.mpr hlen)
  have hret : 0 ≤ toInt (encode (cut maxOutputSize
      (partly forbiddenChars replacement text))).length := by
    rw [length_encode]
    exact toInt_nonneg.mpr hmod
  dsimp only at hres
  rw [if_neg (Int.not_lt.mpr hret)] at hres
  obtain ⟨text', hdecode', s, hmem, hstrlen, hgood⟩ := h _ _ hres hret
  obtain rfl : text' = text := by
    rw [hdecode] at hdecode'
    exact (Option.some.inj hdecode').symm
  have hcounted : s.strlen = written maxOutputSize forbiddenChars replacement text' % 2 ^ 32 := by
    rw [toInt_eq hret, length_encode] at hstrlen
    exact (Int.natCast_inj.mp hstrlen).symm
  rw [hstrlen, Int.toNat_natCast] at hmem
  have htext := text_of_store hmem (by
    rw [hcounted, length_encode]
    exact Nat.mod_le _ _)
  have hlt : written maxOutputSize forbiddenChars replacement text' < 2 ^ 32 := by
    refine written_lt ?_
    rw [← length_encode, ← hgood.text_eq, length_text, hcounted]
    exact hmod
  have hwhole : (encode (cut maxOutputSize (partly forbiddenChars replacement text'))).length ≤
      s.strlen := by
    rw [hcounted, Nat.mod_eq_of_lt hlt, length_encode]
    rfl
  rw [hgood.text_eq, List.take_of_length_le hwhole] at htext
  exact ⟨hlt, unreached_of_cut hnot (encode_injective htext).symm⟩

/-- The condition holds of every string and space of less than two gibibytes. -/
lemma counted_of_short (hinput : input.strlen < 2 ^ 31) (hmax : maxOutputSize ≤ 2 ^ 31) :
    Counted input maxOutputSize forbiddenChars replacement := by
  intro text hdecode hsize hlen hmod
  have hspace : written maxOutputSize forbiddenChars replacement text ≤ maxOutputSize - 1 := total_fit_le _ _
  have hle := length_le_of_decode hdecode
  refine ⟨by omega, ?_⟩
  intro j c hj hc
  have hlt := (List.getElem?_eq_some_iff.mp hc).1
  rw [Nat.mod_eq_of_lt (by omega)] at hj
  exact absurd hlt (Nat.not_lt.mpr hj)

/-- Of more than `2 ^ 32` characters, the loop looks at the first one only. -/
lemma not_counted {N : ℕ} (m : Mem UInt8) (hnul : 0 ∉ encode (List.replicate N 'a'))
    (hsize : (N + 1) * sizeofWchar < 2 ^ 64) (hN : 1 < N) (hmod : N % 2 ^ 32 = 1) :
    ¬ Counted (.stored m _ hnul) 3 (some ['a'.val]) 'b' := by
  intro h
  have htext : decode (CString.stored m _ hnul).text = some (List.replicate N 'a') := by
    rw [CString.text_stored, decode_encode]
  have hstrlen : (CString.stored m _ hnul).strlen = N := by
    refine (length_encode _).trans ?_
    rw [total_replicate]
    exact Nat.mul_one N
  have hlen : (List.replicate N 'a').length % 2 ^ 32 = 1 := by rw [List.length_replicate, hmod]
  have hspace : written 3 (some ['a'.val]) 'b' (List.replicate N 'a') ≤ 2 := total_fit_le _ _
  rw [← hstrlen] at hsize
  have hcounted := h _ htext hsize (by omega) (by omega)
  have hsecond : (List.replicate N 'a')[1]? = some 'a' := by rw [List.getElem?_replicate, if_pos hN]
  have hbehind := hcounted.2 1 'a' hlen.le hsecond ⟨_, rfl, List.mem_singleton_self _⟩
  rw [List.take_replicate, Nat.min_eq_left hN.le] at hbehind
  exact absurd hbehind (by decide)

/-- **Sanitizing and checking agree** on the inputs that meet the condition, and on no other. -/
theorem agree_iff (hmax : 2 ≤ maxOutputSize) (hreplacement : replacement.val ≠ 0)
    (hnot : ¬ Forbidden forbiddenChars replacement) :
    Agree illFormed input output maxOutputSize forbiddenChars replacement ↔
      Counted input maxOutputSize forbiddenChars replacement :=
  ⟨counted_of_agree hmax hreplacement hnot, agree_of_counted hmax hreplacement hnot⟩

def azerty : CString := .stored (fun _ => 0) (chars ['a', 'z', 'e', 'r', 't', 'y']) (by decide)

/-- "azerty" in five bytes without the letters of "zqs", in place of which there is a character of three bytes:
one letter is left beside it. -/
lemma agree_azerty :
    (futilsStringSanitizeUtf8 (fun _ => .eilseq) azerty (fun _ => 0) 5 (some ['z'.val, 'q'.val, 's'.val])
        '€'.val).1 = 4 ∧
      Agree (fun _ => .eilseq) azerty (fun _ => 0) 5 (some ['z'.val, 'q'.val, 's'.val]) '€' :=
  ⟨by decide +kernel, (agree_iff (by decide) (by decide) (by decide)).mpr (counted_of_short (by decide) (by decide))⟩

lemma not_agree : ¬ ∀ (illFormed : List UInt8 → IllFormed) (input : CString) (output : Mem UInt8)
    (maxOutputSize : ℕ) (forbiddenChars : Option (List Wchar)) (replacement : Char),
    2 ≤ maxOutputSize → replacement.val ≠ 0 → ¬ Forbidden forbiddenChars replacement →
      Agree illFormed input output maxOutputSize forbiddenChars replacement := by
  intro h
  have hnul : 0 ∉ encode (List.replicate (2 ^ 32 + 1) 'a') := by
    intro hzero
    obtain ⟨c, hc, hval⟩ := zero_mem_encode.mp hzero
    rw [List.eq_of_mem_replicate hc] at hval
    exact absurd hval (by decide)
  have hagree := h (fun _ => .eilseq) (.stored (fun _ => 0) _ hnul) (fun _ => 0) 3
    (some ['a'.val]) 'b' (by decide) (by decide) (by decide)
  refine not_counted (fun _ => 0) hnul (by decide) (by decide) (by decide) ?_
  exact counted_of_agree (by decide) (by decide) (by decide) hagree

end Futils.Strings
