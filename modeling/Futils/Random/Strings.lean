import Futils.Random.Snprintf
import Futils.Random.Unbiased

/-!
# The texts fill their buffers (`src/random.c`)

`futils_random_string`, of which the pool is the list of raw draws; and the loops of the four functions, which
all fill a space from draws.
-/

namespace Futils.Random

open Futils.Lib

/-- The loop, with `ps` characters to go. -/
def stringLoop (alphabet : CString) : ℕ → List (Mem UInt8) → Outcome (List UInt8)
  | 0, pool => .value [] pool
  | ps + 1, pool =>
    match poolRandSizeMaximum (BitVec.ofNat 64 (alphabet.strlen - 1)) pool with
    | .value r pool => (stringLoop alphabet ps pool).map (alphabet.mem r.toNat :: ·)
    | .starved => .starved
    | .abort => .abort

def futilsRandomString (pool : List (Mem UInt8)) (buffer : Mem UInt8) (len count : ℕ)
    (alphabet : CString) : Outcome (ℤ × Mem UInt8) :=
  if count > INT_MAX then .value (-EINVAL, buffer) pool
  else if len = 0 then
    if alphabet.strlen = 0 then .value (0, buffer) pool else .value (count, buffer) pool
  else if alphabet.strlen = 0 then .value (0, buffer.store 0 [0]) pool
  else
    (stringLoop alphabet (min count (len - 1)) pool).map fun text =>
      (count, buffer.store 0 (text ++ [0]))

variable {w : ℕ} {alphabet : List UInt8} {mask v x : BitVec w} {s shift n c bits ps : ℕ}

/-! ### Characters -/

lemma charAt_mem (h : x.toNat < alphabet.length) : charAt alphabet x ∈ alphabet := by
  unfold charAt
  rw [List.getD_eq_getElem _ _ h]
  exact List.getElem_mem h

/-- The masked number is an index. -/
lemma masked_lt (hmask : mask.toNat = 2 ^ s - 1) : (v &&& mask).toNat < 2 ^ s := by
  rw [BitVec.toNat_and, hmask, Nat.and_two_pow_sub_one_eq_mod]
  exact Nat.mod_lt _ (Nat.two_pow_pos s)

lemma charsLoop_mem (hmask : mask.toNat = 2 ^ s - 1) (halphabet : alphabet.length = 2 ^ s) {a : UInt8}
    (ha : a ∈ (charsLoop alphabet mask shift n v).1) : a ∈ alphabet := by
  induction n generalizing v with
  | zero => cases ha
  | succ n ih =>
    unfold charsLoop at ha
    rcases List.mem_cons.mp ha with rfl | ha
    · exact charAt_mem (halphabet ▸ masked_lt hmask)
    · exact ih ha

/-- The loop that is stopped early writes less of the same. -/
lemma charsLoop_take (h : ps ≤ n) :
    (charsLoop alphabet mask shift ps v).1 = (charsLoop alphabet mask shift n v).1.take ps := by
  induction n generalizing ps v with
  | zero =>
    obtain rfl := Nat.le_zero.mp h
    rfl
  | succ n ih =>
    cases ps with
    | zero => rfl
    | succ ps =>
      unfold charsLoop
      rw [List.take_succ_cons, ← ih (Nat.le_of_succ_le_succ h)]

lemma lastBlob_mem {blob : ℕ} (hmask : mask.toNat = 2 ^ s - 1) (halphabet : alphabet.length = 2 ^ s)
    {a : UInt8} (ha : a ∈ lastBlob alphabet bits shift blob c mask v) : a ∈ alphabet ++ [PAD] := by
  unfold lastBlob at ha
  rw [List.append_assoc] at ha
  rcases List.mem_append.mp ha with ha | ha
  · exact List.mem_append_left _ (charsLoop_mem hmask halphabet ha)
  rcases List.mem_append.mp ha with ha | ha
  · rw [List.mem_singleton.mp ha]
    refine List.mem_append_left _ (charAt_mem ?_)
    rw [BitVec.toNat_and, halphabet]
    exact Nat.and_le_left.trans_lt (masked_lt hmask)
  · rw [List.eq_of_mem_replicate ha]
    exact List.mem_append_right _ (List.mem_singleton_self PAD)

/-! ### Base 16 -/

def base16Blob (v : BitVec 64) : List UInt8 := (charsLoop base16Alphabet 15 4 16 v).1

lemma length_base16Blob (v : BitVec 64) : (base16Blob v).length = 16 := length_charsLoop

lemma base16Loop_eq_fill (ps : ℕ) (pool : List (BitVec 64)) :
    base16Loop ps pool = fill (fun _ => base16Blob) ps pool := by
  induction pool generalizing ps with
  | nil =>
    cases ps with
    | zero => rfl
    | succ ps => rfl
  | cons v pool ih =>
    rcases eq_or_ne ps 0 with rfl | hps
    · rw [fill_zero]
      rfl
    · rw [base16Loop, fill_cons hps, length_base16Blob]
      split_ifs with hwhole
      · rw [ih, List.take_of_length_le ((length_base16Blob v).trans_le hwhole)]
        rfl
      · have hlast : ps - 16 = 0 := by omega
        rw [hlast, fill_zero, charsLoop_take (show ps ≤ 16 by omega)]
        simp [base16Blob]

/-- **Base 16** fills. -/
lemma fills_base16 (total : ℕ) : Fills base16Alphabet (fun _ => true) total base16Loop := by
  have hfill : Fills base16Alphabet (fun _ => true) total (fill fun _ => base16Blob) := by
    refine fills_fill total (fun _ _ _ ha => charsLoop_mem (s := 4) rfl rfl ha) fun _ v _ => ?_
    refine List.ne_nil_of_length_pos ?_
    rw [length_base16Blob]
    exact Nat.succ_pos 15
  exact hfill.congr fun ps _ pool => base16Loop_eq_fill ps pool

/-! ### Base 32 and base 64 -/

/-- The `k`th blob of a text for `c` bytes. -/
def blobAt (blob : BitVec w → List UInt8) (last : ℕ → BitVec w → List UInt8) (bytes c k : ℕ)
    (v : BitVec w) : List UInt8 :=
  if bytes ≤ c - bytes * k then blob v else last (c - bytes * k) v

variable {blob : BitVec w → List UInt8} {last : ℕ → BitVec w → List UInt8} {bytes size : ℕ}

lemma blobAt_succ (k : ℕ) : blobAt blob last bytes c (k + 1) = blobAt blob last bytes (c - bytes) k := by
  have hleft : c - bytes * (k + 1) = c - bytes - bytes * k := by
    rw [Nat.mul_succ]
    omega
  funext v
  unfold blobAt
  rw [hleft]

lemma blobLoop_eq_fill (hpos : 0 < bytes) (hblob : ∀ v, (blob v).length = size)
    (hlast : ∀ c < bytes, ∀ v, (last c v).length = size) (pool : List (BitVec w))
    (hps : ps ≤ (c + bytes - 1) / bytes * size) :
    blobLoop blob last bytes c ps pool = fill (blobAt blob last bytes c) ps pool := by
  induction pool generalizing c ps with
  | nil =>
    cases ps with
    | zero => exact if_pos (Or.inr rfl)
    | succ ps =>
      have hc : c ≠ 0 := by
        rintro rfl
        rw [Nat.div_eq_of_lt (by omega), Nat.zero_mul] at hps
        omega
      exact if_neg (not_or.mpr ⟨hc, Nat.succ_ne_zero ps⟩)
  | cons v pool ih =>
    rcases eq_or_ne ps 0 with rfl | hne
    · rw [fill_zero, blobLoop, if_neg (fun h => h.2 rfl), if_neg (fun h => h.2 rfl)]
    · have hc : c ≠ 0 := by
        rintro rfl
        rw [Nat.div_eq_of_lt (by omega), Nat.zero_mul] at hps
        omega
      rw [blobLoop, fill_cons hne]
      simp only [blobAt_succ]
      have hzero : blobAt blob last bytes c 0 v = if bytes ≤ c then blob v else last c v := by
        unfold blobAt
        rw [Nat.mul_zero, Nat.sub_zero]
      rw [hzero]
      rcases le_or_gt bytes c with hge | hlt
      · have hdiv : (c + bytes - 1) / bytes = (c - bytes + bytes - 1) / bytes + 1 := by
          rw [← Nat.add_div_right _ hpos]
          congr 1
          omega
        rw [hdiv, Nat.succ_mul] at hps
        have hlen : ps - ((blob v).take ps).length = ps - (blob v).length := by
          rw [List.length_take]
          omega
        rw [if_pos ⟨hge, hne⟩, if_pos hge, hlen, hblob, ih (by omega)]
      · have hone : (c + bytes - 1) / bytes = 1 := Nat.div_eq_of_lt_le (by omega) (by omega)
        rw [hone, Nat.one_mul] at hps
        have hnothing : ps - size = 0 := Nat.sub_eq_zero_of_le hps
        rw [if_neg (fun h => Nat.not_le.mpr hlt h.1), if_pos ⟨hc, hne⟩, if_neg (Nat.not_le.mpr hlt),
          hlast c hlt, hnothing, fill_zero, Option.map_some, List.append_nil]

/-- **Blobs** fill. -/
lemma fills_blobs {chars : List UInt8} (hpos : 0 < bytes) (hsize : 0 < size)
    (hblob : ∀ v, (blob v).length = size) (hlast : ∀ c < bytes, ∀ v, (last c v).length = size)
    (hblobmem : ∀ v, ∀ a ∈ blob v, a ∈ chars) (hlastmem : ∀ c v, ∀ a ∈ last c v, a ∈ chars) (c : ℕ) :
    Fills chars (fun _ => true) ((c + bytes - 1) / bytes * size) (blobLoop blob last bytes c) := by
  have hfill : Fills chars (fun _ => true) ((c + bytes - 1) / bytes * size)
      (fill (blobAt blob last bytes c)) := by
    refine fills_fill _ (fun k v a ha => ?_) fun k v _ => ?_
    · unfold blobAt at ha
      split_ifs at ha
      · exact hblobmem v a ha
      · exact hlastmem _ v a ha
    · refine List.ne_nil_of_length_pos ?_
      unfold blobAt
      split_ifs with hge
      · rwa [hblob]
      · rwa [hlast _ (Nat.not_le.mp hge)]
  exact hfill.congr fun ps hps pool => blobLoop_eq_fill hpos hblob hlast pool hps

lemma fills_base32 (c : ℕ) : Fills (base32Alphabet ++ [PAD]) (fun _ => true) ((c + 4) / 5 * 8)
    (blobLoop base32Blob base32LastBlob 5 c) := by
  have hlast : ∀ c < 5, ∀ v, (base32LastBlob c v).length = 8 :=
    fun c hc v => length_lastBlob (by omega)
  have hblobmem : ∀ v, ∀ a ∈ base32Blob v, a ∈ base32Alphabet ++ [PAD] := by
    intro v a ha
    obtain ⟨k, -, rfl⟩ := List.mem_map.mp ha
    exact List.mem_append_left _ (charAt_mem (masked_lt (s := 5) rfl))
  have hlastmem : ∀ c v, ∀ a ∈ base32LastBlob c v, a ∈ base32Alphabet ++ [PAD] :=
    fun c v a ha => lastBlob_mem (s := 5) rfl rfl ha
  exact fills_blobs (Nat.succ_pos _) (Nat.succ_pos _) (fun _ => rfl) hlast hblobmem hlastmem c

lemma fills_base64 (c : ℕ) : Fills (base64Alphabet ++ [PAD]) (fun _ => true) ((c + 2) / 3 * 4)
    (blobLoop base64Blob base64LastBlob 3 c) := by
  have hlast : ∀ c < 3, ∀ v, (base64LastBlob c v).length = 4 :=
    fun c hc v => length_lastBlob (by omega)
  have hblobmem : ∀ v, ∀ a ∈ base64Blob v, a ∈ base64Alphabet ++ [PAD] := by
    intro v a ha
    obtain ⟨k, -, rfl⟩ := List.mem_map.mp ha
    exact List.mem_append_left _ (charAt_mem (masked_lt (s := 6) rfl))
  have hlastmem : ∀ c v, ∀ a ∈ base64LastBlob c v, a ∈ base64Alphabet ++ [PAD] :=
    fun c v a ha => lastBlob_mem (s := 6) rfl rfl ha
  exact fills_blobs (Nat.succ_pos _) (Nat.succ_pos _) (fun _ => rfl) hlast hblobmem hlastmem c

/-! ### Strings of an alphabet -/

def Outcome.toOption {α : Type} : Outcome α → Option (α × List (Mem UInt8))
  | .value val pool => some (val, pool)
  | .starved => none
  | .abort => none

/-- The number that a raw draw gives, if it is not rejected. -/
def accepted (maximum : BitVec 64) (raw : Mem UInt8) : Option (BitVec 64) :=
  accept maximum (raw.load 0 ((maximum.toNat.size + 7) / 8))

/-- The largest index of a string. -/
def lastIndex (alphabet : CString) : BitVec 64 := BitVec.ofNat 64 (alphabet.strlen - 1)

def stringBlob (alphabet : CString) (raw : Mem UInt8) : List UInt8 :=
  ((accepted (lastIndex alphabet) raw).map fun x => alphabet.mem x.toNat).toList

variable {string : CString} {raw : Mem UInt8} {pool : List (Mem UInt8)}

lemma mem_text (hne : string.strlen ≠ 0) {x : BitVec 64} (hx : x ≤ lastIndex string) :
    string.mem x.toNat ∈ string.text := by
  have hlt : x.toNat < string.strlen := by
    have hle := (BitVec.le_def.mp hx).trans (Nat.mod_le (string.strlen - 1) (2 ^ 64))
    omega
  exact Mem.mem_load.mpr ⟨x.toNat, hlt, by rw [Nat.zero_add]⟩

lemma stringLoop_succ : stringLoop string (ps + 1) pool =
    match poolRandSizeMaximum (lastIndex string) pool with
    | .value r pool => (stringLoop string ps pool).map (string.mem r.toNat :: ·)
    | .starved => .starved
    | .abort => .abort := rfl

/-- One raw draw after the other is looked at. -/
lemma draws_index (hn : ((lastIndex string).toNat.size + 7) / 8 ≠ 0) :
    poolRandSizeMaximum (lastIndex string) [] = .starved ∧
      (∀ raw pool x, accepted (lastIndex string) raw = some x →
        poolRandSizeMaximum (lastIndex string) (raw :: pool) = .value x pool) ∧
      ∀ raw pool, accepted (lastIndex string) raw = none →
        poolRandSizeMaximum (lastIndex string) (raw :: pool) =
          poolRandSizeMaximum (lastIndex string) pool := by
  have hdraws := draws_poolRandMaximum 8 rfl le_rfl (lastIndex string)
  unfold Draws at hdraws
  rw [if_neg hn] at hdraws
  refine ⟨hdraws.1, fun raw pool x hx => ?_, fun raw pool hnone => ?_⟩
  · have hcons := hdraws.2 raw pool
    unfold accepted at hx
    rw [hx] at hcons
    exact hcons
  · have hcons := hdraws.2 raw pool
    unfold accepted at hnone
    rw [hnone] at hcons
    exact hcons

lemma toOption_map {α β : Type} (f : α → β) (o : Outcome α) :
    (o.map f).toOption = o.toOption.map fun r => (f r.1, r.2) := by
  cases o <;> rfl

lemma stringLoop_eq_fill (hn : ((lastIndex string).toNat.size + 7) / 8 ≠ 0) (ps : ℕ)
    (pool : List (Mem UInt8)) :
    (stringLoop string ps pool).toOption = fill (fun _ => stringBlob string) ps pool := by
  obtain ⟨hnil, hsome, hnone⟩ := draws_index hn
  induction pool generalizing ps with
  | nil =>
    cases ps with
    | zero => rfl
    | succ ps =>
      rw [stringLoop_succ, hnil]
      rfl
  | cons raw pool ih =>
    cases ps with
    | zero => rfl
    | succ ps =>
      rw [stringLoop_succ, fill_cons (Nat.succ_ne_zero ps)]
      cases haccepted : accepted (lastIndex string) raw with
      | none =>
        have hblob : stringBlob string raw = [] := by
          unfold stringBlob
          rw [haccepted]
          rfl
        rw [hnone raw pool haccepted, ← stringLoop_succ, ih, hblob]
        simp
      | some x =>
        have hblob : stringBlob string raw = [string.mem x.toNat] := by
          unfold stringBlob
          rw [haccepted]
          rfl
        rw [hsome raw pool x haccepted, hblob]
        dsimp only
        rw [toOption_map, ih]
        simp

/-- Nothing is drawn for an alphabet of one character. -/
lemma stringLoop_of_value {x : BitVec 64}
    (hvalue : ∀ pool, poolRandSizeMaximum (lastIndex string) pool = .value x pool) (ps : ℕ)
    (pool : List (Mem UInt8)) :
    (stringLoop string ps pool).toOption = some (List.replicate ps (string.mem x.toNat), pool) := by
  induction ps with
  | zero => rfl
  | succ ps ih =>
    rw [stringLoop_succ, hvalue]
    dsimp only
    rw [toOption_map, ih]
    rfl

/-- **Characters of an alphabet** fill. -/
lemma fills_string (hne : string.strlen ≠ 0) (total : ℕ) :
    Fills string.text (fun raw => (accepted (lastIndex string) raw).isSome) total
      fun ps pool => (stringLoop string ps pool).toOption := by
  by_cases hn : ((lastIndex string).toNat.size + 7) / 8 = 0
  · have hdraws := draws_poolRandMaximum 8 rfl le_rfl (lastIndex string)
    unfold Draws at hdraws
    rw [if_pos hn] at hdraws
    obtain ⟨x, hx, hvalue⟩ := hdraws
    have hmem := mem_text hne (accept_eq_some.mp hx).2
    exact (fills_replicate _ total hmem).congr fun ps _ pool => stringLoop_of_value hvalue ps pool
  · have hfill : Fills string.text (fun raw => (accepted (lastIndex string) raw).isSome) total
        (fill fun _ => stringBlob string) := by
      refine fills_fill total (fun _ raw a ha => ?_) fun _ raw hraw => ?_
      · unfold stringBlob at ha
        obtain ⟨x, hx, rfl⟩ := Option.map_eq_some_iff.mp (Option.mem_toList.mp ha)
        exact mem_text hne (accept_eq_some.mp hx).2
      · obtain ⟨x, hx⟩ := Option.isSome_iff_exists.mp hraw
        unfold stringBlob
        rw [hx]
        exact List.cons_ne_nil _ _
    exact hfill.congr fun ps _ pool => stringLoop_eq_fill hn ps pool

end Futils.Random
