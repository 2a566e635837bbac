import Futils.Lib.Bits
import Mathlib.Data.List.Basic

/-!
# Texts in base 16, 32 or 64

A character of a text in base `2 ^ s` stands for `s` bits, by its place in an alphabet; what comes
from the first padding character on stands for nothing, and neither do the bits at the end that do
not make up a byte.
-/

namespace Futils.Lib

/-- The bits of the digits `ds`. -/
def digitBits (s : ℕ) (ds : List ℕ) : List Bool := ds.flatMap (bitsOf s)

/-- The digit that a character stands for. -/
def digitOf (alphabet : List UInt8) (c : UInt8) : Option ℕ :=
  if c ∈ alphabet then some (alphabet.idxOf c) else none

/-- The bytes that a text stands for. -/
def decodeText (alphabet : List UInt8) (pad : UInt8) (s : ℕ) (text : List UInt8) :
    Option (List UInt8) :=
  ((text.takeWhile fun c => c ≠ pad).mapM (digitOf alphabet)).map fun ds =>
    bytesOf ((digitBits s ds).length / 8) (digitBits s ds)

/-- The text stands for `n` bytes with the bits `bs`. -/
def Encodes (alphabet : List UInt8) (pad : UInt8) (s : ℕ) (text : List UInt8) (n : ℕ)
    (bs : List Bool) : Prop :=
  ∃ ds k, text = ds.map (fun d => alphabet.getD d 0) ++ List.replicate k pad ∧
    (∀ d ∈ ds, d < alphabet.length) ∧ (digitBits s ds).length / 8 = n ∧
    (digitBits s ds).take (8 * n) = bs

/-- The first `n` digits of a bit string. -/
def digitsOf (s : ℕ) : ℕ → List Bool → List ℕ
  | 0, _ => []
  | n + 1, bs => ofBits (bs.take s) :: digitsOf s n (bs.drop s)

/-- The text of a byte string: its bits, filled up with zeros to whole digits, and as many padding characters
as fill up a group of `chars` characters. -/
def encodeText (alphabet : List UInt8) (pad : UInt8) (s chars : ℕ) (bytes : List UInt8) : List UInt8 :=
  let digits := (8 * bytes.length + (s - 1)) / s
  let bits := bitsOfBytes bytes ++ List.replicate (s * digits - 8 * bytes.length) false
  (digitsOf s digits bits).map (fun d => alphabet.getD d 0) ++
    List.replicate ((chars - digits % chars) % chars) pad

/-- The text is the one of `n` bytes with the bits `bs`: no digit is superfluous, the bits of the last one that
stand for nothing are zero, and the padding is what the last group lacks. -/
def Canonical (alphabet : List UInt8) (pad : UInt8) (s chars : ℕ) (text : List UInt8) (n : ℕ)
    (bs : List Bool) : Prop :=
  ∃ ds free k, text = ds.map (fun d => alphabet.getD d 0) ++ List.replicate k pad ∧
    (∀ d ∈ ds, d < alphabet.length) ∧ digitBits s ds = bs ++ List.replicate free false ∧
    bs.length = 8 * n ∧ free < s ∧ k < chars ∧ chars ∣ ds.length + k

variable {alphabet : List UInt8} {pad : UInt8} {s n chars : ℕ} {text : List UInt8} {bs : List Bool}
  {ds : List ℕ}

lemma digitBits_cons {d : ℕ} : digitBits s (d :: ds) = bitsOf s d ++ digitBits s ds := rfl

lemma digitBits_singleton {d : ℕ} : digitBits s [d] = bitsOf s d := by
  rw [digitBits_cons]
  exact List.append_nil _

lemma digitBits_append {ds' : List ℕ} :
    digitBits s (ds ++ ds') = digitBits s ds ++ digitBits s ds' :=
  List.flatMap_append

@[simp] lemma length_digitBits : (digitBits s ds).length = s * ds.length := by
  induction ds with
  | nil => rfl
  | cons d ds ih =>
    rw [digitBits_cons, List.length_append, length_bitsOf, ih, List.length_cons, Nat.mul_succ,
      Nat.add_comm]

lemma mapM_digitOf (hnodup : alphabet.Nodup) (hds : ∀ d ∈ ds, d < alphabet.length) :
    (ds.map fun d => alphabet.getD d 0).mapM (digitOf alphabet) = some ds := by
  induction ds with
  | nil => rfl
  | cons d ds ih =>
    have hd : d < alphabet.length := hds d List.mem_cons_self
    have hdigit : digitOf alphabet (alphabet.getD d 0) = some d := by
      rw [List.getD_eq_getElem _ _ hd, digitOf, if_pos (List.getElem_mem hd),
        hnodup.idxOf_getElem d hd]
    rw [List.map_cons, List.mapM_cons, hdigit, ih fun x hx => hds x (List.mem_cons_of_mem _ hx)]
    rfl

/-- **Decoding** gives the bytes that the text stands for. -/
theorem decodeText_of_encodes (hnodup : alphabet.Nodup) (hpad : pad ∉ alphabet)
    (h : Encodes alphabet pad s text n bs) : decodeText alphabet pad s text = some (bytesOf n bs) := by
  obtain ⟨ds, k, rfl, hds, hlen, rfl⟩ := h
  have hbody : ((ds.map fun d => alphabet.getD d 0) ++ List.replicate k pad).takeWhile
      (fun c => c ≠ pad) = ds.map fun d => alphabet.getD d 0 := by
    rw [List.takeWhile_append_of_pos]
    · cases k with
      | zero => simp
      | succ k => simp [List.replicate_succ]
    · intro c hc
      obtain ⟨d, hd, rfl⟩ := List.mem_map.mp hc
      rw [List.getD_eq_getElem _ _ (hds d hd), decide_eq_true_eq]
      rintro hc
      exact hpad (hc ▸ List.getElem_mem (hds d hd))
  rw [decodeText, hbody, mapM_digitOf hnodup hds, Option.map_some, hlen, bytesOf_take]

/-! ### Canonical texts -/

/-- The digits are those of their bits. -/
lemma digitsOf_digitBits (hds : ∀ d ∈ ds, d < 2 ^ s) : digitsOf s ds.length (digitBits s ds) = ds := by
  induction ds with
  | nil => rfl
  | cons d ds ih =>
    have hd : d < 2 ^ s := hds d List.mem_cons_self
    rw [List.length_cons, digitsOf, digitBits_cons, List.take_left' length_bitsOf,
      List.drop_left' length_bitsOf, ofBits_bitsOf, Nat.mod_eq_of_lt hd,
      ih fun x hx => hds x (List.mem_cons_of_mem _ hx)]

/-- What `n` characters lack to whole groups. -/
lemma padding_eq {k : ℕ} (hk : k < chars) (h : chars ∣ n + k) : (chars - n % chars) % chars = k := by
  have hlt : n % chars < chars := Nat.mod_lt _ (Nat.zero_lt_of_lt hk)
  have hmod : (n % chars + k) % chars = 0 := by
    rw [Nat.mod_add_mod]
    exact Nat.mod_eq_zero_of_dvd h
  rcases lt_or_ge (n % chars + k) chars with hsmall | hlarge
  · rw [Nat.mod_eq_of_lt hsmall] at hmod
    have hk0 : k = 0 := by omega
    have hn0 : n % chars = 0 := by omega
    rw [hk0, hn0, Nat.sub_zero, Nat.mod_self]
  · rw [Nat.mod_eq_sub_mod hlarge, Nat.mod_eq_of_lt (by omega)] at hmod
    rw [show chars - n % chars = k by omega, Nat.mod_eq_of_lt hk]

/-- Such a text stands for its bytes. -/
lemma Canonical.encodes (hs : s ≤ 8) (h : Canonical alphabet pad s chars text n bs) :
    Encodes alphabet pad s text n bs := by
  obtain ⟨ds, free, k, htext, hds, hbits, hlen, hfree, -, -⟩ := h
  refine ⟨ds, k, htext, hds, ?_, ?_⟩
  · rw [hbits, List.length_append, List.length_replicate, hlen]
    omega
  · rw [hbits, List.take_left' hlen]

/-- **The canonical text** of bytes is the only one. -/
theorem Canonical.eq_encodeText (halphabet : alphabet.length = 2 ^ s)
    (h : Canonical alphabet pad s chars text n bs) :
    text = encodeText alphabet pad s chars (bytesOf n bs) := by
  obtain ⟨ds, free, k, rfl, hds, hbits, hlen, hfree, hk, hdvd⟩ := h
  have hbytes : bitsOfBytes (bytesOf n bs) = bs := by
    rw [bitsOfBytes_bytesOf hlen.ge, ← hlen, List.take_length]
  have hcount : s * ds.length = 8 * n + free := by
    rw [← length_digitBits, hbits, List.length_append, hlen, List.length_replicate]
  have hdigits : (8 * n + (s - 1)) / s = ds.length := by
    rw [Nat.mul_comm] at hcount
    refine Nat.div_eq_of_lt_le ?_ ?_
    · omega
    · rw [Nat.add_one_mul ds.length]
      omega
  have hpad : (chars - ds.length % chars) % chars = k := padding_eq hk hdvd
  unfold encodeText
  dsimp only
  rw [length_bytesOf, hdigits, hbytes, hpad, hcount, Nat.add_sub_cancel_left, ← hbits,
    digitsOf_digitBits fun d hd => halphabet ▸ hds d hd]

lemma Canonical.nil (hs : 0 < s) (hchars : 0 < chars) : Canonical alphabet pad s chars [] 0 [] :=
  ⟨[], 0, 0, rfl, by simp, by simp [digitBits], rfl, hs, hchars, by simp⟩

/-- Whole groups are put in front of a text. -/
lemma Canonical.append {k : ℕ} (h : Canonical alphabet pad s chars text n bs)
    (hds : ∀ d ∈ ds, d < alphabet.length) (hlen : s * ds.length = 8 * k) (hgroups : chars ∣ ds.length) :
    Canonical alphabet pad s chars ((ds.map fun d => alphabet.getD d 0) ++ text) (k + n)
      (digitBits s ds ++ bs) := by
  obtain ⟨ds', free, j, rfl, hds', hbits, hlen', hfree, hj, hdvd⟩ := h
  refine ⟨ds ++ ds', free, j, by rw [List.map_append, List.append_assoc], ?_, ?_, ?_, hfree, hj, ?_⟩
  · intro d hd
    rcases List.mem_append.mp hd with hd | hd
    · exact hds d hd
    · exact hds' d hd
  · rw [digitBits_append, hbits, List.append_assoc]
  · rw [List.length_append, length_digitBits, hlen, hlen', Nat.mul_add]
  · rw [List.length_append, Nat.add_assoc]
    exact Nat.dvd_add hgroups hdvd

end Futils.Lib
