import Futils.Random.Snprintf
import Futils.Random.Text

/-!
# Which random texts are uniform

Seen as functions of their draws, the texts of all three encoders stand for `count` bytes, and the bytes
are uniform but for those of base 64 when the last blob is for two bytes.
-/

namespace Futils.Random

open Futils.Lib

inductive Encoder
  | base16
  | base32
  | base64
  deriving DecidableEq

/-- The width of the numbers that the encoder draws. -/
def Encoder.width : Encoder → ℕ
  | base16 => 64
  | base32 => 64
  | base64 => 32

def Encoder.format : Encoder → Format
  | base16 => ⟨4, 4, 16, 8, rfl, by decide⟩
  | base32 => ⟨5, 5, 8, 5, rfl, by decide⟩
  | base64 => ⟨6, 3, 4, 3, rfl, by decide⟩

def Encoder.alphabet : Encoder → List UInt8
  | base16 => base16Alphabet
  | base32 => base32Alphabet
  | base64 => base64Alphabet

def Encoder.random : (e : Encoder) → List (BitVec e.width) → Mem UInt8 → ℕ → ℕ →
    Option (ℤ × Mem UInt8 × List (BitVec e.width))
  | base16 => futilsRandomBase16
  | base32 => futilsRandomBase32
  | base64 => futilsRandomBase64

/-- The length of the whole text. -/
def Encoder.total : Encoder → ℕ → ℕ
  | base16, count => count * 2
  | base32, count => (count + 4) / 5 * 8
  | base64, count => (count + 2) / 3 * 4

/-- The number of characters in a group of whole bytes. -/
def Encoder.group : Encoder → ℕ
  | base16 => 2
  | base32 => 8
  | base64 => 4

/-- The bytes that the string in the buffer stands for, if the encoder takes just the draws. -/
def Encoder.bytes (e : Encoder) (buffer : Mem UInt8) (len count : ℕ) (draws : List (BitVec e.width)) :
    Option (List UInt8) :=
  match e.random draws buffer len count with
  | some (ret, buffer, []) =>
    if buffer ret.toNat = 0 then decodeText e.alphabet PAD e.format.bits (buffer.load 0 ret.toNat)
    else none
  | _ => none

variable {e : Encoder} {buffer : Mem UInt8} {len count : ℕ}

/-! ### The texts -/

/-- Two characters for each byte leave nothing to cut. -/
lemma base16_lastBits (c v : ℕ) :
    Encoder.base16.format.lastBits c v = digitBits 4 (digits 4 4 (c * 2) v) := by
  have hlen : (digitBits 4 (digits 4 4 (c * 2) v)).length = 8 * c := by
    rw [length_digitBits, length_digits]
    omega
  have hwhole : c * 8 / 4 = c * 2 := by omega
  unfold Format.lastBits
  change (digitBits 4 (digits 4 4 (c * 8 / 4 + 1) v)).take (8 * c) = _
  rw [hwhole, digits_succ_last, digitBits_append, List.take_left' hlen]

lemma base16Loop_canonical {draws : List (BitVec 64)}
    (h : draws.length = Encoder.base16.format.draws count) :
    ∃ text, base16Loop (count * 2) draws = some (text, []) ∧
      Canonical base16Alphabet PAD 4 2 text count (Encoder.base16.format.bitsOf count draws) ∧
      text.length = count * 2 := by
  have hdigits : ∀ n (v : BitVec 64), (charsLoop base16Alphabet 15 4 n v).1 =
      charsFor base16Alphabet (digits 4 4 n v.toNat) := fun n v => charsLoop_fst rfl
  have hlt : ∀ n (v : BitVec 64), ∀ d ∈ digits 4 4 n v.toNat, d < base16Alphabet.length :=
    fun n v d hd => digits_lt hd
  refine Format.draws_induction
    (motive := fun count draws => ∃ text, base16Loop (count * 2) draws = some (text, []) ∧
      Canonical base16Alphabet PAD 4 2 text count (Encoder.base16.format.bitsOf count draws) ∧
      text.length = count * 2) ?_ ?_ ?_ h
  · exact ⟨[], rfl, .nil (by decide) (by decide), rfl⟩
  · intro c v hpos hc
    change c < 8 at hc
    refine ⟨charsFor base16Alphabet (digits 4 4 (c * 2) v.toNat), ?_, ?_, ?_⟩
    · rw [base16Loop, if_neg (by omega), if_pos (by omega), hdigits]
    · rw [Format.bitsOf_lt hc, base16_lastBits]
      have hlen : (digitBits 4 (digits 4 4 (c * 2) v.toNat)).length = 8 * c := by
        rw [length_digitBits, length_digits]
        omega
      refine ⟨_, 0, 0, (List.append_nil _).symm, hlt _ v, (List.append_nil _).symm, hlen, by decide,
        by decide, ?_⟩
      rw [length_digits]
      exact Nat.dvd_mul_left 2 c
    · rw [charsFor, List.length_map, length_digits]
  · rintro c v draws hge - ⟨text, hloop, henc, hlen⟩
    change 8 ≤ c at hge
    refine ⟨charsFor base16Alphabet (digits 4 4 16 v.toNat) ++ text, ?_, ?_, ?_⟩
    · rw [base16Loop, if_pos (by omega), hdigits, show c * 2 - 16 = (c - 8) * 2 by omega]
      change Option.map _ (base16Loop ((c - Encoder.base16.format.bytes) * 2) draws) = _
      rw [hloop, Option.map_some]
    · have happend := henc.append (k := 8) (hlt 16 v) rfl (by simp)
      rw [Format.bitsOf_ge hge]
      rwa [show 8 + (c - Encoder.base16.format.bytes) = c from Nat.add_sub_of_le hge] at happend
    · rw [List.length_append, hlen, charsFor, List.length_map, length_digits]
      change 16 + (c - 8) * 2 = c * 2
      omega

/-- What the two encoders with blobs have in common. -/
lemma blobs_canonical {w : ℕ} {alphabet : List UInt8} {mask : BitVec w} (p : Format)
    {blob : BitVec w → List UInt8} (hmask : mask.toNat = 2 ^ p.bits - 1)
    (halphabet : alphabet.length = 2 ^ p.bits) (hbits : p.bits < 8) (hw : 8 ≤ w)
    (hrem : ∀ c < p.bytes, 0 < c → c * 8 % p.bits ≠ 0)
    (hblob : ∀ v, blob v = charsFor alphabet (digits p.bits p.bits p.chars v.toNat))
    {draws : List (BitVec w)} (h : draws.length = p.draws count) :
    ∃ text, blobLoop blob (fun c v => lastBlob alphabet p.bits p.shift p.chars c mask v) p.bytes count
        (p.draws count * p.chars) draws = some (text, []) ∧
      Canonical alphabet PAD p.bits p.chars text count (p.bitsOf count draws) ∧
      text.length = p.draws count * p.chars := by
  refine blobLoop_canonical halphabet hblob (fun c v hpos hc => ⟨?_, ?_⟩) h
  · exact lastBlob_canonical hmask halphabet hbits hw hc (hrem c hc hpos)
  · exact length_lastBlob (p.last_le hc)

/-- A text with its terminating zero is read back from the buffer. -/
lemma load_text (buffer : Mem UInt8) (text : List UInt8) :
    (buffer.store 0 (text ++ [0])) text.length = 0 ∧
      (buffer.store 0 (text ++ [0])).load 0 text.length = text := by
  constructor
  · rw [Mem.store_apply _ _ (Nat.zero_le _) (by simp)]
    simp
  · have hload := Mem.load_store buffer 0 (text ++ [0])
    rw [List.length_append, List.length_singleton] at hload
    have htake := Mem.take_load (buffer.store 0 (text ++ [0])) 0 (text.length + 1) text.length
    rw [hload, min_eq_left (Nat.le_succ _), List.take_left' rfl] at htake
    exact htake.symm

lemma Encoder.alphabet_nodup (e : Encoder) : e.alphabet.Nodup ∧ PAD ∉ e.alphabet := by
  cases e <;> decide +kernel

/-- The encoder writes the whole text, takes all the draws and returns the length. -/
lemma Encoder.random_eq (buffer : Mem UInt8) (haccept : e.total count ≤ INT_MAX)
    (hlen : e.total count < len) {draws : List (BitVec e.width)}
    (h : draws.length = e.format.draws count) :
    ∃ text, e.random draws buffer len count =
        some (((e.total count : ℕ) : ℤ), buffer.store 0 (text ++ [0]), []) ∧
      Canonical e.alphabet PAD e.format.bits e.group text count (e.format.bitsOf count draws) ∧
      text.length = e.total count := by
  cases e with
  | base16 =>
    obtain ⟨text, hloop, henc, htext⟩ := base16Loop_canonical h
    exact ⟨text, (futilsRandomBase16_eq draws buffer len count).trans
      (snprintfText_whole haccept hlen hloop), henc, htext⟩
  | base32 =>
    have hmask : (31 : BitVec 64).toNat = 2 ^ 5 - 1 := rfl
    have hblob : ∀ v, base32Blob v = charsFor base32Alphabet (digits 5 5 8 v.toNat) := fun v =>
      map_charAt hmask rfl
    obtain ⟨text, hloop, henc, htext⟩ := blobs_canonical Encoder.base32.format hmask
      (show base32Alphabet.length = 2 ^ 5 from rfl) (by decide) (by decide) (by decide) hblob h
    exact ⟨text, (futilsRandomBase32_eq draws buffer len count).trans
      (snprintfText_whole haccept hlen hloop), henc, htext⟩
  | base64 =>
    have hmask : (63 : BitVec 32).toNat = 2 ^ 6 - 1 := rfl
    have hblob : ∀ v, base64Blob v = charsFor base64Alphabet (digits 6 6 4 v.toNat) := fun v =>
      map_charAt hmask rfl
    obtain ⟨text, hloop, henc, htext⟩ := blobs_canonical Encoder.base64.format hmask
      (show base64Alphabet.length = 2 ^ 6 from rfl) (by decide) (by decide) (by decide) hblob h
    exact ⟨text, (futilsRandomBase64_eq draws buffer len count).trans
      (snprintfText_whole haccept hlen hloop), henc, htext⟩

lemma Encoder.format_bits_le (e : Encoder) : e.format.bits ≤ 8 := by
  cases e <;> decide

/-- **The text in the buffer** stands for the bits of the draws. -/
lemma Encoder.bytes_eq (haccept : e.total count ≤ INT_MAX) (hlen : e.total count < len)
    {draws : List (BitVec e.width)} (h : draws.length = e.format.draws count) :
    e.bytes buffer len count draws = some (bytesOf count (e.format.bitsOf count draws)) := by
  obtain ⟨text, hrandom, henc, htext⟩ := random_eq buffer haccept hlen h
  obtain ⟨hzero, hload⟩ := load_text buffer text
  obtain ⟨hnodup, hpad⟩ := e.alphabet_nodup
  rw [htext] at hzero hload
  unfold bytes
  rw [hrandom]
  simp only [Int.toNat_natCast, hzero, hload, if_true]
  exact decodeText_of_encodes hnodup hpad (henc.encodes e.format_bits_le)

/-! ### Uniformity -/

/-- Any draws, as many as the text takes, give `count` bytes, and all bytes come from equally many. -/
structure Encoder.UniformBytes (e : Encoder) (buffer : Mem UInt8) (len count : ℕ) : Prop where
  decodes : ∀ draws, draws.length = e.format.draws count →
    ∃ bytes, e.bytes buffer len count draws = some bytes ∧ bytes.length = count
  uniform : Uniform
    (fun draws : List.Vector (BitVec e.width) (e.format.draws count) =>
      e.bytes buffer len count draws.1)
    {b | ∃ bytes, bytes.length = count ∧ b = some bytes}

lemma Encoder.bytes_le_width (e : Encoder) : 8 * e.format.bytes ≤ e.width := by
  cases e <;> decide

/-- The bytes determine the bits. -/
lemma Format.bitsOf_of_bytes {w : ℕ} {p : Format} {draws : List (BitVec w)}
    (h : draws.length = p.draws count) :
    bitsOfBytes (bytesOf count (p.bitsOf count draws)) = p.bitsOf count draws := by
  rw [bitsOfBytes_bytesOf (length_bitsOf h).ge, ← length_bitsOf h, List.take_length]

/-- **The bytes are uniform** exactly when the last blob is full. -/
theorem Encoder.uniformBytes_iff_full (haccept : e.total count ≤ INT_MAX)
    (hlen : e.total count < len) :
    e.UniformBytes buffer len count ↔ e.format.Full e.width (count % e.format.bytes) := by
  have heq : ∀ draws : List.Vector (BitVec e.width) (e.format.draws count),
      e.bytes buffer len count draws.1 = some (bytesOf count (e.format.bitsOf count draws.1)) :=
    fun draws => bytes_eq haccept hlen draws.2
  have hdecodes : ∀ draws, draws.length = e.format.draws count →
      ∃ bytes, e.bytes buffer len count draws = some bytes ∧ bytes.length = count :=
    fun draws h => ⟨_, bytes_eq haccept hlen h, length_bytesOf⟩
  have hsurj := uniform_iff_surj
    (f := fun draws : List.Vector (BitVec e.width) (e.format.draws count) =>
      e.bytes buffer len count draws.1)
    (B := {b | ∃ bytes, bytes.length = count ∧ b = some bytes})
    move move_involutive move_symm
    (fun a₀ a₁ a h => by
      simp only [heq] at h ⊢
      have hbits := congrArg bitsOfBytes (Option.some.inj h)
      rw [Format.bitsOf_of_bytes a.2, Format.bitsOf_of_bytes a₀.2] at hbits
      rw [Format.bitsOf_move hbits])
    (a := ⟨List.replicate _ 0, List.length_replicate⟩)
    ⟨_, length_bytesOf, heq _⟩
  rw [← Format.exists_bitsOf_iff e.bytes_le_width]
  constructor
  · intro h bs hbs
    obtain ⟨draws, hdraws⟩ := hsurj.mp h.uniform _ ⟨bytesOf count bs, length_bytesOf, rfl⟩
    simp only [heq] at hdraws
    have hbits := congrArg bitsOfBytes (Option.some.inj hdraws)
    rw [Format.bitsOf_of_bytes draws.2, bitsOfBytes_bytesOf hbs.ge, ← hbs, List.take_length] at hbits
    exact ⟨draws.1, draws.2, hbits⟩
  · intro h
    refine ⟨hdecodes, hsurj.mpr ?_⟩
    rintro _ ⟨bytes, rfl, rfl⟩
    obtain ⟨draws, hdraws, hbits⟩ := h (bitsOfBytes bytes) length_bitsOfBytes
    refine ⟨⟨draws, hdraws⟩, (bytes_eq haccept hlen hdraws).trans ?_⟩
    rw [hbits, bytesOf_bitsOfBytes]

/-! ### The last blob -/

lemma Format.full_zero {w : ℕ} {p : Format} : p.Full w 0 := by
  intro bs hbs
  exact ⟨0, (List.length_eq_zero_iff.mp hbs).symm⟩

/-- One byte of base 64: six bits, and two that lie apart from them. -/
lemma base64_lastBits_one (v : ℕ) :
    Encoder.base64.format.lastBits 1 v = (bitsOf 9 v).drop 3 ++ (bitsOf 9 v).take 2 := by
  have hdigits : Encoder.base64.format.lastBits 1 v =
      (bitsOf 6 (v % 2 ^ 6) ++ bitsOf 6 (v / 2 ^ 3 % 2 ^ 6)).take 8 := rfl
  rw [hdigits]
  simp only [bitsOf, Nat.testBit_mod_two_pow, Nat.testBit_div_two_pow]
  rfl

lemma base64_full_one : Encoder.base64.format.Full 32 1 := by
  intro bs hbs
  have hlen : (bs.drop 6 ++ false :: bs.take 6).length = 9 := by
    rw [List.length_append, List.length_cons, List.length_drop, List.length_take]
    omega
  have hdrop : (bs.drop 6).length = 2 := by rw [List.length_drop, hbs]
  have hlt : ofBits (bs.drop 6 ++ false :: bs.take 6) < 2 ^ 32 :=
    (hlen ▸ ofBits_lt).trans (by decide)
  refine ⟨BitVec.ofNat 32 (ofBits (bs.drop 6 ++ false :: bs.take 6)), ?_⟩
  rw [BitVec.toNat_ofNat, Nat.mod_eq_of_lt hlt, base64_lastBits_one, bitsOf_ofBits hlen,
    List.take_left' hdrop, List.append_cons, List.drop_left' (by simp [hdrop]), List.take_append_drop]

/-- Two bytes of base 64: the first bit comes again as the tenth. -/
lemma base64_not_full_two : ¬ Encoder.base64.format.Full 32 2 := by
  intro h
  obtain ⟨v, hv⟩ := h (true :: List.replicate 15 false) rfl
  have hfirst : (v.toNat % 2 ^ 6).testBit 5 = true := congrArg (fun l => l.getD 0 true) hv
  have htenth : (v.toNat / 2 ^ 3 % 2 ^ 6).testBit 2 = false := congrArg (fun l => l.getD 9 true) hv
  rw [Nat.testBit_mod_two_pow] at hfirst htenth
  rw [Nat.testBit_div_two_pow] at htenth
  simp at hfirst htenth
  rw [hfirst] at htenth
  cases htenth

lemma Encoder.full_iff (e : Encoder) (count : ℕ) :
    e.format.Full e.width (count % e.format.bytes) ↔ ¬ (e = base64 ∧ count % 3 = 2) := by
  have hmod : count % e.format.bytes < e.format.bytes := Nat.mod_lt _ e.format.pos
  cases e with
  | base16 => exact iff_of_true (Format.full_of_shift rfl (by decide) hmod) (by simp)
  | base32 => exact iff_of_true (Format.full_of_shift rfl (by decide) hmod) (by simp)
  | base64 =>
    change base64.format.Full 32 (count % 3) ↔ _
    have hcases : count % 3 = 0 ∨ count % 3 = 1 ∨ count % 3 = 2 := by omega
    rcases hcases with hr | hr | hr
    · rw [hr]
      exact iff_of_true Format.full_zero (by simp)
    · rw [hr]
      exact iff_of_true base64_full_one (by simp)
    · rw [hr]
      exact iff_of_false base64_not_full_two (by simp)

/-- **The bytes of a random text are uniform**, for each encoder and each number of bytes that it
accepts, except for base 64 with a last blob of two bytes. -/
theorem uniformBytes_iff (e : Encoder) (buffer : Mem UInt8) {len count : ℕ}
    (haccept : e.total count ≤ INT_MAX) (hlen : e.total count < len) :
    e.UniformBytes buffer len count ↔ ¬ (e = .base64 ∧ count % 3 = 2) := by
  rw [Encoder.uniformBytes_iff_full haccept hlen, Encoder.full_iff]

theorem uniformBytes_iff_base16 :
    Encoder.base16.UniformBytes (fun _ => 0) 21 10 ↔ ¬ (Encoder.base16 = .base64 ∧ 10 % 3 = 2) :=
  uniformBytes_iff .base16 _ (by decide) (by decide)

/-- **Two bytes in base 64** are not uniform. -/
theorem base64_not_uniform :
    ¬ ∀ (e : Encoder) (buffer : Mem UInt8) (len count : ℕ), e.total count ≤ INT_MAX →
      e.total count < len → e.UniformBytes buffer len count := by
  intro h
  have huniform := h .base64 (fun _ => 0) 5 2 (by decide) (by decide)
  rw [Encoder.uniformBytes_iff_full (by decide) (by decide)] at huniform
  exact base64_not_full_two huniform

end Futils.Random
