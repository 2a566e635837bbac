import Futils.Lib.Mixing
import Futils.Safew.Defs

/-!
# What the checksum detects

No operation of the checksum loses anything of the word it works on, and different bytes take a word to
different ones: a payload with one byte changed never has the checksum of the payload.
-/

namespace Futils.Safew

open Futils.Lib

/-- `*crc += *crc << n` -/
lemma add_shl_injective {n : UInt32} (h : 0 < (n.toBitVec % 32).toNat) :
    Function.Injective fun crc : UInt32 => crc + crc <<< n := by
  intro crc crc' heq
  have hword := congrArg UInt32.toBitVec heq
  simp only [UInt32.toBitVec_add, UInt32.toBitVec_shiftLeft, BitVec.shiftLeft_eq'] at hword
  exact UInt32.toBitVec_inj.mp (add_shiftLeft_injective h hword)

/-- `*crc ^= *crc >> n` -/
lemma xor_shr_injective {n : UInt32} (h : 0 < (n.toBitVec % 32).toNat) :
    Function.Injective fun crc : UInt32 => crc ^^^ crc >>> n := by
  intro crc crc' heq
  have hword := congrArg UInt32.toBitVec heq
  simp only [UInt32.toBitVec_xor, UInt32.toBitVec_shiftRight, BitVec.ushiftRight_eq'] at hword
  exact UInt32.toBitVec_inj.mp (xor_ushiftRight_injective h hword)

lemma toUInt32_injective : Function.Injective UInt8.toUInt32 := by
  intro b b' h
  apply UInt8.toNat_inj.mp
  rw [← UInt8.toNat_toUInt32, h, UInt8.toNat_toUInt32]

/-- What a turn does after the byte is added. -/
lemma mix_injective : Function.Injective fun crc : UInt32 => (crc + crc <<< 10) ^^^ ((crc + crc <<< 10) >>> 6) :=
  (xor_shr_injective (n := 6) (by decide)).comp (add_shl_injective (n := 10) (by decide))

lemma crcStep_injective (val : UInt8) : Function.Injective fun crc => crcStep crc val := by
  intro crc crc' h
  exact (UInt32.add_left_inj val.toUInt32).mp (mix_injective h)

lemma crcStep_injective_val (crc : UInt32) : Function.Injective (crcStep crc) := by
  intro val val' h
  exact toUInt32_injective ((UInt32.add_right_inj crc).mp (mix_injective h))

/-- What is done after the last byte. -/
def crcFinal (crc : UInt32) : UInt32 :=
  let crc := crc + crc <<< 3
  let crc := crc ^^^ (crc >>> 11)
  crc + crc <<< 15

lemma crcFinal_injective : Function.Injective crcFinal :=
  ((add_shl_injective (n := 15) (by decide)).comp (xor_shr_injective (n := 11) (by decide))).comp
    (add_shl_injective (n := 3) (by decide))

lemma crcFromFhd_eq (fhd : Bytes) : crcFromFhd fhd = crcFinal (fhd.foldl crcStep 0) := rfl

lemma checkPair_eq_zero {payload crcFhd : Bytes} :
    checkPair payload crcFhd = 0 ↔ readCrc crcFhd = some (crcFromFhd payload) := by
  unfold checkPair
  cases readCrc crcFhd with
  | none => simp
  | some crc =>
    by_cases h : crc = crcFromFhd payload <;> simp [h]

lemma checkPair_cases (payload crcFhd : Bytes) : checkPair payload crcFhd = 0 ∨ checkPair payload crcFhd = -1 := by
  unfold checkPair
  cases readCrc crcFhd with
  | none => exact .inr rfl
  | some crc =>
    dsimp only
    split_ifs
    · exact .inr rfl
    · exact .inl rfl

/-- **A changed byte is detected**: the checksum is another one, and with the checksum file that the payload is
checked against, the changed payload is rejected. -/
theorem crcFromFhd_set_ne (payload : Bytes) {i : ℕ} (hi : i < payload.length) {b : UInt8}
    (hb : b ≠ payload[i]) :
    crcFromFhd (payload.set i b) ≠ crcFromFhd payload ∧
      ∀ crcFhd, checkPair payload crcFhd = 0 → checkPair (payload.set i b) crcFhd = -1 := by
  have hne : crcFromFhd (payload.set i b) ≠ crcFromFhd payload := by
    intro heq
    rw [crcFromFhd_eq, crcFromFhd_eq] at heq
    exact foldl_set_ne crcStep_injective crcStep_injective_val 0 hi hb (crcFinal_injective heq)
  refine ⟨hne, ?_⟩
  intro crcFhd hok
  rcases checkPair_cases (payload.set i b) crcFhd with h | h
  · rw [checkPair_eq_zero] at h hok
    rw [hok] at h
    exact absurd (Option.some.inj h).symm hne
  · exact h

theorem crcFromFhd_set_ne_one :
    crcFromFhd ([0x61, 0x62].set 1 0x63) ≠ crcFromFhd [0x61, 0x62] ∧
      ∀ crcFhd, checkPair [0x61, 0x62] crcFhd = 0 → checkPair ([0x61, 0x62].set 1 0x63) crcFhd = -1 :=
  crcFromFhd_set_ne [0x61, 0x62] (i := 1) (by decide) (by decide)

end Futils.Safew
