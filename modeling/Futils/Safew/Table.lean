import Futils.Safew.Defs

/-!
# The recovery table (`include/futils/safew.h`)

For each set of files the table names the pairs that are checked, in order.  The first pair that is
valid is kept as the payload and its checksum; when there is none everything is erased.
-/

namespace Futils.Safew

open Futils.Lib

/-- The checksum file holds the checksum of the payload. -/
def Matches (payload crc : Bytes) : Prop := readCrc crc = some (crcFromFhd payload)

instance (payload crc : Bytes) : Decidable (Matches payload crc) :=
  inferInstanceAs (Decidable (_ = _))

/-- A payload and a checksum file. -/
abbrev Pair := FileName × FileName

/-- Both files of the pair are there and match. -/
def Disk.valid (d : Disk Bytes) (pr : Pair) : Bool :=
  (d.get pr.1).any fun payload => (d.get pr.2).any fun crc => Matches payload crc

/-- The pair is moved in place and the rest is removed. -/
def Disk.keep (d : Disk Bytes) (pr : Pair) : Disk Bytes := ⟨d.get pr.1, d.get pr.2, none, none⟩

def Disk.erased : Disk Bytes := ⟨none, none, none, none⟩

/-- The pairs of each row of the table: payload, payload.tmp, crc and crc.tmp, as in the table. -/
def table (d : Disk Bytes) : List Pair :=
  match d.payload.isSome, d.tmp.isSome, d.crc.isSome, d.crcTmp.isSome with
  | false, false, false, false => []
  | true, false, false, false => []
  | false, true, false, false => []
  | true, true, false, false => []
  | false, false, true, false => []
  | true, false, true, false => [(.payload, .crc)]
  | false, true, true, false => []
  | true, true, true, false => [(.payload, .crc)]
  | false, false, false, true => []
  | true, false, false, true => [(.payload, .crcTmp)]
  | false, true, false, true => [(.tmp, .crcTmp)]
  | true, true, false, true => [(.tmp, .crcTmp)]
  | false, false, true, true => []
  | true, false, true, true => [(.payload, .crc), (.payload, .crcTmp)]
  | false, true, true, true => [(.tmp, .crcTmp)]
  | true, true, true, true => [(.tmp, .crcTmp), (.payload, .crc)]

/-- A run of the check does what the table says. -/
def MeetsTable (d : Disk Bytes) (r : Run (Disk Bytes) ℤ) : Prop :=
  match (table d).find? d.valid with
  | some pr => r.result = 0 ∧ r.final = d.keep pr
  | none => r.result < 0 ∧ r.final = .erased

lemma Disk.valid_iff {d : Disk Bytes} {pr : Pair} :
    d.valid pr = true ↔
      ∃ payload crc, d.get pr.1 = some payload ∧ d.get pr.2 = some crc ∧ Matches payload crc := by
  simp [valid, Option.any_eq_true]

lemma readCrc_eq_none_iff {crc : Bytes} : readCrc crc = none ↔ crc.length < CRC_LEN := by
  unfold readCrc
  split <;> simp_all

/-- The comparison of `check_pair`. -/
lemma checkPair_eq (payload crc : Bytes) :
    checkPair payload crc = if Matches payload crc then 0 else -1 := by
  rw [checkPair]
  cases h : readCrc crc <;> simp [Matches, h]

/-- **A checksum is read back.** -/
theorem readCrc_crcBytes (crc : UInt32) : readCrc (crcBytes crc) = some crc := by
  have hlen : (crcBytes crc).length = CRC_LEN := length_leBytes _ _
  rw [readCrc, if_neg (by omega), List.take_of_length_le hlen.le, crcBytes,
    leNat_leBytes (by exact crc.toNat_lt), UInt32.ofNat_toNat]

end Futils.Safew
