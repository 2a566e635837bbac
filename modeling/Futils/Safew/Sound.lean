import Futils.Safew.Recovery

/-!
# What a check leaves

A check of a pathname that it accepts ends in one of two clean states: a payload with its checksum
and nothing else, or nothing at all.  Both are states that a second check leaves as they are
(`check_of_clean`, `check_of_erased`).  Of a longer pathname all files stay as they are.
-/

namespace Futils.Safew

open Futils.Lib

/-- A checksum file matches when its first four bytes are the checksum. -/
lemma matches_iff_take {payload crc : Bytes} :
    Matches payload crc ↔ crc.take CRC_LEN = crcBytes (crcFromFhd payload) := by
  unfold Matches readCrc
  constructor
  · intro h
    split_ifs at h with hshort
    have hlen : (crc.take CRC_LEN).length = CRC_LEN := by
      rw [List.length_take]
      omega
    have hlt := leNat_lt (crc.take CRC_LEN)
    rw [hlen] at hlt
    rw [← Option.some.inj h, crcBytes, UInt32.toNat_ofNat', Nat.mod_eq_of_lt (by omega)]
    conv_lhs => rw [← leBytes_leNat (crc.take CRC_LEN), hlen]
  · intro h
    have hlen := congrArg List.length h
    rw [List.length_take, crcBytes, length_leBytes] at hlen
    have hshort : ¬ crc.length < CRC_LEN := by omega
    have hread := readCrc_crcBytes (crcFromFhd payload)
    rw [← h] at hread
    simpa [readCrc, hshort, List.take_take] using hread

section Clean

variable (path : Path)

/-- A valid pair alone is left alone. -/
lemma check_of_clean {x crc : Bytes} (hm : Matches x crc) :
    (check path ⟨some x, some crc, none, none⟩).result = 0 ∧
      (check path ⟨some x, some crc, none, none⟩).final = ⟨some x, some crc, none, none⟩ := by
  have hc : chosen ⟨some x, some crc, none, none⟩ = some (.payload, .crc) := by
    simp [chosen, reached, table, Disk.valid, Disk.get, hm]
  exact check_of_chosen path hc

lemma check_of_erased :
    (check path .erased).result = -1 ∧ (check path .erased).final = .erased :=
  check_of_not_chosen path rfl

end Clean

/-- A check leaves a payload with its checksum or nothing, and a second one changes nothing. -/
def ChecksSoundly (pathname : Bytes) (d : Disk Bytes) : Prop :=
  let r := futilsSafewFileCheck noFault pathname d
  let r' := futilsSafewFileCheck noFault pathname r.final
  (r.result = 0 ∧
      (∃ x crc, r.final = ⟨some x, some crc, none, none⟩ ∧
        crc.take 4 = crcBytes (crcFromFhd x) ∧ (d.payload = some x ∨ d.tmp = some x) ∧
        (d.crc = some crc ∨ d.crcTmp = some crc)) ∨
    r.result < 0 ∧ r.final = ⟨none, none, none, none⟩) ∧
  r'.result = r.result ∧ r'.final = r.final

/-- **Every check of a pathname that fits is sound**, and a second one changes nothing. -/
theorem check_sound {pathname : Bytes} (hshort : pathname.length < SAFEW_PATH_MAX_LEN) (d : Disk Bytes) :
    ChecksSoundly pathname d := by
  obtain ⟨path, rfl⟩ : ∃ path : Path, path.name = pathname := ⟨⟨pathname, hshort⟩, rfl⟩
  unfold ChecksSoundly
  dsimp only
  cases hc : chosen d with
  | none =>
    obtain ⟨hres, hfinal⟩ := check_of_not_chosen path hc
    obtain ⟨hres', hfinal'⟩ := check_of_erased path
    rw [hfinal, hres, hres', hfinal']
    exact ⟨.inr ⟨by decide, rfl⟩, rfl, rfl⟩
  | some pr =>
    obtain ⟨hres, hfinal⟩ := check_of_chosen path hc
    obtain ⟨x, crc, hx, hcrc, hm⟩ := Disk.valid_iff.mp (valid_of_chosen hc)
    have hkeep : d.keep pr = ⟨some x, some crc, none, none⟩ := by rw [Disk.keep, hx, hcrc]
    obtain ⟨hres', hfinal'⟩ := check_of_clean path hm
    rw [hfinal, hres, hkeep, hres', hfinal']
    refine ⟨.inl ⟨rfl, x, crc, rfl, matches_iff_take.mp hm, ?_, ?_⟩, rfl, rfl⟩
    · rcases chosen_cases hc with rfl | rfl | rfl
      · exact .inl hx
      · exact .inl hx
      · exact .inr hx
    · rcases chosen_cases hc with rfl | rfl | rfl
      · exact .inl hcrc
      · exact .inr hcrc
      · exact .inr hcrc

/-- A valid pair with what a session left: the pair is kept, and stays so. -/
theorem check_sound_leftTmp :
    (futilsSafewFileCheck noFault pathF.name ⟨some [], some [0, 0, 0, 0], some [0x61], none⟩).result = 0 ∧
      ChecksSoundly pathF.name ⟨some [], some [0, 0, 0, 0], some [0x61], none⟩ :=
  ⟨by decide, check_sound pathF.short _⟩

/-- A pathname of as many bytes as the buffer. -/
def longName : Bytes := List.replicate SAFEW_PATH_MAX_LEN 0x66

/-- **A longer pathname is refused**: the check fails and the payload stays. -/
theorem check_not_sound_longName : ¬ ChecksSoundly longName ⟨some [0x61], none, none, none⟩ := by
  have hlong : SAFEW_PATH_MAX_LEN ≤ longName.length := by simp [longName]
  simp [ChecksSoundly, check_of_long hlong]

end Futils.Safew
