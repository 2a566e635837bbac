import Futils.Safew.Recovery
import Futils.Safew.Session

/-!
# A commit that fails

The faults of a commit are those up to the `fclose` of the payload (`payloadFails`), those of the
checksum file (`crcFails`) and those of the two `rename`.  What is left on the disk depends on which
of them comes first (`commit_of_payloadFails` and the following): the cleanup of all but the first
kind removes the old checksum too.
-/

namespace Futils.Safew

open Futils.Lib

/-- A write failed, or the payload cannot be flushed, synchronised and closed. -/
def payloadFails (faults : Faults) (safewFp : SafewFile) : Bool :=
  safewFp.failure || (faults .fflush).isSome || (faults .fsync).isSome || (faults .fclose).isSome

/-- The checksum file, once it is open, cannot be written, flushed, synchronised and closed.  A
short `fwrite` is one of less than four bytes. -/
def writeCrcFails (faults : Faults) : Bool :=
  (faults .crcFwrite).any (· < CRC_LEN) || (faults .crcFflush).isSome ||
    (faults .crcFsync).isSome || (faults .crcFclose).isSome

/-- The checksum file cannot be made. -/
def crcFails (faults : Faults) : Bool :=
  (faults .crcFopenRead).isSome || (faults .crcFcloseRead).isSome || (faults .crcFopen).isSome ||
    writeCrcFails faults

/-- The checksum file of a payload. -/
def crcFile (payload : Bytes) : Bytes := crcBytes (crcFromFhd payload)

lemma length_crcFile (payload : Bytes) : (crcFile payload).length = CRC_LEN := length_leBytes _ _

lemma matches_crcFile (payload : Bytes) : Matches payload (crcFile payload) := readCrc_crcBytes _

/-- A file that is all on the device. -/
def stable (bytes : Bytes) : File := ⟨bytes, []⟩

@[simp] lemma content_stable (bytes : Bytes) : (stable bytes).content = bytes := List.append_nil _

/-! ### The phases of a commit -/

section Phases

attribute [local simp] fopenRead fopenWrite fwrite fflush fsync fclose streamCall Disk.modify
  Disk.set Disk.get

variable (faults : Faults) (safewFp : SafewFile) (p c t ct : Option File) (f : File)

/-- The payload is on the device unless one of the calls fails. -/
lemma closePayload_eq :
    ∃ f' before, closePayload faults safewFp ⟨p, c, some f, ct⟩ =
        ⟨if payloadFails faults safewFp then -1 else 0, ⟨p, c, some f', ct⟩, before⟩ ∧
      (payloadFails faults safewFp = false → f' = stable f.content) := by
  cases hfail : safewFp.failure
  · refine ⟨(faults .fclose).elim id File.lose ((faults .fsync).elim File.sync File.lose
      ((faults .fflush).elim id File.lose f)), _, Run.ext ?_ ?_ rfl, ?_⟩
    · simp only [closePayload, payloadFails, hfail]
      cases faults .fflush <;> cases faults .fsync <;> cases faults .fclose <;> rfl
    · simp [closePayload, hfail]
    · intro h
      simp [payloadFails, hfail] at h
      simp [h, File.sync, stable]
  · refine ⟨(faults .fclose).elim id File.lose f, _, Run.ext ?_ ?_ rfl, ?_⟩
    · simp [closePayload, payloadFails, hfail]
    · simp [closePayload, hfail]
    · simp [payloadFails, hfail]

lemma length_elim_take (fault : Option ℕ) {bytes : Bytes} (h : bytes.length = CRC_LEN) :
    (fault.elim bytes bytes.take).length = CRC_LEN ↔ fault.any (· < CRC_LEN) = false := by
  cases fault <;> simp [h]

lemma elim_take_eq {fault : Option ℕ} {bytes : Bytes} (h : bytes.length = CRC_LEN)
    (hfault : fault.any (· < CRC_LEN) = false) : fault.elim bytes bytes.take = bytes := by
  cases fault with
  | none => rfl
  | some k =>
    have hk : CRC_LEN ≤ k := by simpa using hfault
    exact List.take_of_length_le (by omega)

/-- The checksum file is on the device unless one of the calls fails. -/
lemma writeCrc_eq (crc : UInt32) :
    ∃ ct' before, writeCrc faults .crcTmp crc ⟨p, c, t, ct⟩ =
        ⟨if writeCrcFails faults then -1 else 0, ⟨p, c, t, ct'⟩, before⟩ ∧
      (writeCrcFails faults = false → ct' = some (stable (crcBytes crc))) := by
  have hcrc : (crcBytes crc).length = CRC_LEN := length_leBytes _ _
  have hlen := length_elim_take (faults .crcFwrite) hcrc
  refine ⟨some ((faults .crcFclose).elim id File.lose ((faults .crcFsync).elim File.sync File.lose
    ((faults .crcFflush).elim id File.lose ⟨[], (faults .crcFwrite).elim (crcBytes crc)
      (crcBytes crc).take⟩))), _, Run.ext ?_ ?_ rfl, ?_⟩
  · have hres : (writeCrc faults .crcTmp crc ⟨p, c, t, ct⟩).result =
        if (faults .crcFclose).isSome then -1 else if (faults .crcFsync).isSome then -1
        else if (faults .crcFflush).isSome then -1
        else if (faults .crcFwrite).any (· < CRC_LEN) then -1 else 0 := by
      simp [writeCrc, hlen]
      split_ifs <;> simp_all
    rw [hres, writeCrcFails]
    split_ifs <;> simp_all
  · simp [writeCrc]
  · intro h
    simp only [writeCrcFails, Bool.or_eq_false_iff, Option.isSome_eq_false_iff,
      Option.isNone_iff_eq_none] at h
    obtain ⟨⟨⟨hwrite, hflush⟩, hsync⟩, hclose⟩ := h
    simp [hflush, hsync, hclose, elim_take_eq hcrc hwrite, File.sync, File.content, stable]

lemma safewTmpCrcCreate_eq :
    ∃ ct' before, safewTmpCrcCreate faults .tmp .crcTmp ⟨p, c, some f, ct⟩ =
        ⟨if crcFails faults then -1 else 0, ⟨p, c, some f, ct'⟩, before⟩ ∧
      (crcFails faults = false → ct' = some (stable (crcFile f.content))) := by
  obtain ⟨ct', before, hwrite, hct'⟩ := writeCrc_eq faults p c (some f) ct (crcFromFhd f.content)
  cases hread : faults .crcFopenRead with
  | some k => simp [safewTmpCrcCreate, crcFromFile, crcFails, hread]
  | none =>
    cases hclose : faults .crcFcloseRead with
    | some k => simp [safewTmpCrcCreate, crcFromFile, crcFails, hread, hclose]
    | none =>
      cases hopen : faults .crcFopen with
      | some k => simp [safewTmpCrcCreate, crcFromFile, crcFails, hread, hclose, hopen]
      | none =>
        have hfails : crcFails faults = writeCrcFails faults := by
          simp [crcFails, hread, hclose, hopen]
        refine ⟨ct', before, ?_, fun h => hct' (hfails ▸ h)⟩
        simp [safewTmpCrcCreate, crcFromFile, hread, hclose, hopen, hwrite, hfails]

/-! ### What a commit leaves -/

attribute [local simp] futilsSafewFcloseCommitWithCrc safewFcloseCommit createCrc moveFiles
  removeFiles rename unlink

lemma commit_of_payloadFails (h : payloadFails faults safewFp = true) :
    ∃ before, futilsSafewFcloseCommitWithCrc faults safewFp ⟨p, c, some f, ct⟩ =
      ⟨-1, ⟨p, c, none, ct⟩, before⟩ := by
  obtain ⟨f', before, hclose, -⟩ := closePayload_eq faults safewFp p c ct f
  simp [hclose, h]

/-- The old checksum is removed. -/
lemma commit_of_crcFails (hp : payloadFails faults safewFp = false)
    (h : crcFails faults = true ∨ (faults (.rename .tmp)).isSome = true) :
    ∃ before, futilsSafewFcloseCommitWithCrc faults safewFp ⟨p, c, some f, ct⟩ =
      ⟨-1, ⟨p, none, none, none⟩, before⟩ := by
  obtain ⟨f', before, hclose, -⟩ := closePayload_eq faults safewFp p c ct f
  obtain ⟨ct', before', hcrc, -⟩ := safewTmpCrcCreate_eq faults p c ct f'
  cases hc : crcFails faults with
  | true => simp [hclose, hp, hcrc, hc]
  | false =>
    have hr : (faults (.rename .tmp)).isSome = true := by simpa [hc] using h
    simp [hclose, hp, hcrc, hc, hr]

/-- The payload is replaced, and the old checksum is removed with the new one. -/
lemma commit_of_renameFails (hp : payloadFails faults safewFp = false)
    (hc : crcFails faults = false) (hr : (faults (.rename .tmp)).isSome = false)
    (h : (faults (.rename .crcTmp)).isSome = true) :
    ∃ before, futilsSafewFcloseCommitWithCrc faults safewFp ⟨p, c, some f, ct⟩ =
      ⟨-1, ⟨some (stable f.content), none, none, none⟩, before⟩ := by
  obtain ⟨f', before, hclose, hf'⟩ := closePayload_eq faults safewFp p c ct f
  obtain rfl := hf' hp
  obtain ⟨ct', before', hcrc, hct'⟩ := safewTmpCrcCreate_eq faults p c ct (stable f.content)
  obtain rfl := hct' hc
  simp [hclose, hp, hcrc, hc, hr, h]

lemma commit_of_not_fails (hp : payloadFails faults safewFp = false)
    (hc : crcFails faults = false) (hr : (faults (.rename .tmp)).isSome = false)
    (h : (faults (.rename .crcTmp)).isSome = false) :
    ∃ before, futilsSafewFcloseCommitWithCrc faults safewFp ⟨p, c, some f, ct⟩ =
      ⟨0, ⟨some (stable f.content), some (stable (crcFile f.content)), none, none⟩, before⟩ := by
  obtain ⟨f', before, hclose, hf'⟩ := closePayload_eq faults safewFp p c ct f
  obtain rfl := hf' hp
  obtain ⟨ct', before', hcrc, hct'⟩ := safewTmpCrcCreate_eq faults p c ct (stable f.content)
  obtain rfl := hct' hc
  simp [hclose, hp, hcrc, hc, hr, h]

end Phases

/-! ### What a failed commit should leave -/

/-- The disk `d` while a session that wrote `f` is open. -/
def Disk.during (d : Disk Bytes) (f : File) : Disk File :=
  ⟨d.payload.map stable, d.crc.map stable, some f, d.crcTmp.map stable⟩

def Disk.contents (d : Disk File) : Disk Bytes :=
  ⟨d.payload.map File.content, d.crc.map File.content, d.tmp.map File.content,
    d.crcTmp.map File.content⟩

/-- A failure leaves the payload and its checksum alone, and a check that follows does what it would
have done before the session. -/
def ChangesNothing (path : Path) (d : Disk Bytes) (r : Run (Disk File) ℤ) : Prop :=
  r.result = -1 → r.final.payload = d.payload.map stable ∧ r.final.crc = d.crc.map stable ∧
    (d.tmp = none → d.crcTmp = none → check path r.final.contents = check path d)

/-- The commit fails after the payload is closed, where there is an old checksum to remove; or it
fails in the second `rename`, where that and the first one leave something else. -/
def Spoils (faults : Faults) (safewFp : SafewFile) (d : Disk Bytes) (f : File) : Prop :=
  payloadFails faults safewFp = false ∧
    ((crcFails faults = true ∨ (faults (.rename .tmp)).isSome = true) ∧ d.crc ≠ none ∨
      crcFails faults = false ∧ (faults (.rename .tmp)).isSome = false ∧
        (faults (.rename .crcTmp)).isSome = true ∧
        ¬ (d.crc = none ∧ d.payload = some f.content))

section ChangesNothing

variable (faults : Faults) (safewFp : SafewFile) (d : Disk Bytes) (f : File)

lemma map_content_map_stable (o : Option Bytes) : (o.map stable).map File.content = o := by
  cases o <;> simp

lemma none_eq_map_stable {o : Option Bytes} : none = o.map stable ↔ o = none := by
  cases o <;> simp

lemma some_eq_map_stable {o : Option Bytes} {b : Bytes} :
    some (stable b) = o.map stable ↔ o = some b := by
  cases o <;> simp [stable, eq_comm]

/-- The files are what they were, and at most the old temporary checksum is left beside them. -/
lemma changesNothing_of_final {path : Path} {d : Disk Bytes} {r : Run (Disk File) ℤ}
    (ct : Option File) (hct : d.crcTmp = none → ct = none)
    (hfinal : r.final = ⟨d.payload.map stable, d.crc.map stable, none, ct⟩) :
    ChangesNothing path d r := by
  intro _
  rw [hfinal]
  refine ⟨rfl, rfl, ?_⟩
  intro htmp hcrcTmp
  have hsame : Disk.contents ⟨d.payload.map stable, d.crc.map stable, none, ct⟩ = d := by
    ext1
    · exact map_content_map_stable _
    · exact map_content_map_stable _
    · exact htmp.symm
    · rw [hct hcrcTmp, hcrcTmp]
      rfl
  rw [hsame]

lemma changesNothing_of_payloadFails (h : payloadFails faults safewFp = true) :
    ChangesNothing safewFp.path d (futilsSafewFcloseCommitWithCrc faults safewFp (d.during f)) := by
  obtain ⟨before, hrun⟩ := commit_of_payloadFails faults safewFp (d.payload.map stable)
    (d.crc.map stable) (d.crcTmp.map stable) f h
  rw [Disk.during, hrun]
  refine changesNothing_of_final (d.crcTmp.map stable) ?_ rfl
  intro hnone
  rw [hnone]
  rfl

/-- The old checksum is gone, if there was one. -/
lemma changesNothing_iff_of_crcFails (hp : payloadFails faults safewFp = false)
    (h : crcFails faults = true ∨ (faults (.rename .tmp)).isSome = true) :
    ChangesNothing safewFp.path d (futilsSafewFcloseCommitWithCrc faults safewFp (d.during f)) ↔
      d.crc = none := by
  obtain ⟨before, hrun⟩ := commit_of_crcFails faults safewFp (d.payload.map stable)
    (d.crc.map stable) (d.crcTmp.map stable) f hp h
  rw [Disk.during, hrun]
  constructor
  · intro hsame
    exact none_eq_map_stable.mp (hsame rfl).2.1
  · intro hcrc
    refine changesNothing_of_final none (fun _ => rfl) ?_
    rw [hcrc]
    rfl

/-- The payload is the new one, and the old checksum is gone. -/
lemma changesNothing_iff_of_renameFails (hp : payloadFails faults safewFp = false)
    (hc : crcFails faults = false) (hr : (faults (.rename .tmp)).isSome = false)
    (h : (faults (.rename .crcTmp)).isSome = true) :
    ChangesNothing safewFp.path d (futilsSafewFcloseCommitWithCrc faults safewFp (d.during f)) ↔
      d.crc = none ∧ d.payload = some f.content := by
  obtain ⟨before, hrun⟩ := commit_of_renameFails faults safewFp (d.payload.map stable)
    (d.crc.map stable) (d.crcTmp.map stable) f hp hc hr h
  rw [Disk.during, hrun]
  constructor
  · intro hsame
    exact ⟨none_eq_map_stable.mp (hsame rfl).2.1, some_eq_map_stable.mp (hsame rfl).1⟩
  · rintro ⟨hcrc, hpayload⟩
    refine changesNothing_of_final none (fun _ => rfl) ?_
    rw [hcrc, hpayload]
    rfl

lemma changesNothing_of_not_fails (hp : payloadFails faults safewFp = false)
    (hc : crcFails faults = false) (hr : (faults (.rename .tmp)).isSome = false)
    (h : (faults (.rename .crcTmp)).isSome = false) :
    ChangesNothing safewFp.path d (futilsSafewFcloseCommitWithCrc faults safewFp (d.during f)) := by
  obtain ⟨before, hrun⟩ := commit_of_not_fails faults safewFp (d.payload.map stable)
    (d.crc.map stable) (d.crcTmp.map stable) f hp hc hr h
  rw [Disk.during, hrun]
  intro hfails
  cases hfails

/-- **A failed commit changes nothing, unless it spoils the old pair.** -/
theorem commit_changesNothing_iff :
    ChangesNothing safewFp.path d (futilsSafewFcloseCommitWithCrc faults safewFp (d.during f)) ↔
      ¬ Spoils faults safewFp d f := by
  cases hp : payloadFails faults safewFp with
  | true =>
    refine iff_of_true (changesNothing_of_payloadFails faults safewFp d f hp) ?_
    simp [Spoils, hp]
  | false =>
    by_cases hc : crcFails faults = true ∨ (faults (.rename .tmp)).isSome = true
    · have hlater : ¬ (crcFails faults = false ∧ (faults (.rename .tmp)).isSome = false) := by
        rw [← Bool.not_eq_true, ← Bool.not_eq_true, ← not_or]
        exact not_not.mpr hc
      rw [changesNothing_iff_of_crcFails faults safewFp d f hp hc, Spoils]
      tauto
    · obtain ⟨hcrcOk, hrenameOk⟩ := not_or.mp hc
      rw [Bool.not_eq_true] at hcrcOk hrenameOk
      cases hr : (faults (.rename .crcTmp)).isSome with
      | false =>
        refine iff_of_true (changesNothing_of_not_fails faults safewFp d f hp hcrcOk hrenameOk hr) ?_
        simp [Spoils, hcrcOk, hrenameOk, hr]
      | true =>
        rw [changesNothing_iff_of_renameFails faults safewFp d f hp hcrcOk hrenameOk hr]
        simp [Spoils, hp, hcrcOk, hrenameOk, hr]

/-- The checksum file cannot be opened. -/
def crcFopenFault : Faults := fun site => if site = .crcFopen then some 0 else none

/-- A valid pair loses its checksum. -/
theorem commit_not_changesNothing :
    ¬ ChangesNothing pathF ⟨some [], some (crcFile []), none, none⟩
      (futilsSafewFcloseCommitWithCrc crcFopenFault ⟨pathF, false⟩
        (Disk.during ⟨some [], some (crcFile []), none, none⟩ ⟨[], [0x61]⟩)) := by
  intro h
  exact absurd (h (by decide)).2.1 (by decide)

end ChangesNothing

end Futils.Safew
