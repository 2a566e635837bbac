import Futils.Safew.Cycles

/-!
# A commit without a checksum

A session that is committed without a checksum, or rolled back, and whose calls fail in any way.
The payload stays as it was up to a `rename` of a file that is all on the device, and is the new
one from then on.
-/

namespace Futils.Safew

open Futils.Lib

/-- How a session ends. -/
inductive Ending
  | commit | rollback

def Ending.run (faults : Faults) : Ending → SafewFile → Proc (Disk File) ℤ
  | commit => futilsSafewFcloseCommit faults
  | rollback => futilsSafewFcloseRollback faults

/-- Open, write, and commit without a checksum or roll back; `none` if the file cannot be opened. -/
def plainSession (faults : Faults) (pathname : Bytes) (ws : List WriteCall) (ending : Ending) :
    Proc (Disk File) (Option ℤ) := do
  match ← futilsSafewFopen faults pathname with
  | none => pure none
  | some safewFp =>
    let safewFp ← writes ws safewFp
    let ret ← ending.run faults safewFp
    pure (some ret)

/-! ### The payload at every cut -/

/-- All but the temporary payload is what it was. -/
structure SameButTmp (d fs : Disk File) : Prop where
  payload : fs.payload = d.payload
  crc : fs.crc = d.crc
  crcTmp : fs.crcTmp = d.crcTmp

lemma sameButTmp_iff {d fs : Disk File} :
    SameButTmp d fs ↔ fs.payload = d.payload ∧ fs.crc = d.crc ∧ fs.crcTmp = d.crcTmp :=
  ⟨fun h => ⟨h.payload, h.crc, h.crcTmp⟩, fun h => ⟨h.1, h.2.1, h.2.2⟩⟩

section Session

variable (faults : Faults) (safewFp : SafewFile) (p c t ct : Option File) (f : File)

attribute [local simp] fopenRead fopenWrite fwrite fflush fsync fclose streamCall Disk.modify
  Disk.set Disk.get unlink rename sameButTmp_iff Proc.Keeps Proc.cuts

/-- The `fopen` makes an empty temporary file, or opens nothing. -/
lemma fopen_cases (pathname : Bytes) :
    let r := futilsSafewFopen faults pathname ⟨p, c, t, ct⟩
    Proc.Keeps (SameButTmp ⟨p, c, t, ct⟩) (futilsSafewFopen faults pathname) ⟨p, c, t, ct⟩ ∧
      (∀ safewFp, r.result = some safewFp →
        safewFp.failure = false ∧ r.final = ⟨p, c, some ⟨[], []⟩, ct⟩) := by
  unfold futilsSafewFopen
  split_ifs <;> simp

lemma keeps_closePayload :
    Proc.Keeps (SameButTmp ⟨p, c, some f, ct⟩) (closePayload faults safewFp) ⟨p, c, some f, ct⟩ := by
  cases hfail : safewFp.failure <;> simp [closePayload, hfail]

/-- **The commit** replaces the payload at its `rename`, by a file that is all on the device. -/
lemma commit_cases :
    let r := futilsSafewFcloseCommit faults safewFp ⟨p, c, some f, ct⟩
    (∀ fs ∈ r.before, fs.payload = p) ∧
      (r.result = 0 ∧ r.final.payload = some (stable f.content) ∧ safewFp.failure = false ∨
        r.result = -1 ∧ r.final.payload = p) := by
  obtain ⟨f', before, hclose, hf'⟩ := closePayload_eq faults safewFp p c ct f
  have hkeep := keeps_closePayload faults safewFp p c ct f
  rw [Proc.Keeps, Proc.cuts, hclose] at hkeep
  have hbefore : ∀ fs ∈ before, fs.payload = p := fun fs hfs => (hkeep fs (by simp [hfs])).payload
  cases hp : payloadFails faults safewFp with
  | true =>
    rw [hp] at hclose
    simp [futilsSafewFcloseCommit, safewFcloseCommit, hclose, moveFiles, removeFiles]
    rintro fs (hfs | rfl)
    · exact hbefore fs hfs
    · rfl
  | false =>
    obtain rfl := hf' hp
    have hok : safewFp.failure = false := by
      simp only [payloadFails, Bool.or_eq_false_iff] at hp
      exact hp.1.1.1
    rw [hp] at hclose
    cases hr : (faults (.rename .tmp)).isSome <;>
      simp [futilsSafewFcloseCommit, safewFcloseCommit, hclose, moveFiles, removeFiles, hr, hok]
    all_goals
      rintro fs (hfs | rfl)
      · exact hbefore fs hfs
      · rfl

lemma keeps_rollback :
    Proc.Keeps (SameButTmp ⟨p, c, some f, ct⟩) (futilsSafewFcloseRollback faults safewFp)
      ⟨p, c, some f, ct⟩ := by
  simp [futilsSafewFcloseRollback]

/-- **Both endings**: only a commit that returns 0 replaces the payload. -/
lemma ending_cases (ending : Ending) :
    let r := ending.run faults safewFp ⟨p, c, some f, ct⟩
    (∀ fs ∈ r.before, fs.payload = p) ∧
      (ending = .commit ∧ r.result = 0 ∧ r.final.payload = some (stable f.content) ∧
          safewFp.failure = false ∨
        (ending = .commit → r.result = -1) ∧ r.final.payload = p) := by
  cases ending with
  | commit =>
    obtain ⟨hbefore, h | h⟩ := commit_cases faults safewFp p c ct f
    · exact ⟨hbefore, .inl ⟨rfl, h⟩⟩
    · exact ⟨hbefore, .inr ⟨fun _ => h.1, h.2⟩⟩
  | rollback =>
    have hkeep := keeps_rollback faults safewFp p c ct f
    exact ⟨fun fs hfs => (hkeep fs (List.mem_append_left _ hfs)).payload,
      .inr ⟨nofun, (hkeep _ (Proc.final_mem_cuts _ _)).payload⟩⟩

end Session

/-! ### Whole sessions -/

/-- The session returns 0 and leaves the new payload, or it leaves the old one. -/
def EndsWith (d₀ : Disk Bytes) (new : Bytes) (ending : Ending) (r : Run (Disk File) (Option ℤ)) :
    Prop :=
  ending = .commit ∧ r.result = some 0 ∧ r.final.payload = some (stable new) ∨
    (ending = .commit → r.result = none ∨ r.result = some (-1)) ∧
      r.final.payload = d₀.payload.map stable

/-- Up to the last of its actions a session keeps the payload. -/
lemma plainSession_cases (faults : Faults) (pathname : Bytes) (ws : List WriteCall)
    (ending : Ending) (d₀ : Disk Bytes) :
    let r := plainSession faults pathname ws ending d₀.atRest
    (∀ fs ∈ r.before, fs.payload = d₀.payload.map stable) ∧
      EndsWith d₀ (payloadOf ws) ending r := by
  obtain ⟨hopen, hopened⟩ := fopen_cases faults (d₀.payload.map stable) (d₀.crc.map stable)
    (d₀.tmp.map stable) (d₀.crcTmp.map stable) pathname
  rw [← Disk.atRest] at hopen hopened
  have hbefore₀ : ∀ fs ∈ (futilsSafewFopen faults pathname d₀.atRest).before,
      fs.payload = d₀.payload.map stable :=
    fun fs hfs => (hopen fs (List.mem_append_left _ hfs)).payload
  cases hr : (futilsSafewFopen faults pathname d₀.atRest).result with
  | none =>
    simp only [plainSession, Proc.bind_apply, hr, Proc.pure_apply, List.append_nil, EndsWith]
    exact ⟨hbefore₀, .inr ⟨fun _ => .inl trivial, (hopen _ (Proc.final_mem_cuts _ _)).payload⟩⟩
  | some safewFp =>
    obtain ⟨hok, hfinal⟩ := hopened safewFp hr
    obtain ⟨failure, new, before, hwrites, hbefore, hdata⟩ := writes_run (d₀.payload.map stable)
      (d₀.crc.map stable) (d₀.crcTmp.map stable) ws safewFp []
    obtain ⟨hbefore₂, hend⟩ := ending_cases faults ⟨safewFp.path, failure⟩ (d₀.payload.map stable)
      (d₀.crc.map stable) (d₀.crcTmp.map stable) ⟨[], new⟩ ending
    simp only [plainSession, Proc.bind_apply, hr, hfinal, hwrites, Proc.pure_apply,
      List.append_nil, EndsWith]
    refine ⟨?_, ?_⟩
    · simp only [List.mem_append]
      rintro fs (hfs | hfs | hfs)
      · exact hbefore₀ fs hfs
      · obtain ⟨bytes, rfl⟩ := hbefore fs hfs
        rfl
      · exact hbefore₂ fs hfs
    · rcases hend with ⟨hcommit, hret, hnew, hfail⟩ | ⟨hret, hold⟩
      · obtain ⟨-, rfl⟩ := hdata hfail
        exact .inl ⟨hcommit, congrArg some hret, hnew⟩
      · exact .inr ⟨fun hcommit => .inr (congrArg some (hret hcommit)), hold⟩

/-- **A session without a checksum is atomic**: at every cut, and after a crash there, the payload is
the old one or all that was written, and what the session returns says which of the two it leaves. -/
theorem plainSession_atomic (faults : Faults) (pathname : Bytes) (ws : List WriteCall)
    (ending : Ending) (d₀ : Disk Bytes) :
    (∀ fs ∈ Proc.cuts (plainSession faults pathname ws ending) d₀.atRest,
      (fs.payload = d₀.payload.map stable ∨ fs.payload = some (stable (payloadOf ws))) ∧
        ∀ d, Survives fs d → d.payload = d₀.payload ∨ d.payload = some (payloadOf ws)) ∧
      EndsWith d₀ (payloadOf ws) ending (plainSession faults pathname ws ending d₀.atRest) := by
  obtain ⟨hbefore, hend⟩ := plainSession_cases faults pathname ws ending d₀
  refine ⟨?_, hend⟩
  intro fs hfs
  have hpayload : fs.payload = d₀.payload.map stable ∨ fs.payload = some (stable (payloadOf ws)) := by
    rcases List.mem_append.mp hfs with hfs | hfs
    · exact .inl (hbefore fs hfs)
    · obtain rfl := List.mem_singleton.mp hfs
      rcases hend with ⟨-, -, hnew⟩ | ⟨-, hold⟩
      · exact .inr hnew
      · exact .inl hold
  refine ⟨hpayload, ?_⟩
  intro d hd
  have hleft := hd.payload
  rcases hpayload with hp | hp
  · rw [hp] at hleft
    exact .inl (left_map_stable.mp hleft)
  · rw [hp] at hleft
    exact .inr (left_stable.mp hleft)

/-! ### Sessions in which no call fails -/

/-- The write does not fail, and has as many bytes as it is to write. -/
def WriteCall.Full : WriteCall → Prop
  | fwrite ptr size nmemb fault => fault = none ∧ 0 < size ∧ size * nmemb ≤ ptr.length
  | fprintf _ fault => fault = none

lemma WriteCall.Full.run {w : WriteCall} (h : w.Full) (path : Path) (fs : Disk File) :
    (w.run ⟨path, false⟩ fs).result = ⟨path, false⟩ := by
  cases w with
  | fwrite ptr size nmemb fault =>
    obtain ⟨rfl, hpos, hlen⟩ := h
    have hwritten : min (size * nmemb) ptr.length / size = nmemb := by
      rw [Nat.min_eq_left hlen, Nat.mul_div_cancel_left _ hpos]
    simp [WriteCall.run, futilsSafewFwrite, Safew.fwrite, hwritten]
  | fprintf text fault =>
    obtain rfl : fault = none := h
    have hwritten : ¬ (text.length : ℤ) < 0 := by omega
    simp [WriteCall.run, futilsSafewFprintf, Safew.fwrite, hwritten]

lemma writes_full {ws : List WriteCall} (h : ∀ w ∈ ws, w.Full) (path : Path) (fs : Disk File) :
    (writes ws ⟨path, false⟩ fs).result = ⟨path, false⟩ := by
  induction ws generalizing fs with
  | nil => rfl
  | cons w ws ih =>
    obtain ⟨hw, hws⟩ := List.forall_mem_cons.mp h
    rw [writes, Proc.bind_apply, hw.run path fs]
    exact ih hws _

lemma commit_full (path : Path) (p c ct : Option File) (f : File) :
    (futilsSafewFcloseCommit noFaults ⟨path, false⟩ ⟨p, c, some f, ct⟩).result = 0 := by
  obtain ⟨f', before, hclose, -⟩ := closePayload_eq noFaults ⟨path, false⟩ p c ct f
  have hok : payloadFails noFaults ⟨path, false⟩ = false := rfl
  rw [hok] at hclose
  simp [futilsSafewFcloseCommit, safewFcloseCommit, hclose, moveFiles, rename, fopenRead, Disk.get, noFaults]

/-- **A session in which no call fails** returns 0, and all that was written is the payload. -/
theorem plainSession_of_noFaults {pathname : Bytes} (hshort : pathname.length < SAFEW_PATH_MAX_LEN)
    {ws : List WriteCall} (hfull : ∀ w ∈ ws, w.Full) (d₀ : Disk Bytes) :
    (plainSession noFaults pathname ws .commit d₀.atRest).result = some 0 ∧
      (plainSession noFaults pathname ws .commit d₀.atRest).final.payload = some (stable (payloadOf ws)) := by
  obtain ⟨path, rfl⟩ : ∃ path : Path, path.name = pathname := ⟨⟨pathname, hshort⟩, rfl⟩
  have hret : (plainSession noFaults path.name ws .commit d₀.atRest).result = some 0 := by
    obtain ⟨failure, new, before, hwrites, -⟩ := writes_run (d₀.payload.map stable) (d₀.crc.map stable)
      (d₀.crcTmp.map stable) ws ⟨path, false⟩ []
    obtain rfl : failure = false := by
      have hfine := writes_full hfull path ⟨d₀.payload.map stable, d₀.crc.map stable, some ⟨[], []⟩, d₀.crcTmp.map stable⟩
      rw [hwrites] at hfine
      exact congrArg SafewFile.failure hfine
    simp [plainSession, Disk.atRest, fopen_noFaults, hwrites, Ending.run, commit_full]
  obtain ⟨-, ⟨-, -, hnew⟩ | ⟨hold, -⟩⟩ := plainSession_cases noFaults path.name ws .commit d₀
  · exact ⟨hret, hnew⟩
  · rw [hret] at hold
    rcases hold rfl with hnone | hfails
    · cases hnone
    · cases hfails

end Futils.Safew
