import Futils.Safew.Atomic

/-!
# A session on top of a commit that was cut

A commit with a checksum is cut between its two `rename`, and before any check a new session is
opened, which is rolled back or cut before its commit.  The checksum of the cut commit then lies
beside a temporary payload that it does not belong to, and the check takes the two for a pair
(`Clobbers`).
-/

namespace Futils.Safew

open Futils.Lib

/-- What a commit leaves that is cut between its two `rename`, with a temporary payload of a later
session: the payload `v₂` is in place, and its checksum is not.  `old` is the payload before, if
there was one. -/
def halfDone (old : Option Bytes) (v₂ : Bytes) (tmp : Option Bytes) : Disk Bytes :=
  ⟨some v₂, old.map crcFile, tmp, some (crcFile v₂)⟩

/-- A session that never gets to its commit; it is rolled back unless it is cut before. -/
abbrev abandonedSession (faults : Faults) (pathname : Bytes) (ws : List WriteCall) :
    Proc (Disk File) (Option ℤ) :=
  plainSession faults pathname ws .rollback

section Abandoned

variable {path : Path} {d : Disk Bytes} {old : Option Bytes} {v₂ : Bytes}

/-- **An abandoned session** touches the temporary payload only. -/
lemma keeps_abandoned (faults : Faults) (pathname : Bytes) (ws : List WriteCall) (d₀ : Disk Bytes) :
    Proc.Keeps (SameButTmp d₀.atRest) (abandonedSession faults pathname ws) d₀.atRest := by
  obtain ⟨hopen, hopened⟩ := fopen_cases faults (d₀.payload.map stable) (d₀.crc.map stable)
    (d₀.tmp.map stable) (d₀.crcTmp.map stable) pathname
  rw [← Disk.atRest] at hopen hopened
  rw [abandonedSession, plainSession, Proc.keeps_bind]
  refine ⟨fun fs hfs => hopen fs (List.mem_append_left _ hfs), ?_⟩
  cases hr : (futilsSafewFopen faults pathname d₀.atRest).result with
  | none =>
    simp only [Proc.keeps_pure]
    exact hopen _ (Proc.final_mem_cuts _ _)
  | some safewFp =>
    obtain ⟨-, hfinal⟩ := hopened safewFp hr
    obtain ⟨failure, new, before, hwrites, hbefore, -⟩ := writes_run (d₀.payload.map stable)
      (d₀.crc.map stable) (d₀.crcTmp.map stable) ws safewFp []
    have hroll := keeps_rollback faults ⟨safewFp.path, failure⟩ (d₀.payload.map stable)
      (d₀.crc.map stable) (d₀.crcTmp.map stable) ⟨[], new⟩
    simp only [hfinal]
    rw [Proc.keeps_bind, hwrites]
    refine ⟨?_, ?_⟩
    · intro fs hfs
      obtain ⟨bytes, rfl⟩ := hbefore fs hfs
      exact ⟨rfl, rfl, rfl⟩
    · simp only [Ending.run]
      rw [Proc.keeps_bind, Proc.keeps_pure]
      refine ⟨?_, ?_⟩
      · intro fs hfs
        obtain ⟨hp, hc, hct⟩ := hroll fs (List.mem_append_left _ hfs)
        exact ⟨hp, hc, hct⟩
      · obtain ⟨hp, hc, hct⟩ := hroll _ (Proc.final_mem_cuts _ _)
        exact ⟨hp, hc, hct⟩

/-- What a crash of an abandoned session leaves. -/
lemma survives_abandoned {fs : Disk File} (hfs : SameButTmp (halfDone old v₂ none).atRest fs)
    (hd : Survives fs d) : d = halfDone old v₂ d.tmp := by
  obtain ⟨hp, hc, hct⟩ := hfs
  obtain ⟨hp', hc', -, hct'⟩ := hd
  rw [hp] at hp'
  rw [hc] at hc'
  rw [hct] at hct'
  have hp : d.payload = some v₂ := left_stable.mp hp'
  have hc : d.crc = old.map crcFile :=
    left_map_stable.mp (show Left ((old.map crcFile).map stable) d.crc from hc')
  have hct : d.crcTmp = some (crcFile v₂) := left_stable.mp hct'
  ext1
  · exact hp
  · exact hc
  · rfl
  · exact hct

/-! ### The check -/

/-- The temporary payload is not `v₂`, and it is kept or makes the check lose `v₂`: it has the same
checksum as `v₂`, or the old payload has not. -/
def Clobbers (old : Option Bytes) (v₂ : Bytes) (tmp : Option Bytes) : Prop :=
  ∃ t, tmp = some t ∧ t ≠ v₂ ∧ (crcFromFhd t = crcFromFhd v₂ ∨
    ∀ v₁, old = some v₁ → crcFromFhd v₁ ≠ crcFromFhd v₂)

lemma matches_crcFile_iff {x y : Bytes} : Matches x (crcFile y) ↔ crcFromFhd y = crcFromFhd x := by
  unfold Matches crcFile
  rw [readCrc_crcBytes, Option.some.injEq]

lemma not_short_crcFile (x : Bytes) : ¬ (crcFile x).length < CRC_LEN := by
  rw [length_crcFile]
  exact Nat.lt_irrefl _

/-- Without a temporary payload `v₂` is found, with one of the two checksums. -/
lemma recovers_halfDone : Recovers path (halfDone old v₂ none) v₂ := by
  rw [recovers_iff, halfDone]
  cases old with
  | none => exact ⟨_, chosen_of_half (matches_crcFile v₂), rfl⟩
  | some v₁ =>
    by_cases hm : Matches v₂ (crcFile v₁)
    · refine ⟨(.payload, .crc), ?_, rfl⟩
      exact chosen_of_inPlace (by simp [Disk.valid, Disk.get, hm]) (.inl rfl)
    · refine ⟨(.payload, .crcTmp), ?_, rfl⟩
      simp [chosen, reached, table, Disk.valid, Disk.short, Disk.get, hm, not_short_crcFile,
        matches_crcFile]

/-- The pair that is kept where all four files are there. -/
lemma chosen_with_tmp (t : Bytes) :
    chosen (halfDone old v₂ (some t)) =
      if Matches t (crcFile v₂) then some (.tmp, .crcTmp)
      else if ∃ v₁, old = some v₁ ∧ Matches v₂ (crcFile v₁) then some (.payload, .crc) else none := by
  have hlen := not_short_crcFile v₂
  cases old with
  | none =>
    by_cases hm : Matches t (crcFile v₂) <;>
      simp [chosen, reached, table, halfDone, Disk.valid, Disk.get, hm]
  | some v₁ =>
    by_cases hm : Matches t (crcFile v₂) <;> by_cases hm₁ : Matches v₂ (crcFile v₁) <;>
      simp [chosen, reached, table, halfDone, Disk.valid, Disk.short, Disk.get, hm, hm₁, hlen]

/-- **With a temporary payload** all depends on its checksum. -/
lemma recovers_with_tmp_iff (t : Bytes) :
    Recovers path (halfDone old v₂ (some t)) v₂ ↔ ¬ Clobbers old v₂ (some t) := by
  have hold : (∃ v₁, old = some v₁ ∧ Matches v₂ (crcFile v₁)) ↔
      ¬ ∀ v₁, old = some v₁ → crcFromFhd v₁ ≠ crcFromFhd v₂ := by
    push Not
    simp only [matches_crcFile_iff]
  rw [recovers_iff, chosen_with_tmp]
  unfold Clobbers
  split_ifs with hm hne
  · -- the temporary payload is kept
    constructor
    · rintro ⟨pr, hpr, ht⟩ ⟨t', ht', hne, -⟩
      obtain rfl := Option.some.inj hpr
      obtain rfl := Option.some.inj ht'
      exact hne (Option.some.inj ht)
    · intro h
      refine ⟨_, rfl, congrArg some ?_⟩
      by_contra hne
      exact h ⟨t, rfl, hne, .inl (matches_crcFile_iff.mp hm).symm⟩
  · -- the old checksum is that of `v₂`
    refine iff_of_true ⟨_, rfl, rfl⟩ ?_
    rintro ⟨t', ht', -, heq | hall⟩
    · obtain rfl := Option.some.inj ht'
      exact hm (matches_crcFile_iff.mpr heq.symm)
    · exact hold.mp hne hall
  · -- neither pair is valid
    refine iff_of_false ?_ ?_
    · rintro ⟨pr, hpr, -⟩
      cases hpr
    · rw [not_not]
      refine ⟨t, rfl, ?_, .inr (not_not.mp (hold.not.mp hne))⟩
      rintro rfl
      exact hm (matches_crcFile t)

/-- **An abandoned session keeps the payload**, unless its temporary payload clobbers it. -/
theorem abandoned_recovers_iff (faults : Faults) (ws : List WriteCall) {fs : Disk File}
    (hfs : fs ∈ Proc.cuts (abandonedSession faults path.name ws) (halfDone old v₂ none).atRest)
    (hd : Survives fs d) : Recovers path d v₂ ↔ ¬ Clobbers old v₂ d.tmp := by
  have heq := survives_abandoned (keeps_abandoned faults path.name ws _ fs hfs) hd
  cases ht : d.tmp with
  | none =>
    rw [ht] at heq
    have hfound : Recovers path d v₂ := heq ▸ recovers_halfDone
    refine iff_of_true hfound ?_
    rintro ⟨t, h, -⟩
    cases h
  | some t =>
    rw [ht] at heq
    rw [heq]
    exact recovers_with_tmp_iff t

/-- A session that is rolled back. -/
theorem abandoned_recovers_iff_rolledBack :
    (halfDone (some []) [0x61] none).atRest ∈
        Proc.cuts (abandonedSession noFaults pathF.name [.fprintf [0x62] none])
          (halfDone (some []) [0x61] none).atRest ∧
      (Recovers pathF (halfDone (some []) [0x61] none) [0x61] ↔ ¬ Clobbers (some []) [0x61] none) := by
  have hcut : (halfDone (some []) [0x61] none).atRest ∈
      Proc.cuts (abandonedSession noFaults pathF.name [.fprintf [0x62] none])
        (halfDone (some []) [0x61] none).atRest := by decide
  refine ⟨hcut, abandoned_recovers_iff noFaults _ hcut ?_⟩
  exact ⟨left_stable.mpr rfl, left_stable.mpr rfl, rfl, left_stable.mpr rfl⟩

/-- A session that writes `b` is cut after its write; the check erases `a`. -/
theorem abandoned_not_recovers :
    crcFromFhd [0x62] ≠ crcFromFhd [0x61] ∧
      ∃ fs ∈ Proc.cuts (abandonedSession noFaults pathF.name [.fprintf [0x62] none])
          (halfDone (some []) [0x61] none).atRest,
        ∃ d, Survives fs d ∧ (check pathF d).result = -1 ∧ (check pathF d).final = .erased ∧
          ¬ Recovers pathF d [0x61] := by
  refine ⟨by decide, ⟨some (stable [0x61]), some (stable (crcFile [])), some ⟨[], [0x62]⟩,
    some (stable (crcFile [0x61]))⟩, by decide, halfDone (some []) [0x61] (some [0x62]),
    ⟨left_stable.mpr rfl, left_stable.mpr rfl, ⟨1, rfl⟩, left_stable.mpr rfl⟩, by decide, by decide,
    ?_⟩
  intro h
  exact absurd h.1 (by decide)

end Abandoned

end Futils.Safew
