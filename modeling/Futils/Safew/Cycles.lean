import Futils.Lib.Reach
import Futils.Safew.Commit
import Futils.Safew.Interrupted

/-!
# Sessions that are cut

A session is cut at any point, and a check runs on what the crash leaves.  All that a crash may leave
falls into four stages (`session_stage`), from each of which the check leads to the old state or to
the new one, with one exception: a temporary checksum file that is still too short makes it erase an
old pair (`check_good_iff`).  The same goes for any number of cycles.
-/

namespace Futils.Safew

open Futils.Lib

/-! ### Crashes -/

/-- What a crash may leave of a file: what is on the device and any prefix of the rest. -/
def Left : Option File → Option Bytes → Prop
  | none, o => o = none
  | some f, o => ∃ k, o = some (f.synced ++ f.pending.take k)

/-- What a crash may leave of a disk. -/
structure Survives (fs : Disk File) (d : Disk Bytes) : Prop where
  payload : Left fs.payload d.payload
  crc : Left fs.crc d.crc
  tmp : Left fs.tmp d.tmp
  crcTmp : Left fs.crcTmp d.crcTmp

lemma left_map_stable {o o' : Option Bytes} : Left (o.map stable) o' ↔ o' = o := by
  cases o <;> simp [Left, stable]

lemma left_stable {b : Bytes} {o : Option Bytes} : Left (some (stable b)) o ↔ o = some b := by
  simp [Left, stable]

/-- A disk that no session has touched. -/
def Disk.atRest (d : Disk Bytes) : Disk File :=
  ⟨d.payload.map stable, d.crc.map stable, d.tmp.map stable, d.crcTmp.map stable⟩

/-- A session that writes `ws` on the disk `d₀` is cut, and `d` is what is left. -/
def Crashes (path : Path) (d₀ : Disk Bytes) (ws : List WriteCall) (d : Disk Bytes) : Prop :=
  ∃ fs ∈ Proc.cuts (session noFaults path.name ws) d₀.atRest, Survives fs d

/-! ### The stages -/

/-- What a crash leaves when `new` is written on the disk `d₀`. -/
inductive Stage (d₀ : Disk Bytes) (new : Bytes) : Disk Bytes → Prop
  /-- The payload is being written. -/
  | writing (tmp : Option Bytes) : Stage d₀ new ⟨d₀.payload, d₀.crc, tmp, none⟩
  /-- The payload is written, and its checksum file is there. -/
  | written {crcTmp : Bytes} :
      crcTmp <+: crcFile new → Stage d₀ new ⟨d₀.payload, d₀.crc, some new, some crcTmp⟩
  /-- The payload is moved. -/
  | moved : Stage d₀ new ⟨some new, d₀.crc, none, some (crcFile new)⟩
  | done : Stage d₀ new ⟨some new, some (crcFile new), none, none⟩

/-- All that a crash may leave is in a stage. -/
def InStage (d₀ : Disk Bytes) (new : Bytes) (fs : Disk File) : Prop :=
  ∀ d, Survives fs d → Stage d₀ new d

section Stages

variable {d₀ : Disk Bytes} {new : Bytes}

lemma inStage_writing (t : Option File) :
    InStage d₀ new ⟨d₀.payload.map stable, d₀.crc.map stable, t, none⟩ := by
  rintro ⟨p, c, tmp, ct⟩ ⟨hp, hc, -, hct⟩
  obtain rfl := left_map_stable.mp hp
  obtain rfl := left_map_stable.mp hc
  obtain rfl : ct = none := hct
  exact .writing tmp

lemma inStage_written {f : File} (hf : f.content = [] ∨ f.content = crcFile new) :
    InStage d₀ new ⟨d₀.payload.map stable, d₀.crc.map stable, some (stable new), some f⟩ := by
  rintro ⟨p, c, tmp, ct⟩ ⟨hp, hc, htmp, k, hct⟩
  obtain rfl := left_map_stable.mp hp
  obtain rfl := left_map_stable.mp hc
  obtain rfl := left_stable.mp htmp
  obtain rfl : ct = _ := hct
  refine .written ?_
  have hpre : f.synced ++ f.pending.take k <+: f.content :=
    (List.prefix_append_right_inj _).mpr (List.take_prefix _ _)
  rcases hf with hf | hf
  · rw [hf, List.prefix_nil] at hpre
    rw [hpre]
    exact List.nil_prefix
  · rwa [hf] at hpre

lemma inStage_moved :
    InStage d₀ new ⟨some (stable new), d₀.crc.map stable, none, some (stable (crcFile new))⟩ := by
  rintro ⟨p, c, tmp, ct⟩ ⟨hp, hc, htmp, hct⟩
  obtain rfl := left_stable.mp hp
  obtain rfl := left_map_stable.mp hc
  obtain rfl : tmp = none := htmp
  obtain rfl := left_stable.mp hct
  exact .moved

lemma inStage_done :
    InStage d₀ new ⟨some (stable new), some (stable (crcFile new)), none, none⟩ := by
  rintro ⟨p, c, tmp, ct⟩ ⟨hp, hc, htmp, hct⟩
  obtain rfl := left_stable.mp hp
  obtain rfl := left_stable.mp hc
  obtain rfl : tmp = none := htmp
  obtain rfl : ct = none := hct
  exact .done

end Stages

/-! ### The session -/

section Session

variable {p c ct : Option File}

attribute [local simp] fopenRead fopenWrite fwrite fflush fsync fclose streamCall Disk.modify
  Disk.set Disk.get noFaults rename unlink

/-- A commit with no fault, step by step. -/
lemma commit_noFaults (path : Path) (new : Bytes) :
    futilsSafewFcloseCommitWithCrc noFaults ⟨path, false⟩ ⟨p, c, some ⟨[], new⟩, ct⟩ =
      ⟨0, ⟨some (stable new), some (stable (crcFile new)), none, none⟩,
        [⟨p, c, some ⟨[], new⟩, ct⟩, ⟨p, c, some ⟨[], new⟩, ct⟩, ⟨p, c, some (stable new), ct⟩,
          ⟨p, c, some (stable new), ct⟩,
          ⟨p, c, some (stable new), some ⟨[], []⟩⟩,
          ⟨p, c, some (stable new), some ⟨[], crcFile new⟩⟩,
          ⟨p, c, some (stable new), some ⟨[], crcFile new⟩⟩,
          ⟨p, c, some (stable new), some (stable (crcFile new))⟩,
          ⟨p, c, some (stable new), some (stable (crcFile new))⟩,
          ⟨some (stable new), c, none, some (stable (crcFile new))⟩]⟩ := by
  have hlen : (crcBytes (crcFromFhd new)).length = CRC_LEN := length_leBytes _ _
  simp [futilsSafewFcloseCommitWithCrc, safewFcloseCommit, closePayload, createCrc,
    safewTmpCrcCreate, crcFromFile, writeCrc, moveFiles, File.sync, File.content, stable, crcFile,
    hlen]

/-- A commit after a write that failed. -/
lemma commit_failure (path : Path) (f : File) :
    futilsSafewFcloseCommitWithCrc noFaults ⟨path, true⟩ ⟨p, c, some f, ct⟩ =
      ⟨-1, ⟨p, c, none, ct⟩, [⟨p, c, some f, ct⟩, ⟨p, c, some f, ct⟩]⟩ := by
  simp [futilsSafewFcloseCommitWithCrc, safewFcloseCommit, closePayload, moveFiles, removeFiles]

lemma fopen_noFaults (path : Path) {t : Option File} :
    futilsSafewFopen noFaults path.name ⟨p, c, t, ct⟩ =
      ⟨some ⟨path, false⟩, ⟨p, c, some ⟨[], []⟩, ct⟩, [⟨p, c, t, ct⟩, ⟨p, c, none, ct⟩]⟩ := by
  simp [futilsSafewFopen]

lemma elim_take_prefix (fault : Option ℕ) (bytes : Bytes) : fault.elim bytes bytes.take <+: bytes := by
  cases fault with
  | none => exact List.prefix_rfl
  | some k => exact List.take_prefix k bytes

/-- As many whole items as were asked for are all of the bytes. -/
lemma eq_of_div_eq {bytes done : Bytes} {size nmemb : ℕ} (hpre : done <+: bytes)
    (hlen : bytes.length ≤ size * nmemb) (hdiv : done.length / size = nmemb) : done = bytes := by
  refine hpre.eq_of_length_le ?_
  calc bytes.length ≤ size * (done.length / size) := hdiv ▸ hlen
    _ ≤ done.length := Nat.mul_div_le _ _

/-- One write: unless it records a failure, all of its data is appended. -/
lemma writeCall_run (p c ct : Option File) (w : WriteCall) (safewFp : SafewFile) (old : Bytes) :
    ∃ failure new, w.run safewFp ⟨p, c, some ⟨[], old⟩, ct⟩ =
        ⟨⟨safewFp.path, failure⟩, ⟨p, c, some ⟨[], new⟩, ct⟩, [⟨p, c, some ⟨[], old⟩, ct⟩]⟩ ∧
      (failure = false → safewFp.failure = false ∧ new = old ++ w.data) := by
  obtain ⟨path, failure₀⟩ := safewFp
  cases w with
  | fwrite ptr size nmemb fault =>
    have hpre := elim_take_prefix fault (ptr.take (size * nmemb))
    by_cases hret : (fault.elim (ptr.take (size * nmemb)) (ptr.take (size * nmemb)).take).length / size
        = nmemb
    · refine ⟨failure₀, old ++ fault.elim (ptr.take (size * nmemb)) (ptr.take (size * nmemb)).take,
        ?_, fun hok => ⟨hok, ?_⟩⟩
      · simp [WriteCall.run, futilsSafewFwrite, hret]
      · rw [WriteCall.data, eq_of_div_eq hpre (List.length_take_le _ _) hret]
    · refine ⟨true, old ++ fault.elim (ptr.take (size * nmemb)) (ptr.take (size * nmemb)).take,
        ?_, nofun⟩
      simp [WriteCall.run, futilsSafewFwrite, hret]
  | fprintf text fault =>
    cases fault with
    | none =>
      have hlen : ¬ (text.length : ℤ) < 0 := by omega
      refine ⟨failure₀, old ++ text, ?_, fun hok => ⟨hok, rfl⟩⟩
      simp [WriteCall.run, futilsSafewFprintf, hlen]
    | some k =>
      refine ⟨true, old ++ text.take k, ?_, nofun⟩
      simp [WriteCall.run, futilsSafewFprintf]

/-- **The writes of a session** act on the temporary payload only. -/
lemma writes_run (p c ct : Option File) (ws : List WriteCall) (safewFp : SafewFile) (old : Bytes) :
    ∃ failure new before, writes ws safewFp ⟨p, c, some ⟨[], old⟩, ct⟩ =
        ⟨⟨safewFp.path, failure⟩, ⟨p, c, some ⟨[], new⟩, ct⟩, before⟩ ∧
      (∀ fs ∈ before, ∃ bytes, fs = ⟨p, c, some ⟨[], bytes⟩, ct⟩) ∧
      (failure = false → safewFp.failure = false ∧ new = old ++ ws.flatMap WriteCall.data) := by
  induction ws generalizing safewFp old with
  | nil => exact ⟨safewFp.failure, old, [], rfl, by simp, fun h => ⟨h, by simp⟩⟩
  | cons w ws ih =>
    obtain ⟨failure₁, new₁, h₁, hdata₁⟩ := writeCall_run p c ct w safewFp old
    obtain ⟨failure, new, before, h, hbefore, hdata⟩ := ih ⟨safewFp.path, failure₁⟩ new₁
    refine ⟨failure, new, ⟨p, c, some ⟨[], old⟩, ct⟩ :: before, ?_, ?_, ?_⟩
    · simp only [writes, Proc.bind_apply, h₁, h, List.singleton_append]
    · exact List.forall_mem_cons.mpr ⟨⟨old, rfl⟩, hbefore⟩
    · intro hok
      obtain ⟨hok₁, rfl⟩ := hdata hok
      obtain ⟨hok₀, rfl⟩ := hdata₁ hok₁
      exact ⟨hok₀, by simp⟩

end Session

/-- What a session writes. -/
def payloadOf (ws : List WriteCall) : Bytes := ws.flatMap WriteCall.data

/-- **Every cut of a session is in a stage.** -/
theorem session_stage (path : Path) (ws : List WriteCall) {d₀ : Disk Bytes} (ht : d₀.tmp = none)
    (hct : d₀.crcTmp = none) :
    Proc.Keeps (InStage d₀ (payloadOf ws)) (session noFaults path.name ws) d₀.atRest := by
  have hrest : d₀.atRest = ⟨d₀.payload.map stable, d₀.crc.map stable, none, none⟩ := by
    rw [Disk.atRest, ht, hct]
    rfl
  obtain ⟨failure, new, before, hwrites, hbefore, hdata⟩ := writes_run (d₀.payload.map stable)
    (d₀.crc.map stable) none ws ⟨path, false⟩ []
  rw [hrest, session, Proc.keeps_bind, fopen_noFaults]
  refine ⟨?_, ?_⟩
  · simp only [List.forall_mem_cons, List.not_mem_nil, false_implies, implies_true, and_true]
    exact ⟨inStage_writing _, inStage_writing _⟩
  simp only
  rw [Proc.keeps_bind, hwrites]
  refine ⟨?_, ?_⟩
  · intro fs hfs
    obtain ⟨bytes, rfl⟩ := hbefore fs hfs
    exact inStage_writing _
  simp only
  rw [Proc.keeps_bind, Proc.keeps_pure]
  cases failure with
  | true =>
    rw [commit_failure]
    simp only [List.forall_mem_cons, List.not_mem_nil, false_implies, implies_true, and_true]
    exact ⟨⟨inStage_writing _, inStage_writing _⟩, inStage_writing _⟩
  | false =>
    obtain ⟨-, rfl⟩ := hdata rfl
    rw [List.nil_append, ← payloadOf, commit_noFaults]
    simp only [List.forall_mem_cons, List.not_mem_nil, false_implies, implies_true, and_true]
    exact ⟨⟨inStage_writing _, inStage_writing _, inStage_writing _, inStage_writing _,
      inStage_written (.inl rfl), inStage_written (.inr rfl), inStage_written (.inr rfl),
      inStage_written (.inr (content_stable _)), inStage_written (.inr (content_stable _)),
      inStage_moved⟩, inStage_done⟩

/-! ### The check after a crash -/

/-- A valid pair, or nothing, and no temporary file. -/
def Disk.Start (d : Disk Bytes) : Prop :=
  d.tmp = none ∧ d.crcTmp = none ∧
    (d.payload = none ∧ d.crc = none ∨ d.valid (.payload, .crc) = true)

/-- The state `d₀` from before, or the payload `new` with its checksum. -/
def Good (d₀ : Disk Bytes) (new : Bytes) (d : Disk Bytes) : Prop :=
  d = d₀ ∨ ∃ crc, d = ⟨some new, some crc, none, none⟩ ∧ Matches new crc

/-- There was a pair, and the crash leaves a temporary checksum file that is too short. -/
def Exposed (d₀ d : Disk Bytes) : Prop := d₀.payload ≠ none ∧ d.short .crcTmp = true

section Check

variable {path : Path} {d₀ d : Disk Bytes} {new : Bytes}

lemma Good.start (h₀ : d₀.Start) (h : Good d₀ new d) : d.Start := by
  rcases h with rfl | ⟨crc, rfl, hm⟩
  · exact h₀
  · exact ⟨rfl, rfl, .inr (Disk.valid_iff.mpr ⟨new, crc, rfl, rfl, hm⟩)⟩

/-- The check finds the new payload. -/
lemma good_of_chosen {pr : Pair} (hc : chosen d = some pr) (hx : d.get pr.1 = some new) :
    Good d₀ new (check path d).final := by
  have hrec : Recovers path d new := recovers_iff.mpr ⟨pr, hc, hx⟩
  obtain ⟨-, crc, hfinal, hm⟩ := hrec
  exact .inr ⟨crc, hfinal, hm⟩

/-- The old pair is in place. -/
lemma final_of_inPlace (hv : d.valid (.payload, .crc) = true) (ht : d.tmp = none ∨ d.crcTmp = none) :
    (check path d).final = ⟨d.payload, d.crc, none, none⟩ :=
  (check_of_chosen path (chosen_of_inPlace hv ht)).2

lemma chosen_of_short {p c : Option Bytes} {tmp crcTmp : Bytes} (h : crcTmp.length < CRC_LEN) :
    chosen ⟨p, c, some tmp, some crcTmp⟩ = none := by
  have hshort : Disk.short ⟨p, c, some tmp, some crcTmp⟩ .crcTmp = true := by
    simpa [Disk.short, Disk.get] using h
  have hinvalid := not_valid_of_short (.tmp, .crcTmp) hshort
  cases p <;> cases c <;> simp [chosen, reached, table, hshort, hinvalid]

lemma not_exposed_of_length {b : Bytes} (hct : d.crcTmp = some b) (hlen : b.length = CRC_LEN) :
    ¬ Exposed d₀ d := by
  rintro ⟨-, hshort⟩
  simp [Disk.short, Disk.get, hct, hlen] at hshort

/-- The payload is moved and the old checksum is still there. -/
lemma good_of_moved (h₀ : d₀.Start) :
    Good d₀ new (check path ⟨some new, d₀.crc, none, some (crcFile new)⟩).final := by
  obtain ⟨-, -, ⟨-, hcrc⟩ | hv⟩ := h₀
  · rw [hcrc]
    exact good_of_chosen (chosen_of_half (matches_crcFile new)) rfl
  · obtain ⟨payload, crc, -, hcrc, hm⟩ := Disk.valid_iff.mp hv
    have hc : d₀.crc = some crc := hcrc
    rw [hc]
    by_cases hnew : Matches new crc
    · have hin : Disk.valid ⟨some new, some crc, none, some (crcFile new)⟩ (.payload, .crc) = true :=
        Disk.valid_iff.mpr ⟨new, crc, rfl, rfl, hnew⟩
      exact good_of_chosen (chosen_of_inPlace hin (.inl rfl)) rfl
    · have hlen : ¬ crc.length < CRC_LEN := by
        rw [← readCrc_eq_none_iff, hm]
        exact Option.some_ne_none _
      have hc : chosen ⟨some new, some crc, none, some (crcFile new)⟩ = some (.payload, .crcTmp) := by
        simp [chosen, reached, table, Disk.short, Disk.valid, Disk.get, hlen, hnew, matches_crcFile]
      exact good_of_chosen hc rfl

/-- **The check after a crash** leads to the old or to the new state, unless the old pair is
exposed. -/
theorem check_good_iff (h₀ : d₀.Start) (hd : Stage d₀ new d) :
    Good d₀ new (check path d).final ↔ ¬ Exposed d₀ d := by
  obtain ⟨ht, hct, hold⟩ := h₀
  cases hd with
  | writing tmp =>
    refine iff_of_true (.inl ?_) fun h => by simpa [Disk.short, Disk.get] using h.2
    rcases hold with ⟨hp, hc⟩ | hv
    · have hnone : chosen ⟨d₀.payload, d₀.crc, tmp, none⟩ = none := by
        cases tmp <;> simp [chosen, reached, table, hp, hc]
      rw [(check_of_not_chosen path hnone).2]
      ext1 <;> simp [Disk.erased, hp, hc, ht, hct]
    · rw [final_of_inPlace (d := ⟨d₀.payload, d₀.crc, tmp, none⟩) hv (.inr rfl)]
      ext1 <;> simp [ht, hct]
  | @written crcTmp hpre =>
    rcases Nat.lt_or_ge crcTmp.length CRC_LEN with hlt | hge
    · -- the checksum file is too short, and everything is erased
      have hnone : chosen ⟨d₀.payload, d₀.crc, some new, some crcTmp⟩ = none := chosen_of_short hlt
      have hfinal := (check_of_not_chosen path hnone).2
      have hshort : Disk.short ⟨d₀.payload, d₀.crc, some new, some crcTmp⟩ .crcTmp = true := by
        simpa [Disk.short, Disk.get] using hlt
      rw [hfinal]
      rcases hold with ⟨hp, hc⟩ | hv
      · refine iff_of_true (.inl ?_) fun h => h.1 hp
        ext1 <;> simp [Disk.erased, hp, hc, ht, hct]
      · obtain ⟨payload, -, hp, -⟩ := Disk.valid_iff.mp hv
        have hp : d₀.payload = some payload := hp
        refine iff_of_false ?_ (not_not.mpr ⟨by rw [hp]; exact Option.some_ne_none _, hshort⟩)
        rintro (h | ⟨crc, h, -⟩)
        · rw [← h] at hp
          cases hp
        · cases h
    · obtain rfl := hpre.eq_of_length_le (by rw [length_crcFile]; exact hge)
      have hv : Disk.valid ⟨d₀.payload, d₀.crc, some new, some (crcFile new)⟩ (.tmp, .crcTmp) = true :=
        Disk.valid_iff.mpr ⟨new, _, rfl, rfl, matches_crcFile new⟩
      exact iff_of_true (good_of_chosen (chosen_of_temporary hv) rfl)
        (not_exposed_of_length rfl (length_crcFile new))
  | moved =>
    exact iff_of_true (good_of_moved ⟨ht, hct, hold⟩) (not_exposed_of_length rfl (length_crcFile new))
  | done =>
    have hv : Disk.valid ⟨some new, some (crcFile new), none, none⟩ (.payload, .crc) = true :=
      Disk.valid_iff.mpr ⟨new, _, rfl, rfl, matches_crcFile new⟩
    refine iff_of_true (good_of_chosen (chosen_of_inPlace hv (.inl rfl)) rfl) ?_
    intro h
    simpa [Disk.short, Disk.get] using h.2

end Check

/-! ### Cycles -/

/-- A session that is cut, and what the crash leaves. -/
structure Cycle where
  writes : List WriteCall
  left : Disk Bytes

/-- What the check that follows makes of it. -/
def Cycle.next (path : Path) (_ : Disk Bytes) (cy : Cycle) : Disk Bytes := (check path cy.left).final

/-- **Any number of cycles** of a session, a crash and a check: each leads to the old or to the new
state of its session just when none of the crashes exposes an old pair. -/
theorem cycles_good_iff (path : Path) {d₀ : Disk Bytes} {cycles : List Cycle} (h₀ : d₀.Start)
    (h : Along (Cycle.next path) (fun d cy => Crashes path d cy.writes cy.left) d₀ cycles) :
    Along (Cycle.next path) (fun d cy => Good d (payloadOf cy.writes) (cy.next path d)) d₀ cycles ↔
      Along (Cycle.next path) (fun d cy => ¬ Exposed d cy.left) d₀ cycles := by
  refine along_iff (I := Disk.Start) ?_ ?_ h₀ h
  · rintro d cy hd ⟨fs, hfs, hleft⟩
    exact check_good_iff hd (session_stage path cy.writes hd.1 hd.2.1 fs hfs cy.left hleft)
  · intro d cy hd _ hgood
    exact hgood.start hd

/-- A valid pair, of an empty payload. -/
def emptyPair : Disk Bytes := ⟨some [], some (crcFile []), none, none⟩

/-- A session that is cut between its two `rename`. -/
def cutBetween : Cycle :=
  ⟨[.fprintf [0x61] none], ⟨some [0x61], some (crcFile []), none, some (crcFile [0x61])⟩⟩

/-- The new payload is recovered. -/
theorem cycles_good_cutBetween :
    Along (Cycle.next pathF)
      (fun d cy => Good d (payloadOf cy.writes) (cy.next pathF d)) emptyPair [cutBetween] := by
  have hcrash : Crashes pathF emptyPair cutBetween.writes cutBetween.left :=
    ⟨⟨some (stable [0x61]), some (stable (crcFile [])), none, some (stable (crcFile [0x61]))⟩,
      by decide, left_stable.mpr rfl, left_stable.mpr rfl, rfl, left_stable.mpr rfl⟩
  have hshort : ¬ Exposed emptyPair cutBetween.left := fun h => absurd h.2 (by decide)
  have hstart : emptyPair.Start := ⟨rfl, rfl, .inr (by decide)⟩
  have hrun : Along (Cycle.next pathF) (fun d cy => Crashes pathF d cy.writes cy.left) emptyPair
      [cutBetween] := ⟨hcrash, trivial⟩
  exact (cycles_good_iff pathF hstart hrun).mpr ⟨hshort, trivial⟩

/-- A session that is cut after the `fopen` of the temporary checksum. -/
def cutAtFopen : Cycle :=
  ⟨[.fprintf [0x61] none], ⟨some [], some (crcFile []), some [0x61], some []⟩⟩

/-- The old pair is erased. -/
theorem cycles_not_good :
    emptyPair.Start ∧
      Along (Cycle.next pathF) (fun d cy => Crashes pathF d cy.writes cy.left) emptyPair
        [cutAtFopen] ∧
      cutAtFopen.next pathF emptyPair = .erased ∧
      ¬ Along (Cycle.next pathF)
        (fun d cy => Good d (payloadOf cy.writes) (cy.next pathF d)) emptyPair [cutAtFopen] := by
  have hcrash : Crashes pathF emptyPair cutAtFopen.writes cutAtFopen.left :=
    ⟨⟨some (stable []), some (stable (crcFile [])), some (stable [0x61]), some ⟨[], []⟩⟩,
      by decide, left_stable.mpr rfl, left_stable.mpr rfl, left_stable.mpr rfl, 0, rfl⟩
  have herased : cutAtFopen.next pathF emptyPair = .erased := by decide
  refine ⟨⟨rfl, rfl, .inr (by decide)⟩, ⟨hcrash, trivial⟩, herased, ?_⟩
  intro h
  have hgood : Good emptyPair [0x61] (cutAtFopen.next pathF emptyPair) := h.1
  rw [herased] at hgood
  rcases hgood with h | ⟨crc, h, -⟩ <;> cases h

end Futils.Safew
