import Futils.Safew.Recovery

/-!
# A check that is cut

A check is cut between two of its actions, and a second one runs to its end.  It finds the same pair
whatever the first one did, with one exception: where the checksum is moved before its payload, a
cut between the two leaves the new checksum beside an old payload.
-/

namespace Futils.Safew

open Futils.Lib

/-- A check returns 0 and leaves the payload `x` with a matching checksum. -/
def Recovers (path : Path) (d : Disk Bytes) (x : Bytes) : Prop :=
  (check path d).result = 0 ∧
    ∃ crc, (check path d).final = ⟨some x, some crc, none, none⟩ ∧ Matches x crc

section Interrupted

variable {path : Path} {d : Disk Bytes} {x : Bytes}

/-- A check that returns 0 has chosen a pair. -/
lemma exists_chosen (h : (check path d).result = 0) : ∃ pr, chosen d = some pr := by
  refine Option.ne_none_iff_exists'.mp fun hnone => ?_
  rw [(check_of_not_chosen path hnone).1] at h
  exact absurd h (by decide)

theorem recovers_iff : Recovers path d x ↔ ∃ pr, chosen d = some pr ∧ d.get pr.1 = some x := by
  constructor
  · rintro ⟨hres, crc, hfinal, -⟩
    obtain ⟨pr, hc⟩ := exists_chosen hres
    rw [(check_of_chosen path hc).2] at hfinal
    exact ⟨pr, hc, congrArg Disk.payload hfinal⟩
  · rintro ⟨pr, hc, hx⟩
    obtain ⟨hres, hfinal⟩ := check_of_chosen path hc
    obtain ⟨payload, crc, hp, hcrc, hm⟩ := Disk.valid_iff.mp (valid_of_chosen hc)
    obtain rfl := Option.some.inj (hp.symm.trans hx)
    refine ⟨hres, crc, ?_, hm⟩
    rw [hfinal, Disk.keep, hp, hcrc]

/-! ### What a cut leaves -/

lemma cuts_check {pr : Pair} (h : chosen d = some pr) :
    let moved := moveAll (moves d pr) d
    Proc.cuts (check path) d = moved.before ++
      [moved.final, { moved.final with tmp := none },
        ⟨moved.final.payload, moved.final.crc, none, none⟩] := by
  simp [Proc.cuts, check_apply, plan, h, cleanup_of_found]

/-- A valid pair that is in place is kept, if one of the temporary files is missing. -/
lemma chosen_of_inPlace (hv : d.valid (.payload, .crc) = true) (ht : d.tmp = none ∨ d.crcTmp = none) :
    chosen d = some (.payload, .crc) := by
  have hshort : d.short .crc = false := not_short_of_valid (.payload, .crc) hv
  obtain ⟨payload, crc, hp, hcrc, -⟩ := Disk.valid_iff.mp hv
  obtain ⟨p, c, t, ct⟩ := d
  simp only [Disk.get] at hp hcrc
  subst hp hcrc
  rcases ht with ht | ht <;> simp only at ht <;> subst ht
  · cases ct <;> simp [chosen, reached, table, hv, hshort]
  · cases t <;> simp [chosen, reached, table, hv]

lemma recovers_of_inPlace (hv : d.valid (.payload, .crc) = true) (ht : d.tmp = none ∨ d.crcTmp = none)
    (hx : d.payload = some x) : Recovers path d x :=
  recovers_iff.mpr ⟨_, chosen_of_inPlace hv ht, hx⟩

/-- The payload is in place and its checksum is not. -/
lemma chosen_of_half {payload crcTmp : Bytes} (hm : Matches payload crcTmp) :
    chosen ⟨some payload, none, none, some crcTmp⟩ = some (.payload, .crcTmp) := by
  simp [chosen, reached, table, Disk.valid, Disk.get, hm]

/-- A temporary pair that is valid is chosen whatever the other files are. -/
lemma chosen_of_temporary (hv : d.valid (.tmp, .crcTmp) = true) : chosen d = some (.tmp, .crcTmp) := by
  have hshort : d.short .crcTmp = false := not_short_of_valid (.tmp, .crcTmp) hv
  obtain ⟨tmp, crcTmp, ht, hct, -⟩ := Disk.valid_iff.mp hv
  obtain ⟨p, c, t, ct⟩ := d
  simp only [Disk.get] at ht hct
  subst ht hct
  cases p <;> cases c <;> simp [chosen, reached, table, hv, hshort]

/-! ### The exception -/

/-- The temporary pair is valid, and it replaces another payload, or a checksum without one. -/
def Replaces (d : Disk Bytes) : Prop :=
  d.valid (.tmp, .crcTmp) = true ∧ ¬ (d.payload = none ∧ d.crc = none) ∧ d.payload ≠ d.tmp

instance (d : Disk Bytes) : Decidable (Replaces d) := inferInstanceAs (Decidable (_ ∧ _))

/-- From the last move on the pair is in place. -/
lemma recovers_after_moves {m : Disk Bytes} (hv : m.valid (.payload, .crc) = true)
    (ht : m.tmp = none ∨ m.crcTmp = none) (hx : m.payload = some x) :
    ∀ d' ∈ [m, { m with tmp := none }, (⟨m.payload, m.crc, none, none⟩ : Disk Bytes)],
      Recovers path d' x := by
  simp only [List.forall_mem_cons, List.not_mem_nil, false_implies, implies_true, and_true]
  exact ⟨recovers_of_inPlace hv ht hx, recovers_of_inPlace hv (.inl rfl) hx,
    recovers_of_inPlace hv (.inl rfl) hx⟩

/-- **Where the first check moves nothing, or the checksum only**, the second finds the same pair. -/
lemma cut_recovers_of_payload {pr : Pair} (hc : chosen d = some pr) (hp : pr.1 = .payload)
    (hx : d.payload = some x) : ∀ d' ∈ Proc.cuts (check path) d, Recovers path d' x := by
  have hd : Recovers path d x := recovers_iff.mpr ⟨pr, hc, by rw [hp]; exact hx⟩
  have hv := valid_of_chosen hc
  rw [cuts_check hc]
  rcases chosen_cases hc with rfl | rfl | rfl
  · simp only [moves, moveAll, Proc.pure_apply, List.nil_append, List.forall_mem_cons,
      List.not_mem_nil, false_implies, implies_true, and_true]
    exact ⟨hd, recovers_of_inPlace hv (.inl rfl) hx, recovers_of_inPlace hv (.inl rfl) hx⟩
  · simp only [moves, moveAll, Proc.pure_apply, Proc.bind_apply, Proc.act_apply, List.append_nil,
      List.singleton_append]
    exact List.forall_mem_cons.mpr ⟨hd, recovers_after_moves hv (.inr rfl) hx⟩
  · cases hp

/-- **Where the payload is moved first**, the second check finds it in place or not yet. -/
lemma cut_recovers_of_fresh (hv : d.valid (.tmp, .crcTmp) = true) (hp : d.payload = none)
    (hcrc : d.crc = none) (hx : d.tmp = some x) :
    ∀ d' ∈ Proc.cuts (check path) d, Recovers path d' x := by
  have hc := chosen_of_temporary hv
  have hd : Recovers path d x := recovers_iff.mpr ⟨_, hc, hx⟩
  obtain ⟨payload, crcTmp, ht, hct, hm⟩ := Disk.valid_iff.mp hv
  rw [Option.some.inj (ht.symm.trans hx)] at hm
  have hhalf : Recovers path (d.moved (.tmp, .payload)) x := by
    have heq : d.moved (.tmp, .payload) = ⟨some x, none, none, some crcTmp⟩ := by
      ext1 <;> simp_all [Disk.moved, Disk.set, Disk.get]
    rw [heq]
    exact recovers_iff.mpr ⟨_, chosen_of_half hm, rfl⟩
  rw [cuts_check hc]
  simp only [moves, hp, hcrc, Option.isNone_none, Bool.and_self, if_true, moveAll, Proc.pure_apply,
    Proc.bind_apply, Proc.act_apply, List.append_nil, List.cons_append, List.nil_append]
  exact List.forall_mem_cons.mpr ⟨hd, List.forall_mem_cons.mpr
    ⟨hhalf, recovers_after_moves hv (.inl rfl) hx⟩⟩

/-- The new checksum beside the old payload. -/
lemma recovers_between_iff (hv : d.valid (.tmp, .crcTmp) = true) (hx : d.tmp = some x) :
    Recovers path (d.moved (.crcTmp, .crc)) x ↔ d.payload = d.tmp := by
  rw [hx]
  constructor
  · intro h
    obtain ⟨pr, hc, hpr⟩ := recovers_iff.mp h
    rcases chosen_cases hc with rfl | rfl | rfl
    · exact hpr
    · exact hpr
    · have := valid_of_chosen hc
      simp [Disk.valid, Disk.get, Disk.moved, Disk.set] at this
  · intro hp
    refine recovers_of_inPlace ?_ (.inr rfl) hp
    obtain ⟨payload, crc, ht, hct, hm⟩ := Disk.valid_iff.mp hv
    exact Disk.valid_iff.mpr ⟨payload, crc, hp.trans (hx.symm.trans ht), hct, hm⟩

/-- **Where the checksum is moved first**, all depends on the cut in between. -/
lemma cut_recovers_iff_of_replacing (hv : d.valid (.tmp, .crcTmp) = true)
    (hold : ¬ (d.payload = none ∧ d.crc = none)) (hx : d.tmp = some x) :
    (∀ d' ∈ Proc.cuts (check path) d, Recovers path d' x) ↔ d.payload = d.tmp := by
  have hc := chosen_of_temporary hv
  have hd : Recovers path d x := recovers_iff.mpr ⟨_, hc, hx⟩
  have hnone : (d.payload.isNone && d.crc.isNone) = false := by
    rw [← Bool.not_eq_true, Bool.and_eq_true, Option.isNone_iff_eq_none, Option.isNone_iff_eq_none]
    exact hold
  rw [← recovers_between_iff hv hx, cuts_check hc]
  simp only [moves, hnone, Bool.false_eq_true, if_false, moveAll, Proc.pure_apply,
    Proc.bind_apply, Proc.act_apply, List.append_nil, List.cons_append, List.nil_append]
  exact ⟨fun h => h _ (by simp), fun h => List.forall_mem_cons.mpr ⟨hd, List.forall_mem_cons.mpr
    ⟨h, recovers_after_moves hv (.inl rfl) hx⟩⟩⟩

/-- **A check that is cut and done again recovers the same payload**, unless it replaces one. -/
theorem cut_check_recovers_iff (hres : (check path d).result = 0)
    (hx : (check path d).final.payload = some x) :
    (∀ d' ∈ Proc.cuts (check path) d, Recovers path d' x) ↔ ¬ Replaces d := by
  obtain ⟨pr, hc⟩ := exists_chosen hres
  rw [(check_of_chosen path hc).2] at hx
  by_cases hv : d.valid (.tmp, .crcTmp) = true
  · obtain rfl := Option.some.inj (hc.symm.trans (chosen_of_temporary hv))
    by_cases hold : d.payload = none ∧ d.crc = none
    · exact iff_of_true (cut_recovers_of_fresh hv hold.1 hold.2 hx) fun h => h.2.1 hold
    · rw [cut_recovers_iff_of_replacing hv hold hx]
      exact ⟨fun heq h => h.2.2 heq, fun h => not_not.mp fun hne => h ⟨hv, hold, hne⟩⟩
  · have hp : pr.1 = .payload := by
      rcases chosen_cases hc with rfl | rfl | rfl
      · rfl
      · rfl
      · exact absurd (valid_of_chosen hc) hv
    rw [Disk.keep, hp] at hx
    exact iff_of_true (cut_recovers_of_payload hc hp hx) fun h => hv h.1

end Interrupted

/-- A payload without a checksum, and a temporary pair. -/
def replacing : Disk Bytes := ⟨some [0x61], none, some [], some (crcBytes (crcFromFhd []))⟩

/-- The temporary pair, which a check that is not cut keeps. -/
theorem cut_check_recovers_iff_fresh :
    (check pathF ⟨none, none, some [], some (crcBytes (crcFromFhd []))⟩).result = 0 ∧
      ∀ d' ∈ Proc.cuts (check pathF)
        ⟨none, none, some [], some (crcBytes (crcFromFhd []))⟩,
        Recovers pathF d' [] :=
  ⟨by decide, (cut_check_recovers_iff (by decide) (by decide)).mpr (by decide)⟩

/-- The first check moves the checksum, the second one erases the payload. -/
theorem cut_check_not_recovers :
    (check pathF replacing).result = 0 ∧
      (check pathF replacing).final.payload = some [] ∧
      ∃ d' ∈ Proc.cuts (check pathF) replacing,
        ¬ Recovers pathF d' [] := by
  refine ⟨by decide, by decide, replacing.moved (.crcTmp, .crc), by decide, ?_⟩
  intro h
  exact absurd h.1 (by decide)

end Futils.Safew
