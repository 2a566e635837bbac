import Futils.Safew.Table

/-!
# What the recovery does

The `switch` picks a pair and moves it in place (`recover_eq`): it tries the pairs of the table in
order, except that it gives up at a first checksum file that is too short.  A pathname whose names
do not fit is refused before any file is opened (`check_of_long`).  So the table is met just when the
pathname is short enough, or there is no file, and no second pair is lost (`LosesSecond`).
-/

namespace Futils.Safew

open Futils.Lib

/-! ### The plan -/

/-- A checksum file with less than a checksum in it. -/
def Disk.short (d : Disk Bytes) (n : FileName) : Bool := (d.get n).any fun crc => crc.length < CRC_LEN

/-- The pairs of the table that the code gets to. -/
def reached (d : Disk Bytes) : List Pair :=
  match table d with
  | [first, second] => if d.short first.2 then [] else [first, second]
  | pairs => pairs

/-- The pair that is kept. -/
def chosen (d : Disk Bytes) : Option Pair := (reached d).find? d.valid

/-- A file is moved over another. -/
def Disk.moved (d : Disk Bytes) (m : FileName × FileName) : Disk Bytes :=
  (d.set m.2 (d.get m.1)).set m.1 none

/-- The moves that bring a pair in place, in their order. -/
def moves (d : Disk Bytes) : Pair → List (FileName × FileName)
  | (.payload, .crcTmp) => [(.crcTmp, .crc)]
  | (.tmp, .crcTmp) =>
    if d.payload.isNone && d.crc.isNone then [(.tmp, .payload), (.crcTmp, .crc)]
    else [(.crcTmp, .crc), (.tmp, .payload)]
  | _ => []

def moveAll : List (FileName × FileName) → Proc (Disk Bytes) Unit
  | [] => pure ()
  | m :: ms => do
    Proc.act (Disk.moved · m) ()
    moveAll ms

/-- **What the `switch` comes down to.** -/
def plan (d : Disk Bytes) : Proc (Disk Bytes) ℤ :=
  match chosen d with
  | some pr => do
    moveAll (moves d pr)
    pure 0
  | none => pure (-1)

/-! ### The code follows the plan -/

def noFault (_ : FileName) : Bool := false

lemma rename_apply {C : Type} {d : Disk C} {src dst : FileName} {f : C} (h : d.get src = some f) :
    rename false src dst d = ⟨0, (d.set dst (some f)).set src none, [d]⟩ := by
  simp [rename, fopenRead, h]

lemma short_eq_of_readCrc (crc : Bytes) {o : Option UInt32} (h : readCrc crc = o) :
    decide (crc.length < CRC_LEN) = o.isNone := by
  rw [← h, Bool.eq_iff_iff, decide_eq_true_iff, ← readCrc_eq_none_iff, Option.isNone_iff_eq_none]

/-- The `switch` on the files of `d`, with no fault. -/
def FollowsPlan (d : Disk Bytes) : Prop :=
  recover noFault d.payload d.crc d.tmp d.crcTmp d = plan d d

section Rows

attribute [local simp] FollowsPlan recover plan chosen reached table Disk.valid Disk.short Disk.get
  Disk.set Disk.moved moves moveAll moveBoth noFault rename_apply checkPair_eq

/-- **The code follows the plan**, row by row. -/
theorem recover_eq : ∀ d, FollowsPlan d
  -- no pair
  | ⟨none, none, none, crcTmp⟩ => by cases crcTmp <;> simp
  | ⟨none, none, some _, none⟩ => by simp
  | ⟨none, some _, none, crcTmp⟩ => by cases crcTmp <;> simp
  | ⟨none, some _, some _, none⟩ => by simp
  | ⟨some _, none, tmp, none⟩ => by cases tmp <;> simp
  -- one pair
  | ⟨some payload, some crc, tmp, none⟩ => by
    by_cases hm : Matches payload crc <;> cases tmp <;> simp [hm]
  | ⟨some payload, none, none, some crcTmp⟩ => by
    by_cases hm : Matches payload crcTmp <;> simp [hm]
  | ⟨none, none, some tmp, some crcTmp⟩ => by
    by_cases hm : Matches tmp crcTmp <;> simp [hm]
  | ⟨some _, none, some tmp, some crcTmp⟩ => by
    cases ht : readCrc crcTmp with
    | none => simp [Matches, ht]
    | some tmpCrc => by_cases hm : tmpCrc = crcFromFhd tmp <;> simp [Matches, ht, hm]
  | ⟨none, some _, some tmp, some crcTmp⟩ => by
    cases ht : readCrc crcTmp with
    | none => simp [Matches, ht]
    | some tmpCrc => by_cases hm : tmpCrc = crcFromFhd tmp <;> simp [Matches, ht, hm]
  -- two pairs, the second of which is not reached if the first checksum is short
  | ⟨some payload, some crc, none, some crcTmp⟩ => by
    have hshort := fun o => short_eq_of_readCrc crc (o := o)
    cases hc : readCrc crc with
    | none => simp [hc, hshort _ hc]
    | some c =>
      by_cases hm : c = crcFromFhd payload
      · simp [Matches, hc, hshort _ hc, hm]
      · cases ht : readCrc crcTmp with
        | none => simp [Matches, hc, hshort _ hc, hm, ht]
        | some tmpCrc =>
          by_cases hm' : tmpCrc = crcFromFhd payload <;> simp [Matches, hc, hshort _ hc, hm, ht, hm']
  | ⟨some payload, some crc, some tmp, some crcTmp⟩ => by
    have hshort := fun o => short_eq_of_readCrc crcTmp (o := o)
    cases ht : readCrc crcTmp with
    | none => simp [ht, hshort _ ht]
    | some tmpCrc =>
      by_cases hm : tmpCrc = crcFromFhd tmp
      · simp [Matches, ht, hshort _ ht, hm]
      · cases hc : readCrc crc with
        | none => simp [Matches, hc, hshort _ ht, hm, ht]
        | some c =>
          by_cases hm' : c = crcFromFhd payload <;> simp [Matches, hc, hshort _ ht, hm, ht, hm']

end Rows

/-! ### The whole of the check -/

/-- A check with no fault. -/
abbrev check (path : Path) : Proc (Disk Bytes) ℤ := futilsSafewFileCheck noFault path.name

/-- What comes after the `switch`. -/
def cleanup (ret : ℤ) : Proc (Disk Bytes) ℤ := do
  unlink .tmp
  unlink .crcTmp
  if ret < 0 then
    unlink .payload
    unlink .crc
  pure ret

lemma check_apply (path : Path) (d : Disk Bytes) :
    check path d = (plan d >>= cleanup) d := by
  have hrec : recover noFault d.payload d.crc d.tmp d.crcTmp d = plan d d := recover_eq d
  simp [check, futilsSafewFileCheck, fopenRead, Disk.get, hrec, cleanup]

lemma cleanup_of_found (d : Disk Bytes) :
    cleanup 0 d = ⟨0, ⟨d.payload, d.crc, none, none⟩, [d, { d with tmp := none }]⟩ := by
  simp [cleanup, unlink, Disk.set]

lemma cleanup_of_not_found (d : Disk Bytes) :
    (cleanup (-1) d).result = -1 ∧ (cleanup (-1) d).final = .erased := by
  simp [cleanup, unlink, Disk.set, Disk.erased]

lemma mem_table {d : Disk Bytes} {pr : Pair} (h : pr ∈ table d) :
    pr = (.payload, .crc) ∨ pr = (.payload, .crcTmp) ∨ pr = (.tmp, .crcTmp) := by
  unfold table at h
  split at h <;> simp at h <;> tauto

lemma mem_of_mem_reached {d : Disk Bytes} {pr : Pair} (h : pr ∈ reached d) : pr ∈ table d := by
  unfold reached at h
  split at h
  · split_ifs at h <;> simp_all
  · exact h

lemma chosen_cases {d : Disk Bytes} {pr : Pair} (h : chosen d = some pr) :
    pr = (.payload, .crc) ∨ pr = (.payload, .crcTmp) ∨ pr = (.tmp, .crcTmp) :=
  mem_table (mem_of_mem_reached (List.mem_of_find?_eq_some h))

lemma valid_of_chosen {d : Disk Bytes} {pr : Pair} (h : chosen d = some pr) : d.valid pr = true :=
  List.find?_some h

/-- **The pair that is chosen ends up in place.** -/
theorem check_of_chosen (path : Path) {d : Disk Bytes} {pr : Pair} (h : chosen d = some pr) :
    (check path d).result = 0 ∧ (check path d).final = d.keep pr := by
  rw [check_apply, plan, h]
  rcases chosen_cases h with rfl | rfl | rfl
  · simp [moves, moveAll, cleanup_of_found, Disk.keep, Disk.get]
  · simp [moves, moveAll, cleanup_of_found, Disk.keep, Disk.get, Disk.moved, Disk.set]
  · simp only [moves]
    split_ifs <;> simp [moveAll, cleanup_of_found, Disk.keep, Disk.get, Disk.moved, Disk.set]

theorem check_of_not_chosen (path : Path) {d : Disk Bytes} (h : chosen d = none) :
    (check path d).result = -1 ∧ (check path d).final = .erased := by
  rw [check_apply, plan, h]
  simpa using cleanup_of_not_found d

/-! ### The table -/

/-- The first of two pairs has a short checksum file and the second one is valid. -/
def LosesSecond (d : Disk Bytes) : Prop :=
  ∃ first second, table d = [first, second] ∧ d.short first.2 = true ∧ d.valid second = true

lemma not_valid_of_short {d : Disk Bytes} (pr : Pair) (h : d.short pr.2 = true) :
    d.valid pr = false := by
  obtain ⟨crc, hcrc, hlt⟩ := (Option.any_eq_true _ _).mp h
  rw [← Bool.not_eq_true, Disk.valid_iff]
  rintro ⟨payload, crc', -, hcrc', hm⟩
  obtain rfl := Option.some.inj (hcrc.symm.trans hcrc')
  rw [Matches, readCrc_eq_none_iff.mpr (of_decide_eq_true hlt)] at hm
  cases hm

lemma not_short_of_valid {d : Disk Bytes} (pr : Pair) (h : d.valid pr = true) :
    d.short pr.2 = false := by
  rw [← Bool.not_eq_true]
  intro hs
  rw [not_valid_of_short pr hs] at h
  cases h

lemma chosen_of_losesSecond {d : Disk Bytes} (h : LosesSecond d) : chosen d = none := by
  obtain ⟨first, second, htable, hshort, -⟩ := h
  rw [chosen, reached, htable]
  simp only [hshort, if_true, List.find?_nil]

lemma chosen_of_not_losesSecond {d : Disk Bytes} (h : ¬ LosesSecond d) :
    chosen d = (table d).find? d.valid := by
  rw [chosen, reached]
  split
  case h_2 => rfl
  case h_1 first second htable =>
    split_ifs with hshort
    · have hfirst := not_valid_of_short first hshort
      have hsecond : d.valid second = false := by
        rw [← Bool.not_eq_true]
        exact fun hvalid => h ⟨first, second, htable, hshort, hvalid⟩
      simp [htable, hfirst, hsecond]
    · rw [htable]

lemma check_meetsTable_of_not_losesSecond (path : Path) {d : Disk Bytes} (h : ¬ LosesSecond d) :
    MeetsTable d (check path d) := by
  rw [MeetsTable, ← chosen_of_not_losesSecond h]
  cases hc : chosen d with
  | none =>
    obtain ⟨hres, hfinal⟩ := check_of_not_chosen path hc
    exact ⟨by rw [hres]; decide, hfinal⟩
  | some pr => exact check_of_chosen path hc

lemma not_meetsTable_of_losesSecond (path : Path) {d : Disk Bytes} (h : LosesSecond d) :
    ¬ MeetsTable d (check path d) := by
  have hres := (check_of_not_chosen path (chosen_of_losesSecond h)).1
  obtain ⟨first, second, htable, -, hvalid⟩ := h
  have hfound : ((table d).find? d.valid).isSome = true := by
    rw [List.find?_isSome, htable]
    exact ⟨second, by simp, hvalid⟩
  obtain ⟨pr, hpr⟩ := Option.isSome_iff_exists.mp hfound
  rw [MeetsTable, hpr, hres]
  rintro ⟨hzero, -⟩
  exact absurd hzero (by decide)

/-- A longer pathname is refused, and its files are not looked at. -/
lemma check_of_long {pathname : Bytes} (h : SAFEW_PATH_MAX_LEN ≤ pathname.length) (d : Disk Bytes) :
    futilsSafewFileCheck noFault pathname d = ⟨-1, d, []⟩ := by
  have hfits : FileName.tmp.fits pathname = false := by
    rw [← Bool.not_eq_true, FileName.fits_iff]
    exact Nat.not_lt.mpr h
  simp [futilsSafewFileCheck, hfits]

lemma meetsTable_refused_iff {d : Disk Bytes} : MeetsTable d ⟨-1, d, []⟩ ↔ d = .erased := by
  constructor
  · intro h
    unfold MeetsTable at h
    split at h
    · exact absurd h.1 (by simp)
    · exact h.2
  · rintro rfl
    exact ⟨by decide, rfl⟩

/-- **The check does what the table says**, except where it refuses a longer pathname that has files
and where it loses the second pair. -/
theorem check_meetsTable_iff (pathname : Bytes) (d : Disk Bytes) :
    MeetsTable d (futilsSafewFileCheck noFault pathname d) ↔
      (pathname.length < SAFEW_PATH_MAX_LEN ∨ d = .erased) ∧ ¬ LosesSecond d := by
  rcases Nat.lt_or_ge pathname.length SAFEW_PATH_MAX_LEN with hshort | hlong
  · have hmeets := not_meetsTable_of_losesSecond ⟨pathname, hshort⟩ (d := d)
    constructor
    · exact fun h => ⟨.inl hshort, fun hloses => hmeets hloses h⟩
    · exact fun h => check_meetsTable_of_not_losesSecond ⟨pathname, hshort⟩ h.2
  · rw [check_of_long hlong, meetsTable_refused_iff]
    constructor
    · rintro rfl
      refine ⟨.inr rfl, ?_⟩
      rintro ⟨first, second, htable, -⟩
      cases htable
    · exact fun h => h.1.resolve_left (Nat.not_lt.mpr hlong)

/-- The path `f`. -/
def pathF : Path := ⟨[0x66], by decide⟩

/-- A valid pair beside a temporary payload and an empty temporary checksum. -/
def emptyCrcTmp : Disk Bytes := ⟨some [], some (crcBytes (crcFromFhd [])), some [0x61], some []⟩

/-- The pair is erased. -/
theorem check_not_meetsTable :
    emptyCrcTmp.valid (.payload, .crc) = true ∧
      ¬ MeetsTable emptyCrcTmp (futilsSafewFileCheck noFault pathF.name emptyCrcTmp) := by
  refine ⟨by decide, ?_⟩
  intro hmeets
  have hrow : (table emptyCrcTmp).find? emptyCrcTmp.valid = some (.payload, .crc) := by decide
  rw [MeetsTable, hrow] at hmeets
  exact absurd hmeets.1 (by decide)

end Futils.Safew
