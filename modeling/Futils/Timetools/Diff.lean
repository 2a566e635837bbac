import Futils.Lib.Radix
import Futils.Timetools.Defs

/-!
# Differences of times

The subtraction borrows a second when the nanoseconds are equal, so that the nanoseconds of a difference are
from `1` to a whole second.  Differences are exact and comparable all the same, and the conversions to
nanoseconds and microseconds do not show it; only a difference that should have no nanoseconds does.
-/

namespace Futils.Timetools

open Futils.Lib

variable {t t1 t2 start stop : Timespec}

/-! ### Comparison -/

/-- The comparison, when the nanoseconds come from one second from `a` on. -/
lemma timeTimespecCmp_eq {a : ℤ} (h1 : a ≤ t1.tvNsec.toInt ∧ t1.tvNsec.toInt < a + 1000000000)
    (h2 : a ≤ t2.tvNsec.toInt ∧ t2.tvNsec.toInt < a + 1000000000) :
    timeTimespecCmp (some t1) (some t2) = (t1.ns - t2.ns).sign := by
  have hlt : t1.ns < t2.ns ↔ _ := value_lt_iff (by omega) h1 h2
  have hgt : t2.ns < t1.ns ↔ _ := value_lt_iff (by omega) h2 h1
  simp only [timeTimespecCmp, gt_iff_lt, Int64.lt_iff_toInt_lt]
  rcases lt_trichotomy t1.ns t2.ns with h | h | h
  · rw [Int.sign_eq_neg_one_of_neg (by omega)]
    have hlex := hlt.mp h
    split_ifs <;> omega
  · rw [h, Int.sub_self, Int.sign_zero]
    have hnot1 := fun hlex => h.not_lt (hlt.mpr hlex)
    have hnot2 := fun hlex => h.not_gt (hgt.mpr hlex)
    split_ifs <;> omega
  · rw [Int.sign_eq_one_of_pos (by omega)]
    have hlex := hgt.mp h
    split_ifs <;> omega

lemma cmp_of_normal (h1 : t1.Normal) (h2 : t2.Normal) :
    timeTimespecCmp (some t1) (some t2) = (t1.ns - t2.ns).sign := by
  refine timeTimespecCmp_eq (a := 0) ?_ ?_
  · rwa [Int.zero_add]
  · rwa [Int.zero_add]

lemma cmp_eq_one (h1 : t1.Normal) (h2 : t2.Normal) :
    timeTimespecCmp (some t1) (some t2) = 1 ↔ 0 < t1.ns - t2.ns := by
  rw [cmp_of_normal h1 h2, Int.sign_eq_one_iff_pos]

/-- The nanoseconds determine a time. -/
lemma Timespec.ns_eq_iff (h1 : t1.Normal) (h2 : t2.Normal) : t1.ns = t2.ns ↔ t1 = t2 := by
  have hvalue : t1.ns = t2.ns ↔ _ := value_eq_iff (a := 0) (by omega) (by rwa [Int.zero_add])
    (by rwa [Int.zero_add])
  rw [hvalue, Int64.toInt_inj, Int64.toInt_inj]
  cases t1
  cases t2
  simp

lemma cmp_eq_zero (h1 : t1.Normal) (h2 : t2.Normal) :
    timeTimespecCmp (some t1) (some t2) = 0 ↔ t1 = t2 := by
  rw [cmp_of_normal h1 h2, Int.sign_eq_zero_iff_zero, Int.sub_eq_zero, Timespec.ns_eq_iff h1 h2]

/-- What `time_timespec_diff` refuses. -/
lemma before_iff (h1 : t1.Normal) (h2 : t2.Normal) :
    t1.tvSec < t2.tvSec ∨ t1.tvSec = t2.tvSec ∧ t1.tvNsec < t2.tvNsec ↔ t1.ns < t2.ns := by
  have hvalue : t1.ns < t2.ns ↔ _ := value_lt_iff (a := 0) (by omega) (by rwa [Int.zero_add])
    (by rwa [Int.zero_add])
  rw [hvalue, Int64.lt_iff_toInt_lt, Int64.lt_iff_toInt_lt, ← Int64.toInt_inj]

/-! ### Subtraction -/

/-- What the subtraction gives: a difference is exact, but its nanoseconds end with a whole second. -/
structure DiffOf (start stop d : Timespec) : Prop where
  exact : d.ns = stop.ns - start.ns
  pos : 1 ≤ d.tvNsec.toInt
  le : d.tvNsec.toInt ≤ 1000000000

lemma toInt_borrow (hstart : start.Normal) (hstop : stop.Normal) (h : stop.tvNsec.toInt ≤ start.tvNsec.toInt) :
    (1000000000 + stop.tvNsec.toUInt64 - start.tvNsec.toUInt64).toInt64.toInt =
      1000000000 + stop.tvNsec.toInt - start.tvNsec.toInt := by
  obtain ⟨hstart0, hstart1⟩ := hstart
  obtain ⟨hstop0, hstop1⟩ := hstop
  have hfrom := toNat_toUInt64 start.tvNsec
  have hto := toNat_toUInt64 stop.tvNsec
  have hnat : ((1000000000 + stop.tvNsec.toUInt64 - start.tvNsec.toUInt64).toNat : ℤ) =
      1000000000 + stop.tvNsec.toInt - start.tvNsec.toInt := by
    rw [UInt64.toNat_sub, UInt64.toNat_add]
    simp only [UInt64.reduceToNat]
    omega
  rw [toInt_toInt64 (by omega), hnat]

/-- **The subtraction** succeeds where the seconds of the difference can be represented. -/
lemma timeTimespecDiff_spec (diff : Timespec) (hstart : start.Normal) (hstop : stop.Normal) (hle : start.ns ≤ stop.ns)
    (hfits : Fits (stop.tvSec.toInt - start.tvSec.toInt)) :
    ∃ d, timeTimespecDiff (some start) (some stop) (some diff) = some (0, some d) ∧ DiffOf start stop d := by
  have hordered : ¬ (stop.tvSec < start.tvSec ∨ stop.tvSec = start.tvSec ∧ stop.tvNsec < start.tvNsec) := by
    rw [before_iff hstop hstart]
    exact hle.not_gt
  obtain ⟨hstart0, hstart1⟩ := hstart
  obtain ⟨hstop0, hstop1⟩ := hstop
  unfold Timespec.ns at hle
  simp only [timeTimespecDiff, gt_iff_lt]
  rw [if_neg hordered]
  obtain ⟨sec, hsec⟩ := exists_int64 hfits
  simp only [isub_eq_some.mpr hsec, Option.bind_eq_bind, Option.bind_some]
  by_cases hlt : start.tvNsec < stop.tvNsec
  · have hnat := Int64.lt_iff_toInt_lt.mp hlt
    obtain ⟨nsec, hnsec⟩ : ∃ nsec : Int64, nsec.toInt = stop.tvNsec.toInt - start.tvNsec.toInt :=
      exists_int64 (by unfold Fits; omega)
    rw [if_pos hlt, isub_eq_some.mpr hnsec]
    refine ⟨⟨sec, nsec⟩, rfl, ?_, ?_, ?_⟩
    · simp only [Timespec.ns]
      omega
    · dsimp only
      omega
    · dsimp only
      omega
  · have hnat : stop.tvNsec.toInt ≤ start.tvNsec.toInt := by
      rw [Int64.lt_iff_toInt_lt] at hlt
      omega
    have hnsec := toInt_borrow ⟨hstart0, hstart1⟩ ⟨hstop0, hstop1⟩ hnat
    obtain ⟨sec', hsec'⟩ : ∃ sec' : Int64, sec'.toInt = sec.toInt - (1 : Int64).toInt := by
      refine exists_int64 ?_
      unfold Fits at hfits ⊢
      rw [Int64.toInt_one]
      omega
    rw [if_neg hlt, isub_eq_some.mpr hsec', Option.bind_some]
    rw [Int64.toInt_one] at hsec'
    refine ⟨⟨sec', _⟩, rfl, ?_, ?_, ?_⟩
    · simp only [Timespec.ns, hnsec]
      omega
    · dsimp only
      omega
    · dsimp only
      omega

/-- A difference has less than a second of nanoseconds exactly when the nanoseconds of the times differ. -/
lemma DiffOf.normal_iff {d : Timespec} (hstart : start.Normal) (hstop : stop.Normal) (h : DiffOf start stop d) :
    d.Normal ↔ start.tvNsec ≠ stop.tvNsec := by
  obtain ⟨hexact, hpos, hle⟩ := h
  unfold Timespec.ns at hexact
  unfold Timespec.Normal at *
  rw [Ne, ← Int64.toInt_inj]
  omega

/-- A difference as it should be: normalised and exact. -/
structure NormalDiff (start stop d : Timespec) : Prop where
  sec : 0 ≤ d.tvSec.toInt
  normal : d.Normal
  exact : d.ns = stop.ns - start.ns

lemma DiffOf.normalDiff_iff {d : Timespec} (hstart : start.Normal) (hstop : stop.Normal)
    (hle : start.ns ≤ stop.ns) (h : DiffOf start stop d) :
    NormalDiff start stop d ↔ start.tvNsec ≠ stop.tvNsec := by
  rw [← h.normal_iff hstart hstop]
  constructor
  · exact fun hd => hd.normal
  · intro hd
    refine ⟨?_, hd, h.exact⟩
    have hexact := h.exact
    obtain ⟨hd0, hd1⟩ := hd
    unfold Timespec.ns at hexact hle
    omega

/-- Differences are ordered as they should be, though their nanoseconds are not. -/
lemma DiffOf.cmp {start' stop' d d' : Timespec} (h : DiffOf start stop d) (h' : DiffOf start' stop' d') :
    timeTimespecCmp (some d) (some d') = ((stop.ns - start.ns) - (stop'.ns - start'.ns)).sign := by
  rw [← h.exact, ← h'.exact]
  refine timeTimespecCmp_eq (a := 1) ⟨h.pos, ?_⟩ ⟨h'.pos, ?_⟩
  · have hle := h.le
    omega
  · have hle := h'.le
    omega

/-- Times that can be subtracted. -/
structure InOrder (start stop : Timespec) : Prop where
  normalStart : start.Normal
  normalStop : stop.Normal
  le : start.ns ≤ stop.ns
  fits : Fits (stop.tvSec.toInt - start.tvSec.toInt)

/-- **The difference is normalised** exactly when the nanoseconds differ; it is ordered with other ones as the
durations are. -/
theorem timeTimespecDiff_normal_iff (diff : Timespec) (h : InOrder start stop) :
    (∃ d, timeTimespecDiff (some start) (some stop) (some diff) = some (0, some d) ∧ NormalDiff start stop d ∧
      ∀ start' stop' diff' d', InOrder start' stop' →
        timeTimespecDiff (some start') (some stop') (some diff') = some (0, some d') →
          timeTimespecCmp (some d) (some d') = ((stop.ns - start.ns) - (stop'.ns - start'.ns)).sign) ↔
      start.tvNsec ≠ stop.tvNsec := by
  obtain ⟨d, hd, hdiff⟩ := timeTimespecDiff_spec diff h.normalStart h.normalStop h.le h.fits
  rw [← hdiff.normalDiff_iff h.normalStart h.normalStop h.le]
  constructor
  · rintro ⟨e, he, hnormal, -⟩
    rw [hd, Option.some.injEq, Prod.mk.injEq, Option.some.injEq] at he
    rwa [he.2]
  · intro hnormal
    refine ⟨d, hd, hnormal, ?_⟩
    intro start' stop' diff' d' h' hd'
    obtain ⟨e, he, hdiff'⟩ := timeTimespecDiff_spec diff' h'.normalStart h'.normalStop h'.le h'.fits
    rw [he, Option.some.injEq, Prod.mk.injEq, Option.some.injEq] at hd'
    rw [← hd'.2]
    exact hdiff.cmp hdiff'

theorem timeTimespecDiff_normal_iff_seven :
    ∃ d, timeTimespecDiff (some ⟨5, 7⟩) (some ⟨6, 3⟩) (some ⟨0, 0⟩) = some (0, some d) ∧
      NormalDiff ⟨5, 7⟩ ⟨6, 3⟩ d := by
  have h : InOrder ⟨5, 7⟩ ⟨6, 3⟩ := ⟨by decide, by decide, by decide, by decide⟩
  obtain ⟨d, hd, hnormal, -⟩ := (timeTimespecDiff_normal_iff ⟨0, 0⟩ h).mpr (by decide)
  exact ⟨d, hd, hnormal⟩

/-- The difference of equal times has a whole second of nanoseconds, and a second less than none. -/
theorem timeTimespecDiff_not_normal :
    InOrder ⟨5, 7⟩ ⟨5, 7⟩ ∧
      timeTimespecDiff (some ⟨5, 7⟩) (some ⟨5, 7⟩) (some ⟨0, 0⟩) = some (0, some ⟨-1, 1000000000⟩) ∧
      ¬ NormalDiff ⟨5, 7⟩ ⟨5, 7⟩ ⟨-1, 1000000000⟩ := by
  refine ⟨⟨by decide, by decide, by decide, by decide⟩, by decide, ?_⟩
  intro h
  exact absurd h.sec (by decide)

end Futils.Timetools
