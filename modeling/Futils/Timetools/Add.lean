import Futils.Timetools.Diff

/-!
# Addition to times

The nanoseconds that are added are split by a truncated division, which leaves them with their sign, and one
carry or borrow makes up for it.  The seconds in between lie between those before and those after, so that they
overflow only when the result does.
-/

namespace Futils.Timetools

open Futils.Lib

variable {m : Mem Timespec} {ts res p q : ℕ} {sec nsec delta : Int64} {t : Timespec}

/-! ### Fields -/

@[simp] lemma setSec_tvNsec : (setSec m p sec q).tvNsec = (m q).tvNsec := by
  unfold setSec
  rcases eq_or_ne q p with rfl | h
  · rw [Function.update_self]
  · rw [Function.update_of_ne h]

@[simp] lemma setNsec_setSec : setNsec (setSec m p sec) p nsec = Function.update m p ⟨sec, nsec⟩ := by
  simp [setNsec, setSec]

@[simp] lemma setNsec_update : setNsec (Function.update m p t) p nsec = Function.update m p ⟨t.tvSec, nsec⟩ := by
  simp [setNsec]

@[simp] lemma setSec_update : setSec (Function.update m p t) p sec = Function.update m p ⟨sec, t.tvNsec⟩ := by
  simp [setSec]

/-! ### Nanoseconds -/

/-- The time that is `x` nanoseconds can be represented. -/
def SecFits (x : ℤ) : Prop := Fits (x / 1000000000)

instance (x : ℤ) : Decidable (SecFits x) := inferInstanceAs (Decidable (Fits _))

lemma secFits_ns (h : t.Normal) : SecFits t.ns := by
  have hfits := fits_toInt t.tvSec
  obtain ⟨h0, h1⟩ := h
  unfold SecFits Timespec.ns
  unfold Fits at *
  omega

/-- The carry, when the seconds of the result can be represented. -/
lemma exists_carry {sec nsec : Int64} (hlo : -1000000000 ≤ nsec.toInt) (hhi : nsec.toInt < 2 * 1000000000)
    (hfits : SecFits (Timespec.ns ⟨sec, nsec⟩)) :
    ∃ r : Timespec, r.tvSec.toInt = (carry 1000000000 sec.toInt nsec.toInt).1 ∧
      r.tvNsec.toInt = (carry 1000000000 sec.toInt nsec.toInt).2 ∧ r.Normal ∧
      r.ns = Timespec.ns ⟨sec, nsec⟩ := by
  have hpart := carry_part (q := sec.toInt) hlo hhi
  have hvalue := carry_value 1000000000 sec.toInt nsec.toInt
  obtain ⟨s, hs⟩ : ∃ s : Int64, s.toInt = (carry 1000000000 sec.toInt nsec.toInt).1 := by
    refine exists_int64 ?_
    unfold SecFits Timespec.ns at hfits
    unfold Fits at *
    dsimp only at hfits
    omega
  obtain ⟨n, hn⟩ : ∃ n : Int64, n.toInt = (carry 1000000000 sec.toInt nsec.toInt).2 := by
    refine exists_int64 ?_
    unfold Fits
    omega
  refine ⟨⟨s, n⟩, hs, hn, ?_, ?_⟩
  · unfold Timespec.Normal
    dsimp only
    rwa [hn]
  · unfold Timespec.ns
    dsimp only
    rwa [hs, hn]

/-- The seconds and nanoseconds before the carry. -/
lemma exists_before_carry (hts : t.Normal) (hfits : SecFits (t.ns + delta.toInt)) :
    ∃ sec nsec : Int64, sec.toInt = t.tvSec.toInt + (delta / 1000000000).toInt ∧
      nsec.toInt = t.tvNsec.toInt + (delta % 1000000000).toInt ∧ -1000000000 ≤ nsec.toInt ∧
      nsec.toInt < 2 * 1000000000 ∧ Timespec.ns ⟨sec, nsec⟩ = t.ns + delta.toInt := by
  obtain ⟨h0, h1⟩ := hts
  have hquot : (delta / 1000000000).toInt = delta.toInt.tdiv 1000000000 :=
    Int64.toInt_div_of_ne_right delta 1000000000 (by decide)
  have hrem : (delta % 1000000000).toInt = delta.toInt.tmod 1000000000 := Int64.toInt_mod ..
  have hbounds := part_bounds (B := 1000000000) (by omega) h0 h1 delta.toInt
  have hpart := carry_part (q := t.tvSec.toInt + delta.toInt.tdiv 1000000000) hbounds.1 hbounds.2
  have hvalue := carry_add (B := 1000000000) t.tvSec.toInt t.tvNsec.toInt delta.toInt
  have hbetween := whole_between (B := 1000000000) (by omega) h0 h1 t.tvSec.toInt delta.toInt
  have hfrom := fits_toInt t.tvSec
  obtain ⟨sec, hsec⟩ : ∃ sec : Int64, sec.toInt = t.tvSec.toInt + (delta / 1000000000).toInt := by
    refine exists_int64 ?_
    unfold SecFits Timespec.ns at hfits
    unfold Fits at *
    rw [hquot]
    omega
  obtain ⟨nsec, hnsec⟩ : ∃ nsec : Int64, nsec.toInt = t.tvNsec.toInt + (delta % 1000000000).toInt := by
    refine exists_int64 ?_
    unfold Fits
    rw [hrem]
    omega
  refine ⟨sec, nsec, hsec, hnsec, by omega, by omega, ?_⟩
  rw [carry_value] at hvalue
  unfold Timespec.ns
  rw [hsec, hnsec, hquot, hrem]
  omega

/-- **Addition**: the result is exact and normalised, and nothing else is written. -/
lemma timeTimespecAddNs_spec (m : Mem Timespec) (ts res : ℕ) (delta : Int64) (hts : (m ts).Normal)
    (hfits : SecFits ((m ts).ns + delta.toInt)) :
    ∃ r : Timespec, timeTimespecAddNs m (some ts) delta (some res) = some (0, Function.update m res r) ∧
      r.Normal ∧ r.ns = (m ts).ns + delta.toInt := by
  obtain ⟨sec, nsec, hsec, hnsec, hlo, hhi, hns⟩ := exists_before_carry hts hfits
  rw [← hns] at hfits ⊢
  obtain ⟨r, hrsec, hrnsec, hr⟩ := exists_carry hlo hhi hfits
  refine ⟨r, ?_, hr⟩
  have hone : (1 : Int64).toInt = 1 := Int64.toInt_one
  have hbillion : (1000000000 : Int64).toInt = 1000000000 := rfl
  unfold timeTimespecAddNs
  simp only [Option.bind_eq_bind, iadd_eq_some.mpr hsec, Option.bind_some, setSec_tvNsec,
    iadd_eq_some.mpr hnsec, setNsec_setSec, Function.update_self, ge_iff_le, Int64.le_iff_toInt_le,
    Int64.lt_iff_toInt_lt, hbillion, Int64.toInt_zero]
  unfold carry at hrsec hrnsec
  split_ifs at hrsec hrnsec ⊢ with hcarry hborrow
  · dsimp only at hrsec hrnsec
    rw [← hone] at hrsec
    rw [← hbillion] at hrnsec
    simp only [isub_eq_some.mpr hrnsec, Option.bind_some, setNsec_update, Function.update_self,
      iadd_eq_some.mpr hrsec, setSec_update]
  · dsimp only at hrsec hrnsec
    rw [← hone] at hrsec
    rw [← hbillion] at hrnsec
    simp only [iadd_eq_some.mpr hrnsec, Option.bind_some, setNsec_update, Function.update_self,
      isub_eq_some.mpr hrsec, setSec_update]
  · rw [← Int64.toInt_inj.mp hrsec, ← Int64.toInt_inj.mp hrnsec]

/-! ### Sums and differences -/

/-- The nanoseconds of a time, modulo the size of the type. -/
lemma timeTimespecToNs_eq (t : Timespec) (ns : UInt64) :
    ∃ n : UInt64, timeTimespecToNs (some t) (some ns) = (0, some n) ∧
      (n.toNat : ℤ) = t.ns % 18446744073709551616 := by
  have hsec := toNat_toUInt64 t.tvSec
  have hnsec := toNat_toUInt64 t.tvNsec
  refine ⟨_, rfl, ?_⟩
  rw [UInt64.toNat_add, UInt64.toNat_mul]
  simp only [UInt64.reduceToNat, Timespec.ns]
  omega

/-- One time after another gives the time of their sum. -/
lemma timeTimespecAddNs_add {a b c : Int64} (hts : (m ts).Normal) (hsum : c.toInt = a.toInt + b.toInt)
    (ha : SecFits ((m ts).ns + a.toInt)) (hc : SecFits ((m ts).ns + c.toInt)) (mid res : ℕ) :
    ∃ m₁ m₂ m₃, timeTimespecAddNs m (some ts) a (some mid) = some (0, m₁) ∧
      timeTimespecAddNs m₁ (some mid) b (some res) = some (0, m₂) ∧
      timeTimespecAddNs m (some ts) c (some res) = some (0, m₃) ∧ m₂ res = m₃ res := by
  obtain ⟨r₁, hadd₁, hnormal₁, hns₁⟩ := timeTimespecAddNs_spec m ts mid a hts ha
  have hmid : Function.update m mid r₁ mid = r₁ := Function.update_self mid r₁ m
  have hnext : r₁.ns + b.toInt = (m ts).ns + c.toInt := by omega
  obtain ⟨r₂, hadd₂, hnormal₂, hns₂⟩ := timeTimespecAddNs_spec (Function.update m mid r₁) mid res b
    (by rwa [hmid]) (by rwa [hmid, hnext])
  obtain ⟨r₃, hadd₃, hnormal₃, hns₃⟩ := timeTimespecAddNs_spec m ts res c hts hc
  refine ⟨_, _, _, hadd₁, hadd₂, hadd₃, ?_⟩
  rw [Function.update_self, Function.update_self]
  rw [hmid, hnext, ← hns₃] at hns₂
  exact (Timespec.ns_eq_iff hnormal₂ hnormal₃).mp hns₂

/-- A difference, in nanoseconds, takes the first time to the second one. -/
lemma timeTimespecAddNs_diff {stop : Timespec} (hts : (m ts).Normal) (hstop : stop.Normal)
    (hle : (m ts).ns ≤ stop.ns) (hfits : Fits (stop.ns - (m ts).ns)) (diff : Timespec) (ns : UInt64) (res : ℕ) :
    ∃ d n, timeTimespecDiff (some (m ts)) (some stop) (some diff) = some (0, some d) ∧
      timeTimespecToNs (some d) (some ns) = (0, some n) ∧
      timeTimespecAddNs m (some ts) n.toInt64 (some res) = some (0, Function.update m res stop) := by
  have hsec : Fits (stop.tvSec.toInt - (m ts).tvSec.toInt) := by
    obtain ⟨hts0, hts1⟩ := hts
    obtain ⟨hstop0, hstop1⟩ := hstop
    unfold Timespec.ns at hle hfits
    unfold Fits at *
    omega
  obtain ⟨d, hd, hdiff⟩ := timeTimespecDiff_spec diff hts hstop hle hsec
  obtain ⟨n, hn, hnat⟩ := timeTimespecToNs_eq d ns
  rw [hdiff.exact] at hnat
  have hint : n.toInt64.toInt = stop.ns - (m ts).ns := by
    unfold Fits at hfits
    rw [toInt_toInt64] <;> omega
  have hsum : (m ts).ns + n.toInt64.toInt = stop.ns := by omega
  obtain ⟨r, hadd, hnormal, hns⟩ := timeTimespecAddNs_spec m ts res n.toInt64 hts
    (by rw [hsum]; exact secFits_ns hstop)
  rw [hsum] at hns
  obtain rfl := (Timespec.ns_eq_iff hnormal hstop).mp hns
  exact ⟨d, n, hd, hn, hadd⟩

/-- **Addition of nanoseconds** is exact wherever the result can be represented, also in place; additions compose,
and a difference takes the first time to the second one. -/
theorem timeTimespecAddNs_laws (m : Mem Timespec) (ts res : ℕ) (hts : (m ts).Normal) :
    (∀ delta : Int64, SecFits ((m ts).ns + delta.toInt) →
      ∃ r : Timespec, timeTimespecAddNs m (some ts) delta (some res) = some (0, Function.update m res r) ∧
        r.Normal ∧ r.ns = (m ts).ns + delta.toInt) ∧
    (∀ (a b c : Int64) (mid : ℕ), c.toInt = a.toInt + b.toInt → SecFits ((m ts).ns + a.toInt) →
      SecFits ((m ts).ns + c.toInt) →
        ∃ m₁ m₂ m₃, timeTimespecAddNs m (some ts) a (some mid) = some (0, m₁) ∧
          timeTimespecAddNs m₁ (some mid) b (some res) = some (0, m₂) ∧
          timeTimespecAddNs m (some ts) c (some res) = some (0, m₃) ∧ m₂ res = m₃ res) ∧
    ∀ (stop diff : Timespec) (ns : UInt64), stop.Normal → (m ts).ns ≤ stop.ns →
      Fits (stop.ns - (m ts).ns) →
        ∃ d n, timeTimespecDiff (some (m ts)) (some stop) (some diff) = some (0, some d) ∧
          timeTimespecToNs (some d) (some ns) = (0, some n) ∧
          timeTimespecAddNs m (some ts) n.toInt64 (some res) = some (0, Function.update m res stop) := by
  refine ⟨?_, ?_, ?_⟩
  · intro delta hfits
    exact timeTimespecAddNs_spec m ts res delta hts hfits
  · intro a b c mid hsum ha hc
    exact timeTimespecAddNs_add hts hsum ha hc mid res
  · intro stop diff ns hstop hle hfits
    exact timeTimespecAddNs_diff hts hstop hle hfits diff ns res

/-- In place: a nanosecond less than the first second. -/
theorem timeTimespecAddNs_laws_borrow :
    ∃ r : Timespec, timeTimespecAddNs (fun _ => ⟨1, 0⟩) (some 4) (-1) (some 4) =
        some (0, Function.update (fun _ => ⟨1, 0⟩) 4 r) ∧ r.Normal ∧ r.ns = 999999999 := by
  have hts : Timespec.Normal ⟨1, 0⟩ := by decide
  obtain ⟨r, hadd, hnormal, hns⟩ := (timeTimespecAddNs_laws (fun _ => ⟨1, 0⟩) 4 4 hts).1 (-1) (by decide)
  exact ⟨r, hadd, hnormal, hns.trans (by decide)⟩

/-! ### Microseconds -/

/-- Microseconds of which the nanoseconds fit in 64 bits. -/
lemma timeTimespecAddUs_spec (m : Mem Timespec) (ts res : ℕ) (delta : Int64) (hts : (m ts).Normal)
    (hfits : SecFits ((m ts).ns + delta.toInt * 1000)) (hmul : Fits (delta.toInt * 1000)) :
    ∃ r : Timespec, timeTimespecAddUs m (some ts) delta (some res) = some (0, Function.update m res r) ∧
      r.Normal ∧ r.ns = (m ts).ns + delta.toInt * 1000 := by
  have hthousand : (1000 : Int64).toInt = 1000 := rfl
  obtain ⟨ns, hns⟩ := exists_int64 hmul
  unfold timeTimespecAddUs imul
  rw [hthousand, int64_eq_some.mpr hns, Option.bind_eq_bind, Option.bind_some]
  rw [← hns] at hfits ⊢
  exact timeTimespecAddNs_spec m ts res ns hts hfits

/-- **Addition of microseconds** is exact exactly when their nanoseconds fit in 64 bits. -/
theorem timeTimespecAddUs_iff (m : Mem Timespec) (ts res : ℕ) (delta : Int64) (hts : (m ts).Normal)
    (hfits : SecFits ((m ts).ns + delta.toInt * 1000)) :
    (∃ r : Timespec, timeTimespecAddUs m (some ts) delta (some res) = some (0, Function.update m res r) ∧
        r.Normal ∧ r.ns = (m ts).ns + delta.toInt * 1000) ↔
      -9223372036854775 ≤ delta.toInt ∧ delta.toInt ≤ 9223372036854775 := by
  have hrange : (-9223372036854775 ≤ delta.toInt ∧ delta.toInt ≤ 9223372036854775) ↔
      Fits (delta.toInt * 1000) := by
    unfold Fits
    omega
  rw [hrange]
  constructor
  · rintro ⟨r, hadd, -⟩
    have hthousand : (1000 : Int64).toInt = 1000 := rfl
    by_contra hover
    unfold timeTimespecAddUs imul at hadd
    rw [hthousand, int64_eq_none.mpr hover] at hadd
    cases hadd
  · exact timeTimespecAddUs_spec m ts res delta hts hfits

theorem timeTimespecAddUs_iff_carry :
    ∃ r : Timespec, timeTimespecAddUs (fun _ => ⟨1, 999999999⟩) (some 4) 1 (some 5) =
        some (0, Function.update (fun _ => ⟨1, 999999999⟩) 5 r) ∧ r.Normal ∧ r.ns = 2000000999 := by
  have hts : Timespec.Normal ⟨1, 999999999⟩ := by decide
  obtain ⟨r, hadd, hnormal, hns⟩ := (timeTimespecAddUs_iff (fun _ => ⟨1, 999999999⟩) 4 5 1 hts
    (by decide)).mpr (by decide)
  exact ⟨r, hadd, hnormal, hns.trans (by decide)⟩

/-- Three hundred years are too much. -/
theorem timeTimespecAddUs_overflow :
    SecFits (Timespec.ns ⟨0, 0⟩ + (9467280000000000 : Int64).toInt * 1000) ∧
      timeTimespecAddUs (fun _ => ⟨0, 0⟩) (some 4) 9467280000000000 (some 5) = none :=
  ⟨by decide, rfl⟩

end Futils.Timetools
