import Futils.Timetools.Add

/-!
# The deadline of a blocking push (`src/dynmbox.c`)

`dynmbox_push_block` converts the time of day and adds the timeout to it.  The timeout is converted to
microseconds in an unsigned type of 32 bits, so that the deadlines of timeouts above 4294967 milliseconds come
too early.
-/

namespace Futils.Dynmbox

open Futils.Lib Futils.Timetools

/-- The addresses of `ts_now` and `ts_abs`. -/
def TS_NOW : ℕ := 0
def TS_ABS : ℕ := 1

/-- `ts_abs`, when `gettimeofday` gives `tvNow`; `stack` is what the variables hold before.  A timeout of zero
has no deadline in the source. -/
def pushBlockDeadline (stack : Mem Timespec) (tvNow : Timeval) (timeoutMs : UInt32) : Option Timespec := do
  let now ← timeTimevalToTimespec (some tvNow) stack (some TS_NOW)
  let abs ← timeTimespecAddUs now.2 (some TS_NOW) (timeoutMs * 1000).toUInt64.toInt64 (some TS_ABS)
  some (abs.2 TS_ABS)

/-- The nanoseconds of a time of day. -/
def timevalNs (tv : Timeval) : ℤ := tv.tvSec.toInt * 1000000000 + tv.tvUsec.toInt * 1000

/-- A time of day, as `gettimeofday` gives it. -/
def TimeOfDay (tv : Timeval) : Prop := 0 ≤ tv.tvUsec.toInt ∧ tv.tvUsec.toInt < 1000000

instance (tv : Timeval) : Decidable (TimeOfDay tv) := inferInstanceAs (Decidable (_ ∧ _))

/-- The deadline that is asked for. -/
def requestedNs (tvNow : Timeval) (timeoutMs : UInt32) : ℤ := timevalNs tvNow + timeoutMs.toNat * 1000000

/-- The deadline is the one that is asked for, and those of shorter timeouts come before it. -/
def DeadlineExact (stack : Mem Timespec) (tvNow : Timeval) (timeoutMs : UInt32) : Prop :=
  ∃ d, pushBlockDeadline stack tvNow timeoutMs = some d ∧ d.Normal ∧ d.ns = requestedNs tvNow timeoutMs ∧
    ∀ shorter < timeoutMs, ∃ d', pushBlockDeadline stack tvNow shorter = some d' ∧ d'.ns < d.ns

variable {tvNow : Timeval}

lemma timeTimevalToTimespec_spec (hday : TimeOfDay tvNow) (stack : Mem Timespec) (ts : ℕ) :
    ∃ now : Timespec, timeTimevalToTimespec (some tvNow) stack (some ts) =
        some (0, Function.update stack ts now) ∧ now.Normal ∧ now.ns = timevalNs tvNow := by
  obtain ⟨h0, h1⟩ := hday
  have hthousand : (1000 : Int64).toInt = 1000 := rfl
  obtain ⟨nsec, hnsec⟩ : ∃ nsec : Int64, nsec.toInt = tvNow.tvUsec.toInt * (1000 : Int64).toInt := by
    refine exists_int64 ?_
    unfold Fits
    rw [hthousand]
    omega
  have hset : timeTimevalToTimespec (some tvNow) stack (some ts) =
      some (0, Function.update stack ts ⟨tvNow.tvSec, nsec⟩) := by
    simp only [timeTimevalToTimespec, imul_eq_some.mpr hnsec, Option.bind_eq_bind, Option.bind_some,
      setNsec_setSec]
  rw [hthousand] at hnsec
  refine ⟨⟨tvNow.tvSec, nsec⟩, hset, ?_, ?_⟩
  · unfold Timespec.Normal
    dsimp only
    omega
  · unfold Timespec.ns timevalNs
    dsimp only
    omega

/-- The microseconds of the timeout wrap. -/
lemma toInt_timeoutUs (timeoutMs : UInt32) :
    (timeoutMs * 1000).toUInt64.toInt64.toInt = timeoutMs.toNat * 1000 % 4294967296 := by
  have hnat : (timeoutMs * 1000).toUInt64.toNat = timeoutMs.toNat * 1000 % 4294967296 := by
    rw [UInt32.toNat_toUInt64, UInt32.toNat_mul]
    rfl
  rw [toInt_toInt64 (by omega), hnat]
  omega

/-- Times between two that can be represented can be represented. -/
lemma secFits_of_between {x y z : ℤ} (hx : SecFits x) (hz : SecFits z) (hxy : x ≤ y) (hyz : y ≤ z) :
    SecFits y := by
  unfold SecFits Fits at *
  omega

/-- The deadline, with the wrap. -/
lemma pushBlockDeadline_spec (stack : Mem Timespec) (timeoutMs : UInt32) (hday : TimeOfDay tvNow)
    (hfits : SecFits (timevalNs tvNow + timeoutMs.toNat * 1000 % 4294967296 * 1000)) :
    ∃ d, pushBlockDeadline stack tvNow timeoutMs = some d ∧ d.Normal ∧
      d.ns = timevalNs tvNow + timeoutMs.toNat * 1000 % 4294967296 * 1000 := by
  obtain ⟨now, hnow, hnormal, hns⟩ := timeTimevalToTimespec_spec hday stack TS_NOW
  have hus := toInt_timeoutUs timeoutMs
  have hself : Function.update stack TS_NOW now TS_NOW = now := Function.update_self TS_NOW now stack
  rw [← hns, ← hus] at hfits ⊢
  obtain ⟨d, hd, hdnormal, hdns⟩ := timeTimespecAddUs_spec (Function.update stack TS_NOW now) TS_NOW TS_ABS
    (timeoutMs * 1000).toUInt64.toInt64 (by rwa [hself]) (by rwa [hself]) (by unfold Fits; omega)
  refine ⟨d, ?_, hdnormal, ?_⟩
  · unfold pushBlockDeadline
    simp only [hnow, hd, Option.bind_eq_bind, Option.bind_some, Function.update_self]
  · rw [hdns, hself]

/-- Where the microseconds do not wrap, the deadline is the one that is asked for. -/
lemma pushBlockDeadline_of_le (stack : Mem Timespec) (timeoutMs : UInt32) (hday : TimeOfDay tvNow)
    (hle : timeoutMs.toNat ≤ 4294967) (hfits : SecFits (requestedNs tvNow timeoutMs)) :
    ∃ d, pushBlockDeadline stack tvNow timeoutMs = some d ∧ d.Normal ∧ d.ns = requestedNs tvNow timeoutMs := by
  have hus : (timeoutMs.toNat : ℤ) * 1000 % 4294967296 * 1000 = timeoutMs.toNat * 1000000 := by omega
  unfold requestedNs at *
  rw [← hus] at hfits ⊢
  exact pushBlockDeadline_spec stack timeoutMs hday hfits

/-- The time of day can be represented. -/
lemma secFits_timevalNs (hday : TimeOfDay tvNow) : SecFits (timevalNs tvNow) := by
  have hfits := fits_toInt tvNow.tvSec
  obtain ⟨h0, h1⟩ := hday
  unfold SecFits timevalNs
  unfold Fits at *
  omega

/-- **The deadline is the requested one** exactly when the timeout in microseconds fits in 32 bits, and the
seconds of the deadline in 64. -/
theorem pushBlockDeadline_iff (stack : Mem Timespec) (tvNow : Timeval) (timeoutMs : UInt32)
    (hday : TimeOfDay tvNow) :
    DeadlineExact stack tvNow timeoutMs ↔
      timeoutMs.toNat ≤ 4294967 ∧ SecFits (requestedNs tvNow timeoutMs) := by
  have hnow := secFits_timevalNs hday
  constructor
  · rintro ⟨d, hd, hnormal, hns, -⟩
    have hfits : SecFits (requestedNs tvNow timeoutMs) := hns ▸ secFits_ns hnormal
    refine ⟨?_, hfits⟩
    unfold requestedNs at hns hfits
    obtain ⟨d', hd', -, hns'⟩ := pushBlockDeadline_spec stack timeoutMs hday
      (secFits_of_between hnow hfits (by omega) (by omega))
    rw [hd] at hd'
    obtain rfl := Option.some.inj hd'
    omega
  · rintro ⟨hle, hfits⟩
    obtain ⟨d, hd, hnormal, hns⟩ := pushBlockDeadline_of_le stack timeoutMs hday hle hfits
    refine ⟨d, hd, hnormal, hns, ?_⟩
    intro shorter hlt
    have hnat : shorter.toNat < timeoutMs.toNat := UInt32.lt_iff_toNat_lt.mp hlt
    have hshorter : requestedNs tvNow shorter < requestedNs tvNow timeoutMs := by
      unfold requestedNs
      omega
    have hlater : timevalNs tvNow ≤ requestedNs tvNow shorter := by
      unfold requestedNs
      omega
    obtain ⟨d', hd', -, hns'⟩ := pushBlockDeadline_of_le stack shorter hday (by omega)
      (secFits_of_between hnow hfits hlater hshorter.le)
    exact ⟨d', hd', by omega⟩

theorem pushBlockDeadline_iff_hour : DeadlineExact (fun _ => ⟨0, 0⟩) ⟨1700000000, 999999⟩ 3600000 :=
  (pushBlockDeadline_iff (fun _ => ⟨0, 0⟩) ⟨1700000000, 999999⟩ 3600000 (by decide)).mpr
    ⟨by decide, by decide⟩

/-- A timeout of 4294968 milliseconds ends before one of a single millisecond. -/
theorem pushBlockDeadline_not_exact :
    TimeOfDay ⟨1700000000, 0⟩ ∧
      pushBlockDeadline (fun _ => ⟨0, 0⟩) ⟨1700000000, 0⟩ 4294968 = some ⟨1700000000, 704000⟩ ∧
      pushBlockDeadline (fun _ => ⟨0, 0⟩) ⟨1700000000, 0⟩ 1 = some ⟨1700000000, 1000000⟩ ∧
      ¬ DeadlineExact (fun _ => ⟨0, 0⟩) ⟨1700000000, 0⟩ 4294968 := by
  have hwrapped : pushBlockDeadline (fun _ => ⟨0, 0⟩) ⟨1700000000, 0⟩ 4294968 =
      some ⟨1700000000, 704000⟩ := by decide
  refine ⟨by decide, hwrapped, by decide, ?_⟩
  rintro ⟨d, hd, -, hns, -⟩
  rw [hwrapped] at hd
  rw [← Option.some.inj hd] at hns
  exact absurd hns (by decide)

end Futils.Dynmbox
