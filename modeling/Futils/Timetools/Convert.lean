import Futils.Timetools.Range

/-!
# Units of times

A time is a number of nanoseconds, and the conversions count it in units of `1`, `1000` or `1000000` of
them, rounded down; from the units on they are exact.  The conversion between the clocks rounds three
readings, and is off by what passes while they are taken.
-/

namespace Futils.Timetools

open Futils.Lib

variable {t : Timespec}

/-! ### The conversions -/

inductive TimeUnit
  | ns
  | us
  | ms
  deriving DecidableEq

/-- How many of them are a second. -/
def TimeUnit.perSec : TimeUnit → UInt64
  | .ns => 1000000000
  | .us => 1000000
  | .ms => 1000

/-- How many nanoseconds are one. -/
def TimeUnit.nsecs : TimeUnit → UInt64
  | .ns => 1
  | .us => 1000
  | .ms => 1000000

def timeTimespecToMs (value : Option Timespec) (ms : Option UInt64) : ℤ × Option UInt64 :=
  match value, ms with
  | some value, some _ => (0, some (value.tvSec.toUInt64 * 1000 + value.tvNsec.toUInt64 / 1000000))
  | _, _ => (-EINVAL, ms)

/-- The time from a number of units. -/
def toTimespec (unit : TimeUnit) (value : Option UInt64) (ts : Option Timespec) : ℤ × Option Timespec :=
  match value, ts with
  | some value, some _ => (0, some ⟨(value / unit.perSec).toInt64, (value % unit.perSec * unit.nsecs).toInt64⟩)
  | _, _ => (-EINVAL, ts)

def timeNsToTimespec : Option UInt64 → Option Timespec → ℤ × Option Timespec := toTimespec .ns

def timeUsToTimespec : Option UInt64 → Option Timespec → ℤ × Option Timespec := toTimespec .us

def timeMsToTimespec : Option UInt64 → Option Timespec → ℤ × Option Timespec := toTimespec .ms

/-- The number of units of a time. -/
def ofTimespec : TimeUnit → Option Timespec → Option UInt64 → ℤ × Option UInt64
  | .ns => timeTimespecToNs
  | .us => timeTimespecToUs
  | .ms => timeTimespecToMs

/-- `*ms` has 32 bits. -/
def timeTimevalToMs (value : Option Timeval) (ms : Option UInt32) : ℤ × Option UInt32 :=
  match value, ms with
  | some value, some _ =>
    let sec := value.tvSec.toUInt64.toUInt32
    (0, some (sec.toUInt64 * 1000 + value.tvUsec.toUInt64 / 1000).toUInt32)
  | _, _ => (-EINVAL, ms)

/-! ### Units -/

lemma toNat_units (unit : TimeUnit) :
    unit = .ns ∧ unit.perSec.toNat = 1000000000 ∧ unit.nsecs.toNat = 1 ∨
      unit = .us ∧ unit.perSec.toNat = 1000000 ∧ unit.nsecs.toNat = 1000 ∨
        unit = .ms ∧ unit.perSec.toNat = 1000 ∧ unit.nsecs.toNat = 1000000 := by
  cases unit with
  | ns => exact .inl ⟨rfl, rfl, rfl⟩
  | us => exact .inr (.inl ⟨rfl, rfl, rfl⟩)
  | ms => exact .inr (.inr ⟨rfl, rfl, rfl⟩)

/-- **The number of units** of a time, modulo the size of the type. -/
lemma ofTimespec_eq (unit : TimeUnit) (out : UInt64) (h : 0 ≤ t.tvNsec.toInt) :
    ∃ n : UInt64, ofTimespec unit (some t) (some out) = (0, some n) ∧
      (n.toNat : ℤ) = t.ns / unit.nsecs.toNat % 18446744073709551616 := by
  have hsec := toNat_toUInt64 t.tvSec
  have hnsec := toNat_toUInt64 t.tvNsec
  have hsec1 := t.tvSec.le_toInt
  have hnsec1 := t.tvNsec.toInt_lt
  cases unit with
  | ns =>
    refine ⟨_, rfl, ?_⟩
    rw [UInt64.toNat_add, UInt64.toNat_mul]
    simp only [UInt64.reduceToNat, Timespec.ns, TimeUnit.nsecs]
    omega
  | us => exact timeTimespecToUs_eq out h
  | ms =>
    refine ⟨_, rfl, ?_⟩
    rw [UInt64.toNat_add, UInt64.toNat_mul, UInt64.toNat_div]
    simp only [UInt64.reduceToNat, Timespec.ns, TimeUnit.nsecs]
    omega

/-- **The time** from a number of units. -/
lemma toTimespec_eq (unit : TimeUnit) (v : UInt64) (out : Timespec) :
    ∃ t, toTimespec unit (some v) (some out) = (0, some t) ∧ t.Normal ∧ t.ns = v.toNat * unit.nsecs.toNat := by
  have hlt := v.toNat_lt
  refine ⟨_, rfl, ?_⟩
  rcases toNat_units unit with ⟨-, hper, hn⟩ | ⟨-, hper, hn⟩ | ⟨-, hper, hn⟩
  all_goals
    have hsec : (v / unit.perSec).toNat = v.toNat / unit.perSec.toNat := UInt64.toNat_div ..
    have hnsec : (v % unit.perSec * unit.nsecs).toNat = v.toNat % unit.perSec.toNat * unit.nsecs.toNat := by
      rw [UInt64.toNat_mul, UInt64.toNat_mod, hper, hn]
      exact Nat.mod_eq_of_lt (by omega)
    rw [hper] at hsec
    rw [hper, hn] at hnsec
    unfold Timespec.Normal Timespec.ns
    dsimp only
    rw [toInt_toInt64 (by omega), toInt_toInt64 (by omega), hsec, hnsec, hn]
    omega

/-! ### There and back -/

/-- A time that can be counted in the unit. -/
def Timespec.Counts (t : Timespec) (unit : TimeUnit) : Prop :=
  0 ≤ t.ns ∧ t.ns / unit.nsecs.toNat < 18446744073709551616

instance (t : Timespec) (unit : TimeUnit) : Decidable (t.Counts unit) := inferInstanceAs (Decidable (_ ∧ _))

lemma ofTimespec_of_counts {unit : TimeUnit} (hnormal : t.Normal) (hcounts : t.Counts unit) (out : UInt64) :
    ∃ n : UInt64, ofTimespec unit (some t) (some out) = (0, some n) ∧
      (n.toNat : ℤ) = t.ns / unit.nsecs.toNat := by
  obtain ⟨n, hn, hnat⟩ := ofTimespec_eq unit out hnormal.1
  refine ⟨n, hn, ?_⟩
  rw [hnat]
  exact Int.emod_eq_of_lt (Int.ediv_nonneg hcounts.1 (Int.natCast_nonneg _)) hcounts.2

/-- The milliseconds of a time of 64 bits, and of the same time in microseconds. -/
lemma timeTimevalToMs_eq (tv : Timeval) (out : UInt32) (h : 0 ≤ tv.tvUsec.toInt) :
    ∃ n : UInt32, timeTimevalToMs (some tv) (some out) = (0, some n) ∧
      (n.toNat : ℤ) = (tv.tvSec.toInt * 1000000 + tv.tvUsec.toInt) / 1000 % 4294967296 := by
  have hsec := toNat_toUInt64 tv.tvSec
  have husec := toNat_toUInt64 tv.tvUsec
  have husec1 := tv.tvUsec.toInt_lt
  refine ⟨_, rfl, ?_⟩
  rw [UInt64.toNat_toUInt32, UInt64.toNat_add, UInt64.toNat_mul, UInt64.toNat_div, UInt32.toNat_toUInt64,
    UInt64.toNat_toUInt32]
  simp only [UInt64.reduceToNat]
  omega

/-- A clock is read: an error number, negated, or `0`. -/
abbrev Reading := Except ℕ+ Timespec

/-- The microseconds of a reading, which is in a local variable. -/
def usOf (t : Timespec) : UInt64 := (timeTimespecToUs (some t) (some 0)).2.getD 0

/-- The return value and `*rt_us`; the clocks are read one after the other. -/
def timeMonotonicToRealtimeUs1 (mono1 real mono2 : Reading) (mtUs : UInt64) (rtUs : Option UInt64) :
    ℤ × Option UInt64 :=
  match rtUs with
  | none => (-EINVAL, none)
  | some _ =>
    let readings := do
      let mtNow1 ← mono1
      let rtNow ← real
      let mtNow2 ← mono2
      return (usOf mtNow1, usOf rtNow, usOf mtNow2)
    match readings with
    | .error err => (-(err : ℕ), rtUs)
    | .ok (mtNow1Us, rtNowUs, mtNow2Us) =>
      let mtNowUs := (mtNow1Us + mtNow2Us + 1) / 2
      let durationUs := mtNowUs - mtUs
      (0, some (rtNowUs - durationUs))

/-- Without `libputils`. -/
def timeMonotonicToRealtimeUs (mono1 real mono2 : Reading) (mtUs : UInt64) (rtUs : Option UInt64) :
    ℤ × Option UInt64 :=
  match rtUs with
  | none => (-EINVAL, none)
  | some _ => timeMonotonicToRealtimeUs1 mono1 real mono2 mtUs rtUs

def timeMonotonicToRealtimeMs (mono1 real mono2 : Reading) (mtMs : UInt64) (rtMs : Option UInt64) :
    ℤ × Option UInt64 :=
  match rtMs with
  | none => (-EINVAL, none)
  | some _ =>
    let rt := timeMonotonicToRealtimeUs mono1 real mono2 (mtMs * 1000) (some 0)
    if rt.1 < 0 then (rt.1, rtMs) else (0, some ((rt.2.getD 0 + 500) / 1000))

/-- The monotonic clock is read before and after the other one, which is ahead of it by `offset`
nanoseconds.  Twice the time since the start of the first clock can be counted, and so can the time of the
other one. -/
structure Window (m₁ r m₂ : Timespec) (offset : ℤ) : Prop where
  normal₁ : m₁.Normal
  normal : r.Normal
  normal₂ : m₂.Normal
  start : 0 ≤ m₁.ns
  before : m₁.ns ≤ r.ns - offset
  after : r.ns - offset ≤ m₂.ns
  room₂ : m₂.ns / 1000 < 9223372036854775807
  counts : r.Counts .us

lemma usOf_eq (hnormal : t.Normal) (hcounts : t.Counts .us) : ((usOf t).toNat : ℤ) = t.ns / 1000 := by
  obtain ⟨n, hn, hnat⟩ := ofTimespec_of_counts hnormal hcounts 0
  unfold usOf
  change timeTimespecToUs (some t) (some 0) = _ at hn
  rw [hn]
  exact hnat

/-- The middle of the two readings of the monotonic clock. -/
lemma toNat_middle {a b : UInt64} (h : a.toNat + b.toNat + 1 < 18446744073709551616) :
    ((a + b + 1) / 2).toNat = (a.toNat + b.toNat + 1) / 2 := by
  rw [UInt64.toNat_div, UInt64.toNat_add, UInt64.toNat_add]
  simp only [UInt64.reduceToNat]
  omega

/-- A real time, in nanoseconds, that can be represented with half of the window and half of `margin` to
spare. -/
def InRange (margin : ℤ) (m₁ m₂ : Timespec) (exact : ℤ) : Prop :=
  m₂.ns - m₁.ns + margin ≤ 2 * exact ∧
    2 * exact + (m₂.ns - m₁.ns) + margin ≤ 36893488147419103230000

instance (margin : ℤ) (m₁ m₂ : Timespec) (exact : ℤ) : Decidable (InRange margin m₁ m₂ exact) :=
  inferInstanceAs (Decidable (_ ∧ _))

lemma InRange.mono {margin margin' : ℤ} {m₁ m₂ : Timespec} {exact : ℤ} (h : InRange margin m₁ m₂ exact)
    (hle : margin' ≤ margin) : InRange margin' m₁ m₂ exact := by
  obtain ⟨hlow, hhigh⟩ := h
  constructor <;> omega

/-- How far off the conversion to microseconds is: the readings are rounded by less than a microsecond
each, and the real-time clock is read within half of the window of its middle. -/
lemma realtime_error {m₁ r m₂ : Timespec} {offset : ℤ} (h : Window m₁ r m₂ offset) {mtUs : UInt64}
    (hrange : InRange 3000 m₁ m₂ (mtUs.toNat * 1000 + offset)) (out : UInt64) :
    ∃ rt : UInt64, timeMonotonicToRealtimeUs (.ok m₁) (.ok r) (.ok m₂) mtUs (some out) = (0, some rt) ∧
      2 * |1000 * (rt.toNat : ℤ) - (mtUs.toNat * 1000 + offset)| ≤ m₂.ns - m₁.ns + 3000 := by
  obtain ⟨hnormal₁, hnormal, hnormal₂, hstart, hbefore, hafter, hroom, hcounts⟩ := h
  obtain ⟨hlow, hhigh⟩ := hrange
  have hm₁ := usOf_eq hnormal₁ ⟨hstart, show m₁.ns / 1000 < _ by omega⟩
  have hr := usOf_eq hnormal hcounts
  have hm₂ := usOf_eq hnormal₂ ⟨by omega, show m₂.ns / 1000 < _ by omega⟩
  obtain ⟨a, ha⟩ : ∃ a, a = usOf m₁ := ⟨_, rfl⟩
  obtain ⟨b, hb⟩ : ∃ b, b = usOf m₂ := ⟨_, rfl⟩
  obtain ⟨c, hc⟩ : ∃ c, c = usOf r := ⟨_, rfl⟩
  rw [← ha] at hm₁
  rw [← hb] at hm₂
  rw [← hc] at hr
  have hmiddle := toNat_middle (a := a) (b := b) (by omega)
  have hmt := mtUs.toNat_lt
  obtain ⟨mid, hmid⟩ : ∃ mid, mid = (a + b + 1) / 2 := ⟨_, rfl⟩
  rw [← hmid] at hmiddle
  obtain ⟨x, hx⟩ : ∃ x : ℤ, x = c.toNat - mid.toNat + mtUs.toNat := ⟨_, rfl⟩
  have herror : 2 * (1000 * x - (mtUs.toNat * 1000 + offset)) ≤ m₂.ns - m₁.ns + 3000 ∧
      2 * ((mtUs.toNat * 1000 + offset) - 1000 * x) ≤ m₂.ns - m₁.ns + 3000 := by
    constructor <;> omega
  have hexact : ((c - (mid - mtUs)).toNat : ℤ) = x := by
    rw [UInt64.toNat_sub, UInt64.toNat_sub]
    omega
  refine ⟨c - (mid - mtUs), ?_, ?_⟩
  · rw [hmid, ha, hb, hc]
    rfl
  · rw [hexact]
    rcases abs_cases (1000 * x - (mtUs.toNat * 1000 + offset)) with ⟨habs, -⟩ | ⟨habs, -⟩
    all_goals
      rw [habs]
      omega

/-- Milliseconds are rounded to the nearest. -/
lemma realtime_error_ms {m₁ r m₂ : Timespec} {offset : ℤ} (h : Window m₁ r m₂ offset) {mtMs : UInt64}
    (hmt : mtMs.toNat * 1000 < 18446744073709551616)
    (hrange : InRange 1003000 m₁ m₂ (mtMs.toNat * 1000000 + offset)) (out : UInt64) :
    ∃ rt : UInt64, timeMonotonicToRealtimeMs (.ok m₁) (.ok r) (.ok m₂) mtMs (some out) = (0, some rt) ∧
      2 * |1000000 * (rt.toNat : ℤ) - (mtMs.toNat * 1000000 + offset)| ≤ m₂.ns - m₁.ns + 1003000 := by
  have hus : (mtMs * 1000).toNat = mtMs.toNat * 1000 := by
    rw [UInt64.toNat_mul]
    exact Nat.mod_eq_of_lt hmt
  have hexact : ((mtMs * 1000).toNat : ℤ) * 1000 + offset = mtMs.toNat * 1000000 + offset := by
    rw [hus]
    omega
  have hrange' : InRange 3000 m₁ m₂ ((mtMs * 1000).toNat * 1000 + offset) := by
    rw [hexact]
    exact hrange.mono (by decide)
  obtain ⟨rt, hrt, herror⟩ := realtime_error h hrange' 0
  rw [hexact] at herror
  obtain ⟨-, hhigh⟩ := hrange
  obtain ⟨x, hx⟩ : ∃ x, x = 1000 * (rt.toNat : ℤ) - (mtMs.toNat * 1000000 + offset) := ⟨_, rfl⟩
  rw [← hx] at herror
  have hle := le_abs_self x
  have hge := neg_abs_le x
  have hround : ((rt + 500) / 1000).toNat = (rt.toNat + 500) / 1000 := by
    rw [UInt64.toNat_div, UInt64.toNat_add]
    simp only [UInt64.reduceToNat]
    omega
  refine ⟨(rt + 500) / 1000, ?_, ?_⟩
  · unfold timeMonotonicToRealtimeMs
    simp only [hrt]
    rfl
  · rw [hround]
    rcases abs_cases (1000000 * (((rt.toNat + 500) / 1000 : ℕ) : ℤ) - (mtMs.toNat * 1000000 + offset)) with
      ⟨habs, -⟩ | ⟨habs, -⟩
    all_goals
      rw [habs]
      omega

end Futils.Timetools
