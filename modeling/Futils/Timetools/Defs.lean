import Futils.Errno
import Futils.Lib.Checked
import Futils.Lib.Mem
import Mathlib.Logic.Function.Basic

/-!
# Times (`src/timetools.c`)

A pointer argument is an `Option`: `none` is `NULL`, and a value is what it points to.  The functions that
add to a time have their arguments in memory, where the result may take the place of the argument.  The
signed types have 64 bits, and a function is `none` when signed arithmetic overflows.
-/

namespace Futils.Timetools

open Futils.Lib

/-- `struct timespec` -/
structure Timespec where
  tvSec : Int64
  tvNsec : Int64
  deriving DecidableEq

/-- `struct timeval` -/
structure Timeval where
  tvSec : Int64
  tvUsec : Int64
  deriving DecidableEq

/-! ### Comparison and difference -/

def timeTimespecCmp (t1 t2 : Option Timespec) : ℤ :=
  match t1, t2 with
  | some t1, some t2 =>
    if t1.tvSec > t2.tvSec then 1
    else if t1.tvSec < t2.tvSec then -1
    else if t1.tvNsec > t2.tvNsec then 1
    else if t1.tvNsec < t2.tvNsec then -1
    else 0
  | _, _ => 0

/-- The return value and `*diff`, for the times from `start` to `stop`. -/
def timeTimespecDiff (start stop diff : Option Timespec) : Option (ℤ × Option Timespec) :=
  match start, stop, diff with
  | some start, some stop, some _ =>
    if stop.tvSec < start.tvSec ∨ stop.tvSec = start.tvSec ∧ stop.tvNsec < start.tvNsec then
      some (-EINVAL, diff)
    else if stop.tvNsec > start.tvNsec then do
      let sec ← isub stop.tvSec start.tvSec
      let nsec ← isub stop.tvNsec start.tvNsec
      some (0, some ⟨sec, nsec⟩)
    else do
      let sec ← isub stop.tvSec start.tvSec
      let sec ← isub sec 1
      -- `1000000000UL` makes the sum unsigned
      let nsec := 1000000000 + stop.tvNsec.toUInt64 - start.tvNsec.toUInt64
      some (0, some ⟨sec, nsec.toInt64⟩)
  | _, _, _ => some (-EINVAL, diff)

/-! ### Conversion -/

def timeTimespecToNs (value : Option Timespec) (ns : Option UInt64) : ℤ × Option UInt64 :=
  match value, ns with
  | some value, some _ => (0, some (value.tvSec.toUInt64 * 1000000000 + value.tvNsec.toUInt64))
  | _, _ => (-EINVAL, ns)

def timeTimespecToUs (value : Option Timespec) (us : Option UInt64) : ℤ × Option UInt64 :=
  match value, us with
  | some value, some _ => (0, some (value.tvSec.toUInt64 * 1000000 + value.tvNsec.toUInt64 / 1000))
  | _, _ => (-EINVAL, us)

/-! ### Signed differences and ranges -/

/-- The difference in the order in which it is not negative; what it is stored in is a local variable. -/
def orderedDiff (t1 t2 : Option Timespec) : Option (ℤ × Option Timespec) :=
  if timeTimespecCmp t1 t2 = 1 then timeTimespecDiff t2 t1 (some ⟨0, 0⟩)
  else timeTimespecDiff t1 t2 (some ⟨0, 0⟩)

/-- The return value, `*duration_diff_us` and `*sign_diff`. -/
def timeTimespecDiffUs (t1 t2 : Option Timespec) (durationDiffUs : Option UInt64) (signDiff : Option ℤ) :
    Option (ℤ × Option UInt64 × Option ℤ) := do
  let diff ← orderedDiff t1 t2
  if diff.1 < 0 then some (diff.1, durationDiffUs, signDiff)
  else
    let signDiff := signDiff.map fun _ => if timeTimespecCmp t1 t2 = 1 then 1 else -1
    let us := timeTimespecToUs diff.2 durationDiffUs
    some (if us.1 < 0 then us.1 else 0, us.2, signDiff)

/-- The return value and `*out_diff_us`. -/
def timeTimespecDiffInRange (t1 t2 : Option Timespec) (rangeUs : UInt64) (outDiffUs : Option UInt64) :
    Option (ℤ × Option UInt64) :=
  if t1 = none ∨ t2 = none then some (0, outDiffUs)
  else if timeTimespecCmp t1 t2 = 0 then some (1, outDiffUs)
  else do
    let diff ← orderedDiff t1 t2
    if diff.1 < 0 then some (0, outDiffUs)
    else
      let diffUs := (timeTimespecToUs diff.2 (some 0)).2.getD 0
      some (if diffUs < rangeUs then 1 else 0, outDiffUs.map fun _ => diffUs)

/-! ### Addition -/

/-- `p->tv_sec = sec` -/
def setSec (m : Mem Timespec) (p : ℕ) (sec : Int64) : Mem Timespec :=
  Function.update m p { m p with tvSec := sec }

/-- `p->tv_nsec = nsec` -/
def setNsec (m : Mem Timespec) (p : ℕ) (nsec : Int64) : Mem Timespec :=
  Function.update m p { m p with tvNsec := nsec }

def timeTimespecAddNs (m : Mem Timespec) (ts : Option ℕ) (delta : Int64) (res : Option ℕ) :
    Option (ℤ × Mem Timespec) :=
  match ts, res with
  | some ts, some res => do
    let sec := delta / 1000000000
    let ns := delta % 1000000000
    let m := setSec m res (← iadd (m ts).tvSec sec)
    let m := setNsec m res (← iadd (m ts).tvNsec ns)
    if (m res).tvNsec ≥ 1000000000 then
      let m := setNsec m res (← isub (m res).tvNsec 1000000000)
      some (0, setSec m res (← iadd (m res).tvSec 1))
    else if (m res).tvNsec < 0 then
      let m := setNsec m res (← iadd (m res).tvNsec 1000000000)
      some (0, setSec m res (← isub (m res).tvSec 1))
    else some (0, m)
  | _, _ => some (-EINVAL, m)

def timeTimespecAddUs (m : Mem Timespec) (ts : Option ℕ) (delta : Int64) (res : Option ℕ) :
    Option (ℤ × Mem Timespec) := do
  timeTimespecAddNs m ts (← imul delta 1000) res

def timeTimevalToTimespec (tv : Option Timeval) (m : Mem Timespec) (ts : Option ℕ) :
    Option (ℤ × Mem Timespec) :=
  match tv, ts with
  | some tv, some ts => do
    let m := setSec m ts tv.tvSec
    some (0, setNsec m ts (← imul tv.tvUsec 1000))
  | _, _ => some (-EINVAL, m)

/-! ### What a time means -/

/-- The nanoseconds of a time. -/
def Timespec.ns (t : Timespec) : ℤ := t.tvSec.toInt * 1000000000 + t.tvNsec.toInt

/-- `tv_nsec` is less than a second. -/
def Timespec.Normal (t : Timespec) : Prop := 0 ≤ t.tvNsec.toInt ∧ t.tvNsec.toInt < 1000000000

instance (t : Timespec) : Decidable t.Normal := inferInstanceAs (Decidable (_ ∧ _))

end Futils.Timetools
