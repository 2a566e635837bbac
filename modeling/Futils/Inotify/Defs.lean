import Futils.Lib.LittleEndian
import Futils.Lib.Mem
import Futils.Lib.Reach
import Mathlib.Data.Fintype.Basic
import Mathlib.Data.Int.DivMod
import Mathlib.Logic.Function.Basic

/-!
# Events of a file system (`src/inotify.c`)

`inotify_process_fd`.  The system has a queue of events for a descriptor: `ioctl` tells how many bytes they
have, and `read` takes the first ones, as many as fit.  Threads call the function, and events are queued, in any
order; a step is the `ioctl` with the allocation of the buffer, or the `read` with the loop over what it gave.
Each access to the buffer is checked against its size.
-/

namespace Futils.Inotify

open Futils.Lib

/-- `struct inotify_event`, with its name as the system pads it. -/
structure Event where
  wd : Int32
  mask : UInt32
  cookie : UInt32
  name : List UInt8
  deriving DecidableEq

/-- `sizeof(struct inotify_event)`, which has no name -/
abbrev HDR_SIZE : ℕ := 16

def Event.size (e : Event) : ℕ := HDR_SIZE + e.name.length

/-- The bytes of an event. -/
def Event.bytes (e : Event) : List UInt8 :=
  leBytes 4 e.wd.toUInt32.toNat ++ (leBytes 4 e.mask.toNat ++ (leBytes 4 e.cookie.toNat ++
    (leBytes 4 e.name.length ++ e.name)))

def sizeAll (events : List Event) : ℕ := (events.map Event.size).sum

def bytesAll (events : List Event) : List UInt8 := events.flatMap Event.bytes

/-! ### The loop -/

/-- `ev->len` -/
def evLen (buf : Mem UInt8) (ev : ℕ) : ℕ := leNat (buf.load (ev + 12) 4)

/-- What the callback reads at `ev`. -/
def eventAt (buf : Mem UInt8) (ev : ℕ) : Event where
  wd := (UInt32.ofNat (leNat (buf.load ev 4))).toInt32
  mask := .ofNat (leNat (buf.load (ev + 4) 4))
  cookie := .ofNat (leNat (buf.load (ev + 8) 4))
  name := buf.load (ev + HDR_SIZE) (evLen buf ev)

/-- The loop of `inotify_process_fd` over a buffer of `size` bytes: the events that the callback is given.  It is
`none` when the loop takes more than `fuel` turns, and when an event does not lie in the buffer. -/
def eventLoop (buf : Mem UInt8) (size : ℕ) : ℕ → ℕ → ℤ → Option (List Event)
  | 0, _, _ => none
  | fuel + 1, ev, count =>
    if count ≥ HDR_SIZE then
      if ev + HDR_SIZE > size then none
      -- the callback reads the name as well
      else if ev + HDR_SIZE + evLen buf ev > size then none
      else
        -- an `int`, of a `size_t`
        let len := Int.bmod (HDR_SIZE + evLen buf ev) (2 ^ 32)
        if (ev : ℤ) + len < 0 then none
        else (eventLoop buf size fuel (ev + len).toNat (count - len)).map (eventAt buf ev :: ·)
    else some []

/-! ### The system -/

/-- The events that a `read` of `n` bytes takes. -/
def fitting : ℕ → List Event → List Event
  | _, [] => []
  | n, e :: events => if e.size ≤ n then e :: fitting (n - e.size) events else []

/-- What a thread has before `read`: the `count` that it read, and the size of the buffer that `evbuf` points to. -/
structure Reading where
  count : ℤ
  size : ℕ
  deriving DecidableEq

/-- The queue, and the threads that are before `read`; and besides, all events that were queued, and those that
the callbacks were given.  After a `fault` there is no step. -/
structure Sys (ι : Type) where
  queue : List Event
  reading : ι → Option Reading
  queued : List Event
  delivered : List Event
  fault : Bool

def Sys.start (ι : Type) : Sys ι := ⟨[], fun _ => none, [], [], false⟩

inductive Act (ι : Type)
  /-- something happens in the file system -/
  | queue (e : Event)
  /-- a thread calls the function: `ioctl`, which may fail, and then `malloc`, which may -/
  | ioctl (i : ι) (ok alloc : Bool)
  /-- its `read`, which may fail, to a buffer that holds `mem` -/
  | read (i : ι) (ok : Bool) (mem : Mem UInt8)

variable {ι : Type} [DecidableEq ι]

/-- `sizeof(buf)` -/
abbrev BUF_SIZE : ℕ := 512

/-- The function up to `read`, to `buf` or to a block of as many bytes as were counted. -/
def ioctlStep (s : Sys ι) (i : ι) (ok alloc : Bool) : Sys ι :=
  let count := Int.bmod (sizeAll s.queue) (2 ^ 32)
  if !ok || count ≤ 0 then s
  else if count > BUF_SIZE then
    if alloc then { s with reading := Function.update s.reading i (some ⟨count, count.toNat⟩) } else s
  else { s with reading := Function.update s.reading i (some ⟨count, BUF_SIZE⟩) }

/-- The rest, when `read` gives events. -/
def readStep (s : Sys ι) (i : ι) (r : Reading) (mem : Mem UInt8) : Sys ι :=
  let events := fitting r.count.toNat s.queue
  let s := { s with queue := s.queue.drop events.length, reading := Function.update s.reading i none }
  -- the system may write as many bytes as it was asked for
  if r.count.toNat > r.size then { s with fault := true }
  else
    let buf := mem.store 0 (bytesAll events)
    let ret : ℤ := (bytesAll events).length
    if ret = r.count then
      match eventLoop buf r.size (r.count.toNat + 1) 0 r.count with
      | none => { s with fault := true }
      | some events => { s with delivered := s.delivered ++ events }
    else s

def step (s : Sys ι) (a : Act ι) : Option (Sys ι) :=
  if s.fault then none
  else
    match a with
    | .queue e => some { s with queue := s.queue ++ [e], queued := s.queued ++ [e] }
    | .ioctl i ok alloc =>
      match s.reading i with
      | none => some (ioctlStep s i ok alloc)
      | some _ => none
    | .read i ok mem =>
      match s.reading i with
      | none => none
      | some r =>
        if !ok then some { s with reading := Function.update s.reading i none }
        -- a `read` waits for an event, and fails when there is no room for it
        else if fitting r.count.toNat s.queue = [] then none
        else some (readStep s i r mem)

/-- A thread calls the function while no other is in it, and an `int` can count the bytes in the queue. -/
def Alone (s : Sys ι) : Act ι → Prop
  | .ioctl _ _ _ => (∀ i, s.reading i = none) ∧ sizeAll s.queue < 2 ^ 31
  | _ => True

instance [Fintype ι] (s : Sys ι) : DecidablePred (Alone s)
  | .ioctl _ _ _ => inferInstanceAs (Decidable (_ ∧ _))
  | .queue _ => .isTrue trivial
  | .read _ _ _ => .isTrue trivial

end Futils.Inotify
