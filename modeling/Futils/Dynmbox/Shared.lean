import Futils.Dynmbox.Runs
import Futils.Dynmbox.Threads
import Futils.Lib.Monitor

/-!
# Any number of threads

`dynmbox_push`, `dynmbox_push_block` and `dynmbox_peek` called by any number of threads on one mailbox.  A step
is an action of one thread on the lock, on the pipe or on the condition variable, or the work that it does under
the lock between two of them; the threads take them in any order.  `pthread_cond_signal` wakes one of the
threads that wait, whichever it likes; a wait may also end by itself, or by its deadline, and it may be that the
deadline passes while a signal arrives, which is then lost.  `Futils.Dynmbox.Threads` has one thread on each
side.
-/

namespace Futils.Dynmbox.Shared

open Futils.Lib

/-- A call, with its arguments. -/
inductive Request
  | push (call : PushCall)
  | peek (hdr₀ : Mem UInt8) (msg : Option (Mem UInt8))

/-- The same without a wait. -/
def Request.call : Request → Call
  | push call => .push call.msg call.msgSize
  | peek hdr₀ msg => .peek hdr₀ msg

/-- Where a thread is. -/
inductive Pc
  /-- outside of the functions -/
  | idle
  /-- before `pthread_mutex_lock`, to push -/
  | pushLocking (call : PushCall)
  /-- under the lock, before the test of the free space -/
  | pushLocked (call : PushCall)
  /-- in `pthread_cond_wait` or `pthread_cond_timedwait`, not signalled -/
  | blocked (call : PushCall)
  /-- in the same, about to take the lock again and to return `res` -/
  | woken (call : PushCall) (res : ℤ)
  /-- under the lock, after a `do_push` that succeeded -/
  | enqueued
  /-- after the unlock, before `push_notify` -/
  | notifying
  /-- before `pthread_mutex_lock`, to peek -/
  | peekLocking (hdr₀ msg : Mem UInt8)
  /-- under the lock, before the test for emptiness -/
  | peekLocked (hdr₀ msg : Mem UInt8)
  /-- before `pop_notify` -/
  | popping (hdr₀ msg : Mem UInt8)
  /-- before `do_peek` -/
  | dequeuing (hdr₀ msg : Mem UInt8)
  /-- before `pthread_cond_signal` -/
  | signalling (res : Res)
  /-- under the lock, before the unlock and the return of `res` -/
  | unlocking (res : Res)

/-- What a call was answered. -/
structure Answer where
  req : Request
  res : Res

/-- The mailbox, its pipe and the threads.  `called` are the calls in the order in which they began, `log` in
the order in which their answers were fixed, and `returned` the answers in the order in which they returned. -/
structure Sys (ι : Type) where
  box : DynMbox
  pipe : ℕ
  threads : Monitor ι Pc
  called : List (ι × Request)
  log : List (ι × Answer)
  returned : List (ι × Res)

/-- A new mailbox that no thread has touched. -/
def Sys.start (ι : Type) (box : DynMbox) : Sys ι := ⟨box, 0, .start ι .idle, [], [], []⟩

inductive Act (ι : Type)
  /-- a thread calls a function -/
  | call (i : ι) (req : Request)
  /-- it goes on -/
  | go (i : ι)
  /-- its `pthread_cond_signal`, and the thread that wakes up if there is one that waits -/
  | signal (i : ι) (woken : Option ι)
  /-- the deadline of its wait passes -/
  | timeout (i : ι)
  /-- the deadline of its wait passes after the signal, which is lost -/
  | late (i : ι)
  /-- its wait ends without a signal -/
  | spurious (i : ι)

variable {ι : Type} [DecidableEq ι]

def Sys.goto (s : Sys ι) (i : ι) (pc : Pc) : Sys ι := { s with threads := s.threads.goto i pc }

/-- The answer to the call of `i` is fixed. -/
def Sys.fix (s : Sys ι) (i : ι) (req : Request) (res : Res) : Sys ι := { s with log := s.log ++ [(i, ⟨req, res⟩)] }

/-- The call of `i` returns. -/
def Sys.finish (s : Sys ι) (i : ι) (res : Res) : Sys ι :=
  { s.goto i .idle with returned := s.returned ++ [(i, res)] }

/-- The start of the functions. -/
def callStep (s : Sys ι) (i : ι) (req : Request) : Sys ι :=
  let s := { s with called := s.called ++ [(i, req)] }
  match req with
  | .push call =>
    if badMsg s.box call.msg call.msgSize then (s.fix i req (.pushed (-EINVAL))).finish i (.pushed (-EINVAL))
    else s.goto i (.pushLocking call)
  | .peek _ none => (s.fix i req (.peeked (-EINVAL) none)).finish i (.peeked (-EINVAL) none)
  | .peek hdr₀ (some msg) => s.goto i (.peekLocking hdr₀ msg)

/-- The next step of the thread `i`. -/
def goStep (pipeCap : Option ℕ) (s : Sys ι) (i : ι) : Option (Sys ι) :=
  match s.threads.pc i with
  | .idle => none
  | .pushLocking call =>
    if s.threads.lock = none then some { s with threads := s.threads.acquire i (.pushLocked call) } else none
  | .pushLocked call =>
    if call.block ∧ rbufSpaceLeft s.box < call.msgSize + HDR_LEN then
      some { s with threads := s.threads.await i (.blocked call) }
    else
      match doPush s.box (call.msg.getD fun _ => 0) call.msgSize with
      | none => none
      | some (res, box) =>
        let s := { s with box := box }.fix i (.push call) (.pushed res)
        if res = 0 then some (s.goto i .enqueued)
        else if call.block then none
        else some (s.goto i (.unlocking (.pushed res)))
  | .blocked _ => none
  | .woken call res =>
    if s.threads.lock = none then
      if res = 0 then some { s with threads := s.threads.acquire i (.pushLocked call) }
      else
        let s := s.fix i (.push call) (.pushed res)
        some { s with threads := s.threads.acquire i (.unlocking (.pushed res)) }
    else none
  | .enqueued => some { s with threads := s.threads.release i .notifying }
  | .notifying =>
    -- a write to a full non-blocking pipe fails, and the failure is only logged
    match pipeCap with
    | none => some ({ s with pipe := s.pipe + 1 }.finish i (.pushed 0))
    | some n =>
      if s.pipe < n then some ({ s with pipe := s.pipe + 1 }.finish i (.pushed 0))
      else some (s.finish i (.pushed 0))
  | .peekLocking hdr₀ msg =>
    if s.threads.lock = none then some { s with threads := s.threads.acquire i (.peekLocked hdr₀ msg) }
    else none
  | .peekLocked hdr₀ msg =>
    if rbufIsEmpty s.box then
      let res := .peeked (-EAGAIN) (some msg)
      some ((s.fix i (.peek hdr₀ (some msg)) res).goto i (.unlocking res))
    else some (s.goto i (.popping hdr₀ msg))
  | .popping hdr₀ msg =>
    -- a read from an empty non-blocking pipe fails, and the failure is only logged
    some ({ s with pipe := s.pipe - 1 }.goto i (.dequeuing hdr₀ msg))
  | .dequeuing hdr₀ msg =>
    match doPeek s.box hdr₀ msg with
    | none => none
    | some (msglen, box, msg') =>
      let res := .peeked msglen (some msg')
      let s := { s with box := box }.fix i (.peek hdr₀ (some msg)) res
      if msglen < 0 then some (s.goto i (.unlocking res)) else some (s.goto i (.signalling res))
  | .signalling _ => none
  | .unlocking res => some { s.finish i res with threads := s.threads.release i .idle }

/-- The signal of the thread `i`. -/
def signalStep (s : Sys ι) (i : ι) (woken : Option ι) : Option (Sys ι) :=
  match s.threads.pc i, woken with
  | .signalling res, none => if s.threads.waiters = [] then some (s.goto i (.unlocking res)) else none
  | .signalling res, some j =>
    match s.threads.pc j with
    | .blocked call => some ({ s with threads := s.threads.leave j (.woken call 0) }.goto i (.unlocking res))
    | _ => none
  | _, _ => none

/-- One step of the threads. -/
def step (pipeCap : Option ℕ) (s : Sys ι) : Act ι → Option (Sys ι)
  | .call i req =>
    match s.threads.pc i with
    | .idle => some (callStep s i req)
    | _ => none
  | .go i => goStep pipeCap s i
  | .signal i woken => signalStep s i woken
  | .timeout i =>
    match s.threads.pc i with
    | .blocked call =>
      if call.timed then some { s with threads := s.threads.leave i (.woken call (-ETIMEDOUT)) } else none
    | _ => none
  | .late i =>
    match s.threads.pc i with
    | .woken call res =>
      if call.timed ∧ res = 0 then some (s.goto i (.woken call (-ETIMEDOUT))) else none
    | _ => none
  | .spurious i =>
    match s.threads.pc i with
    | .blocked call => some { s with threads := s.threads.leave i (.woken call 0) }
    | _ => none

/-! ### The logs -/

/-- What a log says of the thread `i`. -/
def ofThread {α : Type} (i : ι) (l : List (ι × α)) : List α := l.filterMap fun e => if e.1 = i then some e.2 else none

/-- The call that a thread is in, as long as the answer is not fixed. -/
def Pc.pending : Pc → Option Request
  | pushLocking call | pushLocked call | blocked call | woken call _ => some (.push call)
  | peekLocking hdr₀ msg | peekLocked hdr₀ msg | popping hdr₀ msg | dequeuing hdr₀ msg =>
    some (.peek hdr₀ (some msg))
  | idle | enqueued | notifying | signalling _ | unlocking _ => none

/-- The answer with which a thread is to return. -/
def Pc.fixed : Pc → Option Res
  | enqueued | notifying => some (.pushed 0)
  | signalling res | unlocking res => some res
  | _ => none

/-- The answers other than that of a wait that timed out. -/
def served (log : List (ι × Answer)) : List Answer :=
  (log.map Prod.snd).filter fun e => e.res.ret ≠ -ETIMEDOUT

/-- The message of a push that was accepted. -/
def Answer.accepted (e : Answer) : Option Msg :=
  match e.req with
  | .push call => if e.res.ret = 0 then some (msgOf call.msg call.msgSize) else none
  | .peek _ _ => none

/-- The message of a peek that succeeded. -/
def Answer.received (e : Answer) : Option Msg :=
  match e.res with
  | .peeked msglen (some msg) => if 0 ≤ msglen then some (msg.load 0 msglen.toNat) else none
  | _ => none

end Futils.Dynmbox.Shared
