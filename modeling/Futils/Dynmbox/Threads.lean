import Futils.Dynmbox.Defs
import Futils.Lib.Reach

/-!
# The two threads

One producer calls `dynmbox_push` and `dynmbox_push_block`, one consumer calls `dynmbox_peek`.
Each takes one step at a time, in any order: a step is one action on the lock, on the pipe or on
the condition variable, or the work done under the lock between two of them.  A wait may also end
without a signal, and a timed one by its deadline; the lock is then taken again before the call
goes on.  `NULL` pointers other than `msg` of an empty message are left to `Futils.Dynmbox.Refine`,
which has no threads.
-/

namespace Futils.Dynmbox

open Futils.Lib

/-- The owner of `box->lock`. -/
inductive Thread
  | producer | consumer
  deriving DecidableEq

/-- A call of the producer: `dynmbox_push_block` if `block` is set, with a deadline if `timed` is,
else `dynmbox_push`. -/
structure PushCall where
  block : Bool
  timed : Bool
  msg : Option (Mem UInt8)
  msgSize : ℕ

/-- Where the producer is. -/
inductive ProducerPc
  /-- outside of the two functions -/
  | idle
  /-- before `pthread_mutex_lock` -/
  | locking (call : PushCall)
  /-- under the lock, before the test of the free space -/
  | locked (call : PushCall)
  /-- in `pthread_cond_wait` or `pthread_cond_timedwait`, not signalled -/
  | blocked (call : PushCall)
  /-- in the same, about to take the lock again and to return `res` -/
  | woken (call : PushCall) (res : ℤ)
  /-- under the lock, after a `do_push` that succeeded -/
  | enqueued
  /-- after the unlock, before `push_notify` -/
  | notifying
  /-- under the lock, at the label `fail` -/
  | failing

/-- Where the consumer is, with the buffer that it passed. -/
inductive ConsumerPc
  /-- outside of the function -/
  | idle
  /-- before `pthread_mutex_lock` -/
  | locking (hdr₀ msg : Mem UInt8)
  /-- under the lock, before the test for emptiness -/
  | locked (hdr₀ msg : Mem UInt8)
  /-- before `pop_notify` -/
  | popping (hdr₀ msg : Mem UInt8)
  /-- before `do_peek` -/
  | dequeuing (hdr₀ msg : Mem UInt8)
  /-- before `pthread_cond_signal` -/
  | signalling
  /-- before the unlock -/
  | unlocking

/-- The mailbox with its lock and its pipe, and the two threads. -/
structure State where
  box : DynMbox
  lock : Option Thread
  pipe : ℕ
  producer : ProducerPc
  consumer : ConsumerPc

/-- A fresh mailbox that no thread has touched. -/
def State.init (box : DynMbox) : State := ⟨box, none, 0, .idle, .idle⟩

inductive Act
  /-- the producer calls -/
  | push (call : PushCall)
  /-- the producer goes on -/
  | producer
  /-- the deadline of a timed wait passes -/
  | timeout
  /-- a wait ends without a signal -/
  | spurious
  /-- the consumer calls -/
  | peek (hdr₀ msg : Mem UInt8)
  /-- the consumer goes on -/
  | consumer

/-- The next step of the producer. -/
def producerStep (pipeCap : Option ℕ) (s : State) : Option State :=
  match s.producer with
  | .idle => none
  | .locking call =>
    if s.lock = none then some { s with lock := some .producer, producer := .locked call } else none
  | .locked call =>
    if call.block ∧ rbufSpaceLeft s.box < call.msgSize + HDR_LEN then
      some { s with lock := none, producer := .blocked call }
    else
      match doPush s.box (call.msg.getD fun _ => 0) call.msgSize with
      | none => none
      | some (res, box) =>
        if res = 0 then some { s with box := box, producer := .enqueued }
        else if call.block then none
        else some { s with box := box, producer := .failing }
  | .blocked _ => none
  | .woken call res =>
    if s.lock = none then
      if res = 0 then some { s with lock := some .producer, producer := .locked call }
      else some { s with lock := some .producer, producer := .failing }
    else none
  | .enqueued => some { s with lock := none, producer := .notifying }
  | .notifying =>
    -- a write to a full non-blocking pipe fails, and the failure is only logged
    match pipeCap with
    | none => some { s with pipe := s.pipe + 1, producer := .idle }
    | some n =>
      if s.pipe < n then some { s with pipe := s.pipe + 1, producer := .idle }
      else some { s with producer := .idle }
  | .failing => some { s with lock := none, producer := .idle }

/-- The next step of the consumer. -/
def consumerStep (s : State) : Option State :=
  match s.consumer with
  | .idle => none
  | .locking hdr₀ msg =>
    if s.lock = none then some { s with lock := some .consumer, consumer := .locked hdr₀ msg }
    else none
  | .locked hdr₀ msg =>
    if rbufIsEmpty s.box then some { s with consumer := .unlocking }
    else some { s with consumer := .popping hdr₀ msg }
  | .popping hdr₀ msg =>
    -- a read from an empty non-blocking pipe fails, and the failure is only logged
    some { s with pipe := s.pipe - 1, consumer := .dequeuing hdr₀ msg }
  | .dequeuing hdr₀ msg =>
    match doPeek s.box hdr₀ msg with
    | none => none
    | some (msglen, box, _) =>
      if msglen < 0 then some { s with box := box, consumer := .unlocking }
      else some { s with box := box, consumer := .signalling }
  | .signalling =>
    match s.producer with
    | .blocked call => some { s with producer := .woken call 0, consumer := .unlocking }
    | _ => some { s with consumer := .unlocking }
  | .unlocking => some { s with lock := none, consumer := .idle }

/-- One step of the two threads. -/
def threadStep (pipeCap : Option ℕ) (s : State) : Act → Option State
  | .push call =>
    match s.producer with
    | .idle =>
      -- bad arguments are refused before the lock is taken
      if badMsg s.box call.msg call.msgSize then some s
      else some { s with producer := .locking call }
    | _ => none
  | .producer => producerStep pipeCap s
  | .timeout =>
    match s.producer with
    | .blocked call =>
      if call.timed then some { s with producer := .woken call (-ETIMEDOUT) } else none
    | _ => none
  | .spurious =>
    match s.producer with
    | .blocked call => some { s with producer := .woken call 0 }
    | _ => none
  | .peek hdr₀ msg =>
    match s.consumer with
    | .idle => some { s with consumer := .locking hdr₀ msg }
    | _ => none
  | .consumer => consumerStep s

/-- The pushes between the enqueue and the pipe write. -/
def ProducerPc.pending : ProducerPc → ℕ
  | enqueued | notifying => 1
  | _ => 0

def ConsumerPc.isIdle : ConsumerPc → Bool
  | idle => true
  | _ => false

/-- The producer is not between the enqueue and the pipe write of a push, and the consumer is not
inside a peek. -/
def State.Settled (s : State) : Prop := s.producer.pending = 0 ∧ s.consumer.isIdle = true

instance (s : State) : Decidable s.Settled := inferInstanceAs (Decidable (_ ∧ _))

end Futils.Dynmbox
