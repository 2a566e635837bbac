import Futils.Errno
import Futils.Lib.Mem
import Futils.Lib.Pipe
import Futils.Lib.Reach
import Mathlib.Logic.Function.Basic

/-!
# The mailbox over a pipe (`src/mbox.c`)

The functions of the build without `_WIN32`.  Any number of threads call them on one mailbox; a step is the
call of a function, or one `poll`, `write` or `read` with what it does, and the steps of the threads come in
any order.  The mailbox holds both ends of its pipe, so that a write is not refused for want of a reader and
a read does not see the end.
-/

namespace Futils.Mbox.Posix

open Futils.Lib

/-- `limits.h` -/
def INT_MAX : ℕ := 2147483647

/-- The sizes that `mbox_new` refuses. -/
def badSize (pipeBuf msgSize : ℕ) : Prop := msgSize = 0 ∨ msgSize ≥ pipeBuf

/-- A mailbox that `mbox_new` made: `PIPE_BUF` and the capacity of the pipe, and the size of a message. -/
structure MBox where
  limits : PipeLimits
  msgSize : ℕ
  size : ¬ badSize limits.atomic msgSize

/-! ### What the system does -/

/-- An error number other than `EAGAIN`, which says that a call would block. -/
abbrev Errno := { e : ℕ // 0 < e ∧ (e : ℤ) ≠ EAGAIN }

/-- What `write` or `read` does. -/
abbrev Io := PipeCall Errno

def Io.ret : Io → ℤ
  | .moved k => k
  | .wouldBlock => -1
  | .failed _ => -1

def Io.errno : Io → ℤ
  | .moved _ => 0
  | .wouldBlock => EAGAIN
  | .failed e => e.1

/-- What `poll` does. -/
inductive Poll
  | ready
  | timedOut
  | failed (e : Errno)

def Poll.ret : Poll → ℤ
  | ready => 1
  | timedOut => 0
  | failed _ => -1

def Poll.errno : Poll → ℤ
  | failed e => e.1
  | _ => 0

/-! ### What the functions do with it -/

/-- A call goes round its loop, returns, or goes on. -/
inductive Turn
  | again
  | finish (ret : ℤ)
  | goOn

/-- `mbox_push`, after `write` -/
def mboxPush (ret errno : ℤ) : Turn :=
  if ret = -1 ∧ errno = EINTR then .again else .finish (if ret < 0 then -errno else 0)

/-- What `mbox_push_block` gives to `poll`. -/
def pushBlockTimeout (timeoutMs : UInt32) : ℤ := if timeoutMs = 0 then -1 else timeoutMs.toNat

/-- `mbox_push_block`, after `poll` -/
def mboxPushBlock (res errno : ℤ) : Turn :=
  if res = -1 ∧ errno = EINTR then .again
  else if res = 0 then .finish (-ETIMEDOUT)
  else if res = -1 then .finish (-errno)
  else .goOn

/-- `mbox_peek`, after `read` -/
def mboxPeek (ret errno : ℤ) : Turn :=
  if ret = -1 ∧ errno = EINTR then .again
  else if ret = 0 then .finish (-EPIPE)
  else .finish (if ret < 0 then -errno else 0)

/-! ### The threads -/

/-- A call, with the pointer that it passes. -/
inductive Call
  | push (msg : Option (Mem UInt8))
  | pushBlock (msg : Option (Mem UInt8)) (timeoutMs : UInt32)
  | peek (msg : Option (Mem UInt8))

/-- Where a thread is, in the call that it made. -/
inductive Pc
  /-- outside of the functions -/
  | idle
  /-- before `poll` -/
  | polling (msg : Mem UInt8) (timeoutMs : UInt32)
  /-- before `write` -/
  | writing (call : Call) (msg : Mem UInt8)
  /-- before `read` -/
  | reading (msg : Mem UInt8)

/-- A call that returned: `ret`, and the message that it wrote to the caller's buffer. -/
structure Returned (ι : Type) where
  thread : ι
  call : Call
  ret : ℤ
  got : List UInt8

/-- The pipe, the threads, and the calls that returned, in the order in which they did. -/
structure Sys (ι : Type) where
  pipe : Pipe UInt8
  pc : ι → Pc
  log : List (Returned ι)

def Sys.start (ι : Type) : Sys ι := ⟨.empty, fun _ => .idle, []⟩

inductive Act (ι : Type)
  /-- a thread calls a function -/
  | call (i : ι) (call : Call)
  /-- its `poll` -/
  | poll (i : ι) (poll : Poll)
  /-- its `write` -/
  | write (i : ι) (io : Io)
  /-- its `read` -/
  | read (i : ι) (io : Io)

variable {ι : Type} [DecidableEq ι]

/-- Thread `i` goes on. -/
def Sys.goto (s : Sys ι) (i : ι) (pc : Pc) : Sys ι := { s with pc := Function.update s.pc i pc }

/-- Its call returns. -/
def Sys.finish (s : Sys ι) (i : ι) (call : Call) (ret : ℤ) (got : List UInt8) : Sys ι :=
  { s with pc := Function.update s.pc i .idle, log := s.log ++ [⟨i, call, ret, got⟩] }

/-- The start of the functions. -/
def callStep (s : Sys ι) (i : ι) (call : Call) : Sys ι :=
  match call with
  | .push none | .pushBlock none _ | .peek none => s.finish i call (-EINVAL) []
  | .push (some msg) => s.goto i (.writing call msg)
  | .pushBlock (some msg) timeoutMs =>
    if timeoutMs.toNat > INT_MAX then s.finish i call (-EINVAL) [] else s.goto i (.polling msg timeoutMs)
  | .peek (some msg) => s.goto i (.reading msg)

/-- `mbox_push_block`, with `poll`: it times out only if it was given a timeout, and it finds the pipe
writable only when it is. -/
def pollStep (b : MBox) (s : Sys ι) (i : ι) (msg : Mem UInt8) (timeoutMs : UInt32) (poll : Poll) :
    Option (Sys ι) :=
  let pipe :=
    match poll with
    | .ready => s.pipe.writable b.limits
    | .timedOut => if 0 ≤ pushBlockTimeout timeoutMs then some s.pipe else none
    | .failed _ => some s.pipe
  pipe.map fun pipe =>
    let s := { s with pipe := pipe }
    let call := .pushBlock (some msg) timeoutMs
    match mboxPushBlock poll.ret poll.errno with
    | .again => s
    | .finish ret => s.finish i call ret []
    | .goOn => s.goto i (.writing call msg)

/-- `mbox_push`, with `write` -/
def writeStep (b : MBox) (s : Sys ι) (i : ι) (call : Call) (msg : Mem UInt8) (io : Io) :
    Option (Sys ι) :=
  (s.pipe.write b.limits (msg.load 0 b.msgSize) io).map fun pipe =>
    let s := { s with pipe := pipe }
    match mboxPush io.ret io.errno with
    | .finish ret => s.finish i call ret []
    | _ => s

/-- `mbox_peek`, with `read` -/
def readStep (b : MBox) (s : Sys ι) (i : ι) (msg : Mem UInt8) (io : Io) : Option (Sys ι) :=
  (s.pipe.read b.msgSize io).map fun (got, pipe) =>
    let s := { s with pipe := pipe }
    match mboxPeek io.ret io.errno with
    | .finish ret => s.finish i (.peek (some msg)) ret got
    | _ => s

/-- One step of the threads. -/
def step (b : MBox) (s : Sys ι) : Act ι → Option (Sys ι)
  | .call i call =>
    match s.pc i with
    | .idle => some (callStep s i call)
    | _ => none
  | .poll i poll =>
    match s.pc i with
    | .polling msg timeoutMs => pollStep b s i msg timeoutMs poll
    | _ => none
  | .write i io =>
    match s.pc i with
    | .writing call msg => writeStep b s i call msg io
    | _ => none
  | .read i io =>
    match s.pc i with
    | .reading msg => readStep b s i msg io
    | _ => none

/-! ### What the mailbox is for -/

/-- The message that a call passes. -/
def Call.sent (msgSize : ℕ) : Call → Option (List UInt8)
  | .push msg | .pushBlock msg _ => msg.map (·.load 0 msgSize)
  | .peek _ => none

/-- What a queue of messages does for a call that returns, and what it holds then. -/
inductive Serves (msgSize : ℕ) : List (List UInt8) → Returned ι → List (List UInt8) → Prop
  | pushed {q i call m} : Call.sent msgSize call = some m → Serves msgSize q ⟨i, call, 0, []⟩ (q ++ [m])
  | peeked {q i msg m} : Serves msgSize (m :: q) ⟨i, .peek (some msg), 0, m⟩ q
  /-- There is no message. -/
  | empty {i msg} : Serves msgSize [] ⟨i, .peek (some msg), -EAGAIN, []⟩ []
  /-- The call fails for another reason, and not with an error that it hides or cannot get. -/
  | refused {q i call} {ret : ℤ} : ret < 0 → ret ≠ -EINTR →
      (∀ msg, call = .peek msg → ret ≠ -EAGAIN) → Serves msgSize q ⟨i, call, ret, []⟩ q

/-- The calls that returned, one after the other, and the messages that are not read. -/
inductive History (msgSize : ℕ) : List (Returned ι) → List (List UInt8) → Prop
  | nil : History msgSize [] []
  | snoc {log q q' e} : History msgSize log q → Serves msgSize q e q' → History msgSize (log ++ [e]) q'

/-- The messages of the pushes that returned `0`. -/
def accepted (msgSize : ℕ) (log : List (Returned ι)) : List (List UInt8) :=
  log.filterMap fun e => if e.ret = 0 then e.call.sent msgSize else none

/-- The messages of the peeks that returned `0`. -/
def received (log : List (Returned ι)) : List (List UInt8) :=
  log.filterMap fun e =>
    match e.call with
    | .peek _ => if e.ret = 0 then some e.got else none
    | _ => none

/-- Of the threads, `p` alone calls the functions that push. -/
def SoleProducer (p : ι) (_ : Sys ι) : Act ι → Prop
  | .call i (.push _) | .call i (.pushBlock _ _) => i = p
  | _ => True

instance (p : ι) (s : Sys ι) : DecidablePred (SoleProducer p s)
  | .call i (.push _) => inferInstanceAs (Decidable (i = p))
  | .call i (.pushBlock _ _) => inferInstanceAs (Decidable (i = p))
  | .call _ (.peek _) => .isTrue trivial
  | .poll _ _ => .isTrue trivial
  | .write _ _ => .isTrue trivial
  | .read _ _ => .isTrue trivial

/-- What `mbox_push_block` returns when its write is not refused for want of room. -/
inductive Answers (msg : Option (Mem UInt8)) (timeoutMs : UInt32) : ℤ → Prop
  | pushed : msg.isSome → timeoutMs.toNat ≤ INT_MAX → Answers msg timeoutMs 0
  | invalid : msg = none ∨ INT_MAX < timeoutMs.toNat → Answers msg timeoutMs (-EINVAL)
  | timedOut : timeoutMs ≠ 0 → Answers msg timeoutMs (-ETIMEDOUT)
  /-- `poll` or `write` fails, otherwise than by a signal. -/
  | failed {e : Errno} : (e.1 : ℤ) ≠ EINTR → Answers msg timeoutMs (-(e.1 : ℤ))

end Futils.Mbox.Posix
