import Futils.Errno
import Futils.Lib.Reach
import Mathlib.Algebra.Group.Nat.Defs
import Mathlib.Data.PNat.Notation

/-!
# The mailbox over Winsock (`src/mbox.c`)

The functions of the `_WIN32` build: one producer and one consumer, and the bytes of the socket pair
between them.  A step is one call of `send`, `select` or `recv`, with what it does; the socket is a reliable
stream that does not block.  Messages have the size that `mbox_new` was given, and each byte of the stream
has the number of the push that sent it.
-/

namespace Futils.Mbox

/-- `winsock2.h` -/
def WSAEWOULDBLOCK : ℤ := 10035

/-! ### What the system does -/

/-- What `send` or `recv` does: it moves some bytes, or fails with `WSAEWOULDBLOCK`. -/
inductive Io
  | moved (k : ℕ)
  | wouldBlock
  deriving DecidableEq

def Io.ret : Io → ℤ
  | moved k => k
  | wouldBlock => -1

def Io.count : Io → ℕ
  | moved k => k
  | wouldBlock => 0

/-- Of `n` bytes, at least one is moved. -/
def Io.Fits (n : ℕ) : Io → Prop
  | moved k => 1 ≤ k ∧ k ≤ n
  | wouldBlock => True

instance (n : ℕ) : DecidablePred (Io.Fits n)
  | .moved k => inferInstanceAs (Decidable (1 ≤ k ∧ k ≤ n))
  | .wouldBlock => .isTrue trivial

/-- What `select` does. -/
inductive Select
  | ready
  | timedOut
  | failed (errno : ℕ+)
  deriving DecidableEq

/-! ### What the functions return -/

/-- `mbox_push`, after `send` -/
def mboxPush (ret errno : ℤ) : ℤ :=
  if ret < 0 then if errno = WSAEWOULDBLOCK then -EAGAIN else - EIO else 0

/-- `mbox_peek`, after `recv` -/
def mboxPeek (ret errno : ℤ) : ℤ :=
  if ret = 0 then -EPIPE
  else if ret < 0 then if errno = WSAEWOULDBLOCK then -EAGAIN else - EIO else 0

/-- `struct timeval` -/
structure Timeval where
  tvSec : ℤ
  tvUsec : ℤ
  deriving DecidableEq

/-- What `mbox_push_block` gives to `select`: no timeout once bytes are sent.  The microseconds are all of
`timeout_ms * 1000`, an `unsigned int` that is put in a `long` of the same width. -/
def pushBlockTv (timeoutMs done : ℕ) : Option Timeval :=
  if timeoutMs > 0 ∧ done = 0 then
    some ⟨(timeoutMs / 1000 : ℕ), Int.bmod (timeoutMs * 1000) (2 ^ 32)⟩
  else none

/-! ### The system -/

/-- A byte, and the push that sent it. -/
structure Cell where
  byte : UInt8
  push : ℕ
  deriving DecidableEq

/-- A call of `mbox_push_block`, of which `done` bytes are sent; `ready` after `select`. -/
structure Block where
  push : ℕ
  msg : List UInt8
  timeoutMs : ℕ
  done : ℕ
  ready : Bool
  deriving DecidableEq

/-- The bytes in the socket, the call that the producer is in, and how many pushes were started; and
besides, the messages of the pushes that returned `0`, the pushes that returned something negative, and
what `recv` wrote for the peeks that returned `0`. -/
structure Sys where
  stream : List Cell
  block : Option Block
  pushes : ℕ
  accepted : List (List Cell)
  refused : List ℕ
  reads : List (List Cell)
  deriving DecidableEq

def Sys.start : Sys := ⟨[], none, 0, [], [], []⟩

inductive Act
  /-- `mbox_push`, with what `send` does -/
  | push (msg : List UInt8) (io : Io)
  /-- `mbox_push_block` is called -/
  | pushBlock (msg : List UInt8) (timeoutMs : ℕ)
  /-- its `select` -/
  | select (result : Select)
  /-- its `send` -/
  | send (io : Io)
  /-- `mbox_peek`, with what `recv` does -/
  | peek (io : Io)
  deriving DecidableEq

/-- The bytes of a push. -/
def cells (push : ℕ) (bytes : List UInt8) : List Cell := bytes.map fun byte => ⟨byte, push⟩

/-- A push returns. -/
def Sys.finish (s : Sys) (push : ℕ) (msg : List UInt8) (ret : ℤ) : Sys :=
  if ret < 0 then { s with block := none, refused := s.refused ++ [push] }
  else { s with block := none, accepted := s.accepted ++ [cells push msg] }

/-- The rest of a turn of the loop of `mbox_push_block`, after `select`. -/
def selectStep (s : Sys) (b : Block) : Select → Sys
  | .ready => { s with block := some { b with ready := true } }
  | .timedOut => if b.done = 0 then s.finish b.push b.msg (-ETIMEDOUT) else s
  | .failed errno => s.finish b.push b.msg (-(errno : ℕ))

/-- The rest of a turn, after `send`. -/
def sendStep (msgSize : ℕ) (s : Sys) (b : Block) : Io → Sys
  | .wouldBlock => s.finish b.push b.msg (-WSAEWOULDBLOCK)
  | .moved k =>
    let s := { s with stream := s.stream ++ cells b.push ((b.msg.drop b.done).take k) }
    let done := b.done + k
    if done < msgSize then { s with block := some { b with done := done, ready := false } }
    else s.finish b.push b.msg 0

def step (msgSize : ℕ) (s : Sys) : Act → Option Sys
  | .push msg io =>
    if s.block = none ∧ msg.length = msgSize ∧ io.Fits msgSize then
      let sent := cells s.pushes (msg.take io.count)
      let s' := { s with stream := s.stream ++ sent, pushes := s.pushes + 1 }
      some (s'.finish s.pushes msg (mboxPush io.ret WSAEWOULDBLOCK))
    else none
  | .pushBlock msg timeoutMs =>
    if s.block = none ∧ msg.length = msgSize then
      some { s with block := some ⟨s.pushes, msg, timeoutMs, 0, false⟩, pushes := s.pushes + 1 }
    else none
  | .select result =>
    match s.block with
    | none => none
    | some b =>
      if b.ready = false ∧ (result = .timedOut → (pushBlockTv b.timeoutMs b.done).isSome) then
        some (selectStep s b result)
      else none
  | .send io =>
    match s.block with
    | none => none
    | some b =>
      if b.ready = true ∧ io.Fits (msgSize - b.done) then some (sendStep msgSize s b io) else none
  | .peek io =>
    if io.Fits (min msgSize s.stream.length) then
      if mboxPeek io.ret WSAEWOULDBLOCK < 0 then some s
      else some { s with
        stream := s.stream.drop io.count
        reads := s.reads ++ [s.stream.take io.count] }
    else none

end Futils.Mbox
