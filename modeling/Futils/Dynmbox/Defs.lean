import Futils.Errno
import Futils.Lib.LittleEndian
import Futils.Lib.Mem

/-!
# The mailbox (`src/dynmbox.c`)

The ring buffer and the functions that the two threads call under the lock.  Messages lie in the
ring one after the other, each preceded by its length as a 32-bit word.  An `assert` that fails is
`none`.  `none` as a pointer is `NULL`; the memory behind `msg` is as long as the caller says.  The
lock, the pipe and the condition variable are those of `Futils.Dynmbox.Threads`; the mailbox that
the functions are called on is never `NULL` here.
-/

namespace Futils.Dynmbox

open Futils.Lib

/-- `sizeof(uint32_t)` -/
abbrev HDR_LEN : ℕ := 4

abbrev DYNMBOX_MAX_SIZE : ℕ := 65536 - HDR_LEN

abbrev ALLOCATED_LEN : ℕ := DYNMBOX_MAX_SIZE + HDR_LEN

/-- An index into `bufmem`. -/
abbrev Idx := Fin ALLOCATED_LEN

/-- `struct dynmbox` -/
structure DynMbox where
  maxMsgSize : ℕ
  bufmem : Mem UInt8
  writeIdx : Idx
  readIdx : Idx
  used : ℕ

/-- `dynmbox_new`: the outcomes of `calloc`, `malloc` (with the uninitialised memory it returns) and
`init_notify_channel` are arguments. -/
def dynmboxNew (maxMsgSize : ℕ) (calloc : Bool) (malloc : Option (Mem UInt8))
    (initNotifyChannel : ℤ) : Option DynMbox :=
  if maxMsgSize > DYNMBOX_MAX_SIZE then none
  else if !calloc then none
  else
    match malloc with
    | none => none
    | some bufmem =>
      if initNotifyChannel ≠ 0 then none else some ⟨maxMsgSize, bufmem, 0, 0, 0⟩

/-! ### The ring buffer -/

def increment (idx : Idx) (amount : ℕ) : Option Idx :=
  let following := ALLOCATED_LEN - idx
  if h : amount ≤ ALLOCATED_LEN then
    if h' : amount ≥ following then some ⟨amount - following, by omega⟩
    else some ⟨idx + amount, by omega⟩
  else none

def rbufIsEmpty (box : DynMbox) : Bool := box.used == 0

def rbufSpaceLeft (box : DynMbox) : ℕ := ALLOCATED_LEN - box.used

def rbufSpaceUsed (box : DynMbox) : ℕ := box.used

/-- The loop of `rbuf_write`, over `bufmem` and `write_idx`. -/
def rbufWriteLoop (bytes : Mem UInt8) (bufmem : Mem UInt8) (writeIdx : Idx) (done left : ℕ) :
    Option (Mem UInt8 × Idx) :=
  if left > 0 then
    let chunklen := if ALLOCATED_LEN - writeIdx > left then left else ALLOCATED_LEN - writeIdx
    match increment writeIdx chunklen with
    | none => none
    | some idx =>
      rbufWriteLoop bytes (bufmem.store writeIdx (bytes.load done chunklen)) idx (done + chunklen)
        (left - chunklen)
  else some (bufmem, writeIdx)
termination_by left
decreasing_by split <;> omega

def rbufWrite (box : DynMbox) (data : Mem UInt8) (len : ℕ) : Option DynMbox :=
  if len ≤ rbufSpaceLeft box then
    match rbufWriteLoop data box.bufmem box.writeIdx 0 len with
    | none => none
    | some (bufmem, writeIdx) =>
      some { box with bufmem := bufmem, writeIdx := writeIdx, used := box.used + len }
  else none

/-- The loop of `rbuf_read`, over the output buffer and `read_idx`. -/
def rbufReadLoop (bufmem : Mem UInt8) (bytes : Mem UInt8) (readIdx : Idx) (done left : ℕ) :
    Option (Mem UInt8 × Idx) :=
  if left > 0 then
    let chunklen := if ALLOCATED_LEN - readIdx > left then left else ALLOCATED_LEN - readIdx
    match increment readIdx chunklen with
    | none => none
    | some idx =>
      rbufReadLoop bufmem (bytes.store done (bufmem.load readIdx chunklen)) idx (done + chunklen)
        (left - chunklen)
  else some (bytes, readIdx)
termination_by left
decreasing_by split <;> omega

def rbufRead (box : DynMbox) (buf : Mem UInt8) (len : ℕ) : Option (DynMbox × Mem UInt8) :=
  if len ≤ rbufSpaceUsed box then
    match rbufReadLoop box.bufmem buf box.readIdx 0 len with
    | none => none
    | some (buf, readIdx) => some ({ box with readIdx := readIdx, used := box.used - len }, buf)
  else none

/-! ### Messages -/

/-- A `uint32_t` variable as memory. -/
def hdrMem (hdr : ℕ) : Mem UInt8 := Mem.store (fun _ => 0) 0 (leBytes HDR_LEN hdr)

def doPush (box : DynMbox) (msg : Mem UInt8) (msgSize : ℕ) : Option (ℤ × DynMbox) :=
  if rbufSpaceLeft box < msgSize + HDR_LEN then some (-EAGAIN, box)
  else
    let hdr := msgSize % 2 ^ 32
    match rbufWrite box (hdrMem hdr) HDR_LEN with
    | none => none
    | some box =>
      match rbufWrite box msg msgSize with
      | none => none
      | some box => some (0, box)

/-- The header is read into an uninitialised variable, `hdr₀`. -/
def doPeek (box : DynMbox) (hdr₀ : Mem UInt8) (msg : Mem UInt8) :
    Option (ℤ × DynMbox × Mem UInt8) :=
  if rbufIsEmpty box then some (-EAGAIN, box, msg)
  else if rbufSpaceUsed box ≥ HDR_LEN then
    match rbufRead box hdr₀ HDR_LEN with
    | none => none
    | some (box, hdr) =>
      let hdr := leNat (hdr.load 0 HDR_LEN)
      if hdr ≤ box.maxMsgSize ∧ rbufSpaceUsed box ≥ hdr then
        match rbufRead box msg hdr with
        | none => none
        | some (box, msg) => some (hdr, box, msg)
      else none
  else none

/-! ### The calls -/

/-- The test that both push functions make of their arguments. -/
def badMsg (box : DynMbox) (msg : Option (Mem UInt8)) (msgSize : ℕ) : Bool :=
  msgSize > box.maxMsgSize || (msgSize > 0 && msg.isNone)

/-- `dynmbox_push`, less the notification that follows a success.  With `msgSize = 0` the pointer
is never followed. -/
def dynmboxPush (box : DynMbox) (msg : Option (Mem UInt8)) (msgSize : ℕ) : Option (ℤ × DynMbox) :=
  if badMsg box msg msgSize then some (-EINVAL, box) else doPush box (msg.getD fun _ => 0) msgSize

/-- `dynmbox_peek`, less the read of the notification and the signal.  The emptiness is tested
before the notification is read, and once more in `do_peek`. -/
def dynmboxPeek (box : DynMbox) (hdr₀ : Mem UInt8) (msg : Option (Mem UInt8)) :
    Option (ℤ × DynMbox × Option (Mem UInt8)) :=
  match msg with
  | none => some (-EINVAL, box, none)
  | some m =>
    if rbufIsEmpty box then some (-EAGAIN, box, some m)
    else
      match doPeek box hdr₀ m with
      | none => none
      | some (msglen, box, m) => some (msglen, box, some m)

end Futils.Dynmbox
