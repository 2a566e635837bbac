import Futils.Errno
import Futils.Lib.Base128

/-!
# Variable-length integers (`src/varint.c`)

A pointer argument is an `Option`: `none` is `NULL`.  `src` and `dst` point into a memory, of which
the caller vouches for the first `srcLen` (`dstLen`) bytes only; `val` and `valLen` point to a cell
whose content before the call is the argument and whose content after it is in the result.

`ReadRes.reads` and `ReadRes.shifts` are ghosts: the indices of `src` that the call looks at and
the amounts that it shifts by, in order.
-/

namespace Futils.Varint

open Futils.Lib

/-- What a reader leaves behind. -/
structure ReadRes (α : Type) where
  ret : ℤ
  val : Option α
  valLen : Option ℕ
  reads : List ℕ
  shifts : List ℕ

/-- What the loop of the reader leaves behind. -/
structure LoopRes where
  ret : ℤ
  val : UInt64
  offset : ℕ
  reads : List ℕ
  shifts : List ℕ

/-- What a writer leaves behind. -/
structure WriteRes where
  ret : ℤ
  dst : Option (Mem UInt8)
  valLen : Option ℕ

/-! ### Reading -/

/-- The `do … while (more)` loop of `futils_varint_read`.  The condition is evaluated from left to
right, so `src[offset]` is looked at only when both bounds are met. -/
def readLoop (src : Mem UInt8) (srcLen valLenMax : ℕ) (val : UInt64) (shift offset : ℕ) : LoopRes :=
  -- a shift by 64 or more is undefined; the processor takes the amount modulo 64, as `<<<` does
  let val' := val ||| ((src offset &&& 0x7f).toUInt64 <<< shift.toUInt64)
  let more := src offset &&& 0x80
  let offset' := offset + 1
  let shift' := shift + 7
  if offset' > srcLen ∨ offset' > valLenMax then
    ⟨-EPROTO, val', offset', [offset, offset], [shift]⟩
  else
    let peek := if offset' = valLenMax then [offset'] else []
    if offset' = valLenMax ∧ src offset' &&& 0x0f ≠ 0 then
      ⟨-EPROTO, val', offset', [offset, offset] ++ peek, [shift]⟩
    else if more ≠ 0 then
      let r := readLoop src srcLen valLenMax val' shift' offset'
      ⟨r.ret, r.val, r.offset, [offset, offset] ++ peek ++ r.reads, shift :: r.shifts⟩
    else ⟨0, val', offset', [offset, offset] ++ peek, [shift]⟩
termination_by valLenMax - offset

/-- `futils_varint_read` -/
def varintRead (src : Option (Mem UInt8)) (srcLen : ℕ) (val : Option UInt64) (valLen : Option ℕ)
    (valLenMax : ℕ) : ReadRes UInt64 :=
  match src, val, valLen with
  | some m, some _, some len =>
    if srcLen = 0 then ⟨-EINVAL, val, valLen, [], []⟩
    else
      let r := readLoop m srcLen valLenMax 0 0 0
      ⟨r.ret, some r.val, some (if r.ret = 0 then r.offset else len), r.reads, r.shifts⟩
  | _, _, _ => ⟨-EINVAL, val, valLen, [], []⟩

/-- The readers that decode into a 64-bit local and convert it, on every path. -/
def readAs {α : Type} (conv : UInt64 → α) (valLenMax : ℕ) (src : Option (Mem UInt8)) (srcLen : ℕ)
    (val : Option α) (valLen : Option ℕ) : ReadRes α :=
  match val with
  | none => ⟨-EINVAL, none, valLen, [], []⟩
  | some _ =>
    let r := varintRead src srcLen (some 0) valLen valLenMax
    ⟨r.ret, some (conv (r.val.getD 0)), r.valLen, r.reads, r.shifts⟩

def varintReadU16 : Option (Mem UInt8) → ℕ → Option UInt16 → Option ℕ → ReadRes UInt16 :=
  readAs (fun val64 => val64.toUInt16) (2 + 1)

/-- The operands are promoted to `int` before the complement and the exclusive or. -/
def varintReadI16 : Option (Mem UInt8) → ℕ → Option Int16 → Option ℕ → ReadRes Int16 :=
  readAs (fun val64 => ((val64 >>> 1).toUInt16.toInt16.toInt32 ^^^
    -(val64 &&& 0x1).toUInt16.toInt16.toInt32).toInt16) (2 + 1)

def varintReadU32 : Option (Mem UInt8) → ℕ → Option UInt32 → Option ℕ → ReadRes UInt32 :=
  readAs (fun val64 => val64.toUInt32) (4 + 1)

def varintReadI32 : Option (Mem UInt8) → ℕ → Option Int32 → Option ℕ → ReadRes Int32 :=
  readAs (fun val64 => (val64 >>> 1).toUInt32.toInt32 ^^^ -(val64 &&& 0x1).toUInt32.toInt32) (4 + 1)

/-- The only reader that hands the caller's cell to `futils_varint_read`. -/
def varintReadU64 (src : Option (Mem UInt8)) (srcLen : ℕ) (val : Option UInt64)
    (valLen : Option ℕ) : ReadRes UInt64 :=
  varintRead src srcLen val valLen (8 + 2)

def varintReadI64 : Option (Mem UInt8) → ℕ → Option Int64 → Option ℕ → ReadRes Int64 :=
  readAs (fun val64 => (val64 >>> 1).toInt64 ^^^ -(val64 &&& 0x1).toInt64) (8 + 2)

/-! ### Writing -/

/-- The `do … while (more)` loop of `futils_varint_write`: the memory and `off` at its end. -/
def writeLoop (dst : Mem UInt8) (val : UInt64) (off : ℕ) : Mem UInt8 × ℕ :=
  let byte := (val &&& 0x7f).toUInt8
  let val' := val >>> 7
  if val' ≠ 0 then writeLoop (dst.store off [byte ||| 0x80]) val' (off + 1)
  else (dst.store off [byte], off + 1)
termination_by val.toNat
decreasing_by
  have h : val'.toNat ≠ 0 := fun h => ‹val' ≠ 0› (UInt64.toNat_inj.mp h)
  simp only [val', UInt64.toNat_shiftRight] at h ⊢
  simp only [UInt64.reduceToNat, Nat.reduceMod, Nat.shiftRight_eq_div_pow] at h ⊢
  omega

/-- `futils_varint_write` -/
def varintWrite (dst : Option (Mem UInt8)) (dstLen : ℕ) (val : UInt64) (valLen : Option ℕ)
    (valLenMax : ℕ) : WriteRes :=
  match dst, valLen with
  | some m, some _ =>
    if dstLen < valLenMax then ⟨-EINVAL, dst, valLen⟩
    else
      let r := writeLoop m val 0
      ⟨0, some r.1, some r.2⟩
  | _, _ => ⟨-EINVAL, dst, valLen⟩

def varintWriteU16 (dst : Option (Mem UInt8)) (dstLen : ℕ) (val : UInt16) (valLen : Option ℕ) :
    WriteRes :=
  varintWrite dst dstLen val.toUInt64 valLen (2 + 1)

/-- `val` is promoted to `int`, so the shifts work on 32 bits and the cast cuts the result. -/
def varintWriteI16 (dst : Option (Mem UInt8)) (dstLen : ℕ) (val : Int16) (valLen : Option ℕ) :
    WriteRes :=
  let val64 := ((val.toInt32 <<< 1) ^^^ (val.toInt32 >>> 15)).toUInt32.toUInt16.toUInt64
  varintWrite dst dstLen val64 valLen (2 + 1)

def varintWriteU32 (dst : Option (Mem UInt8)) (dstLen : ℕ) (val : UInt32) (valLen : Option ℕ) :
    WriteRes :=
  varintWrite dst dstLen val.toUInt64 valLen (4 + 1)

def varintWriteI32 (dst : Option (Mem UInt8)) (dstLen : ℕ) (val : Int32) (valLen : Option ℕ) :
    WriteRes :=
  let val64 := ((val <<< 1) ^^^ (val >>> 31)).toUInt32.toUInt64
  varintWrite dst dstLen val64 valLen (4 + 1)

def varintWriteU64 (dst : Option (Mem UInt8)) (dstLen : ℕ) (val : UInt64) (valLen : Option ℕ) :
    WriteRes :=
  varintWrite dst dstLen val valLen (8 + 2)

def varintWriteI64 (dst : Option (Mem UInt8)) (dstLen : ℕ) (val : Int64) (valLen : Option ℕ) :
    WriteRes :=
  let val64 := ((val <<< 1) ^^^ (val >>> 63)).toUInt64
  varintWrite dst dstLen val64 valLen (8 + 2)

/-! ### The six formats -/

/-- The formats of the interface. -/
inductive Fmt
  | u16 | i16 | u32 | i32 | u64 | i64
  deriving DecidableEq, Repr

namespace Fmt

/-- The type of `*val`. -/
abbrev Val : Fmt → Type
  | u16 => UInt16
  | i16 => Int16
  | u32 => UInt32
  | i32 => Int32
  | u64 => UInt64
  | i64 => Int64

/-- The number of bits of the type. -/
def width : Fmt → ℕ
  | u16 | i16 => 16
  | u32 | i32 => 32
  | u64 | i64 => 64

/-- The longest code, in bytes. -/
def valLenMax : Fmt → ℕ
  | u16 | i16 => 3
  | u32 | i32 => 5
  | u64 | i64 => 10

/-- `futils_varint_read_<fmt>` -/
def read : (f : Fmt) → Option (Mem UInt8) → ℕ → Option f.Val → Option ℕ → ReadRes f.Val
  | u16 => varintReadU16
  | i16 => varintReadI16
  | u32 => varintReadU32
  | i32 => varintReadI32
  | u64 => varintReadU64
  | i64 => varintReadI64

/-- `futils_varint_write_<fmt>` -/
def write : (f : Fmt) → Option (Mem UInt8) → ℕ → f.Val → Option ℕ → WriteRes
  | u16 => varintWriteU16
  | i16 => varintWriteI16
  | u32 => varintWriteU32
  | i32 => varintWriteI32
  | u64 => varintWriteU64
  | i64 => varintWriteI64

end Fmt

end Futils.Varint
