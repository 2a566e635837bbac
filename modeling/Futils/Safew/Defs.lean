import Mathlib.Data.UInt
import Futils.Lib.Crash
import Futils.Lib.LittleEndian

/-!
# Safe writing: the files and their recovery (`src/safew.c`)

A path has four files: the payload, its checksum, and a temporary of each.  A file is a string of
bytes; `unlink` and `rename` are the elementary actions on a disk.  `C` is what a disk keeps for a
file: the bytes here, and the bytes with those not yet synchronised in `Futils.Safew.Session`.  The
logs, and the errors of `fclose` on files that were only read, are left out.
-/

namespace Futils.Safew

open Futils.Lib

abbrev Bytes := List UInt8

/-! ### The checksum -/

/-- One turn of the loop of `crc_from_fhd`. -/
def crcStep (crc : UInt32) (val : UInt8) : UInt32 :=
  let crc := crc + val.toUInt32
  let crc := crc + crc <<< 10
  crc ^^^ (crc >>> 6)

def crcFromFhd (fhd : Bytes) : UInt32 :=
  let crc := fhd.foldl crcStep 0
  let crc := crc + crc <<< 3
  let crc := crc ^^^ (crc >>> 11)
  crc + crc <<< 15

/-- `sizeof(uint32_t)` -/
abbrev CRC_LEN : ℕ := 4

/-- A checksum as it lies in memory. -/
def crcBytes (crc : UInt32) : Bytes := leBytes CRC_LEN crc.toNat

/-- `read_crc`: `none` when the file is too short. -/
def readCrc (fhd : Bytes) : Option UInt32 :=
  if fhd.length < CRC_LEN then none else some (.ofNat (leNat (fhd.take CRC_LEN)))

def checkPair (payloadFhd crcFhd : Bytes) : ℤ :=
  match readCrc crcFhd with
  | none => -1
  | some crc => if crc ≠ crcFromFhd payloadFhd then -1 else 0

/-! ### The names -/

abbrev SAFEW_PATH_MAX_LEN : ℕ := 128

/-- `".tmp"` -/
def SAFEW_TMP_SUFFIX : Bytes := [0x2e, 0x74, 0x6d, 0x70]

/-- `".crc"` -/
def SAFEW_CRC_SUFFIX : Bytes := [0x2e, 0x63, 0x72, 0x63]

/-- The files of a path. -/
inductive FileName
  | payload | crc | tmp | crcTmp
  deriving DecidableEq

/-- The name of a file. -/
def FileName.path (pathname : Bytes) : FileName → Bytes
  | payload => pathname
  | crc => pathname ++ SAFEW_CRC_SUFFIX
  | tmp => pathname ++ SAFEW_TMP_SUFFIX
  | crcTmp => pathname ++ SAFEW_CRC_SUFFIX ++ SAFEW_TMP_SUFFIX

/-- The size of the buffer that holds it. -/
def FileName.bufSize : FileName → ℕ
  | payload => SAFEW_PATH_MAX_LEN
  | crc => SAFEW_PATH_MAX_LEN + SAFEW_CRC_SUFFIX.length
  | tmp => SAFEW_PATH_MAX_LEN + SAFEW_TMP_SUFFIX.length
  | crcTmp => SAFEW_PATH_MAX_LEN + (SAFEW_TMP_SUFFIX.length + SAFEW_CRC_SUFFIX.length)

/-- `snprintf` writes the name without truncating it. -/
def FileName.fits (pathname : Bytes) (n : FileName) : Bool := (n.path pathname).length < n.bufSize

/-- `struct futils_safew_crc` -/
structure SafewCrc where
  tmpPath : FileName
  path : FileName

def safewCreateCrcFilenames (pathname : Bytes) : Option SafewCrc :=
  if !FileName.crc.fits pathname then none
  else if !FileName.crcTmp.fits pathname then none
  else some ⟨.crcTmp, .crc⟩

/-- A path that is short enough. -/
structure Path where
  name : Bytes
  short : name.length < SAFEW_PATH_MAX_LEN

lemma FileName.fits_iff (pathname : Bytes) (n : FileName) :
    n.fits pathname = true ↔ pathname.length < SAFEW_PATH_MAX_LEN := by
  rw [fits, decide_eq_true_iff]
  cases n <;>
    simp only [path, bufSize, List.length_append, SAFEW_TMP_SUFFIX, SAFEW_CRC_SUFFIX,
      List.length_cons, List.length_nil] <;>
    omega

@[simp] lemma Path.fits (p : Path) (n : FileName) : n.fits p.name = true :=
  (n.fits_iff p.name).mpr p.short

@[simp] lemma Path.crcFilenames (p : Path) :
    safewCreateCrcFilenames p.name = some ⟨.crcTmp, .crc⟩ := by
  simp [safewCreateCrcFilenames]

/-- The four files are different ones. -/
theorem FileName.path_injective (pathname : Bytes) : Function.Injective (FileName.path pathname) := by
  intro m n h
  have hlen := congrArg List.length h
  cases m <;> cases n <;> simp_all [path, SAFEW_TMP_SUFFIX, SAFEW_CRC_SUFFIX]

/-! ### The disk -/

/-- What is kept for the files of a path, if they exist. -/
@[ext]
structure Disk (C : Type) where
  payload : Option C
  crc : Option C
  tmp : Option C
  crcTmp : Option C
  deriving DecidableEq

section Disk

variable {C : Type}

def Disk.get (d : Disk C) : FileName → Option C
  | .payload => d.payload
  | .crc => d.crc
  | .tmp => d.tmp
  | .crcTmp => d.crcTmp

def Disk.set (d : Disk C) (n : FileName) (f : Option C) : Disk C :=
  match n with
  | .payload => { d with payload := f }
  | .crc => { d with crc := f }
  | .tmp => { d with tmp := f }
  | .crcTmp => { d with crcTmp := f }

/-- `fopen(…, "r")` and the whole of the file. -/
def fopenRead (n : FileName) : Proc (Disk C) (Option C) := Proc.look (Disk.get · n)

/-- `unlink`, whose result is never looked at. -/
def unlink (n : FileName) : Proc (Disk C) Unit := Proc.act (Disk.set · n none) ()

/-- `rename`: it fails when there is no such file, or by a fault. -/
def rename (fault : Bool) (src dst : FileName) : Proc (Disk C) ℤ := do
  match ← fopenRead src with
  | none => pure (-1)
  | some f => if fault then pure (-1) else Proc.act (fun d => (d.set dst (some f)).set src none) 0

end Disk

/-! ### The recovery -/

/-- The two `rename` of a case of the recovery that moves both files, in its order. -/
def moveBoth (renameFault : FileName → Bool) (src₁ dst₁ src₂ dst₂ : FileName) :
    Proc (Disk Bytes) ℤ := do
  let ret ← rename (renameFault src₁) src₁ dst₁
  if ret < 0 then pure ret else rename (renameFault src₂) src₂ dst₂

/-- The `switch` over the files that are present. -/
def recover (renameFault : FileName → Bool) (payload crc tmpPayload tmpCrc : Option Bytes) :
    Proc (Disk Bytes) ℤ :=
  match payload, crc, tmpPayload, tmpCrc with
  | some payload, some crc, _, none => pure (checkPair payload crc)
  | some payload, none, none, some tmpCrc =>
    let ret := checkPair payload tmpCrc
    if ret < 0 then pure ret else rename (renameFault .crcTmp) .crcTmp .crc
  | none, none, some tmpPayload, some tmpCrc =>
    let ret := checkPair tmpPayload tmpCrc
    if ret < 0 then pure ret else moveBoth renameFault .tmp .payload .crcTmp .crc
  | some payload, some crc, none, some tmpCrc =>
    match readCrc crc with
    | none => pure (-1)
    | some crc =>
      let payloadCrc := crcFromFhd payload
      if crc = payloadCrc then pure 0
      else
        match readCrc tmpCrc with
        | none => pure (-1)
        | some crc =>
          if crc = payloadCrc then rename (renameFault .crcTmp) .crcTmp .crc else pure (-1)
  | some _, none, some tmpPayload, some tmpCrc
  | none, some _, some tmpPayload, some tmpCrc =>
    match readCrc tmpCrc with
    | none => pure (-1)
    | some tmpCrc =>
      if tmpCrc ≠ crcFromFhd tmpPayload then pure (-1)
      else moveBoth renameFault .crcTmp .crc .tmp .payload
  | some payload, some crc, some tmpPayload, some tmpCrc =>
    match readCrc tmpCrc with
    | none => pure (-1)
    | some tmpCrc =>
      if tmpCrc = crcFromFhd tmpPayload then moveBoth renameFault .crcTmp .crc .tmp .payload
      else
        match readCrc crc with
        | none => pure (-1)
        | some crc => if crc ≠ crcFromFhd payload then pure (-1) else pure 0
  -- nothing to match
  | _, _, _, _ => pure (-1)

def futilsSafewFileCheck (renameFault : FileName → Bool) (pathname : Bytes) :
    Proc (Disk Bytes) ℤ := do
  if !FileName.tmp.fits pathname then pure (-1)
  else
    match safewCreateCrcFilenames pathname with
    | none => pure (-1)
    | some crcFp =>
      let payloadFhd ← fopenRead .payload
      let tmpPayloadFhd ← fopenRead .tmp
      let crcFhd ← fopenRead crcFp.path
      let tmpCrcFhd ← fopenRead crcFp.tmpPath
      let ret ← recover renameFault payloadFhd crcFhd tmpPayloadFhd tmpCrcFhd
      unlink .tmp
      unlink crcFp.tmpPath
      if ret < 0 then
        unlink .payload
        unlink crcFp.path
      pure ret

end Futils.Safew
