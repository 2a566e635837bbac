import Futils.Safew.Defs

/-!
# Safe writing: the session (`src/safew.c`)

While a session writes, a file is the bytes that are on the device and those that are not
synchronised yet, of which a crash leaves any prefix.  Every call of the C library or of the system
may fail, as `Faults` says.  The build is the one with `fsync`.
-/

namespace Futils.Safew

open Futils.Lib

/-! ### Files while they are written -/

/-- What is on the device, and what is written but not synchronised. -/
structure File where
  synced : Bytes
  pending : Bytes
  deriving DecidableEq

def File.content (f : File) : Bytes := f.synced ++ f.pending

def File.sync (f : File) : File := ⟨f.content, []⟩

/-- All but the first `k` of the pending bytes are lost. -/
def File.lose (k : ℕ) (f : File) : File := { f with pending := f.pending.take k }

/-- The calls that may fail. -/
inductive Site
  | calloc | fopen | fflush | fsync | fclose
  | crcFopenRead | crcFcloseRead | crcFopen | crcFwrite | crcFflush | crcFsync | crcFclose
  | rename (src : FileName)
  deriving DecidableEq

/-- `some k` for the calls that fail; a stream then keeps `k` bytes of what it had to write. -/
abbrev Faults := Site → Option ℕ

def noFaults : Faults := fun _ => none

def Disk.modify {C : Type} (d : Disk C) (n : FileName) (g : C → C) : Disk C :=
  d.set n ((d.get n).map g)

/-- `fopen(…, "w")` -/
def fopenWrite (n : FileName) : Proc (Disk File) Unit :=
  Proc.act (Disk.set · n (some ⟨[], []⟩)) ()

/-- `fwrite` of single bytes: the number of those that are written. -/
def fwrite (n : FileName) (bytes : Bytes) (fault : Option ℕ) : Proc (Disk File) ℕ :=
  let done := fault.elim bytes bytes.take
  Proc.act (Disk.modify · n fun f => { f with pending := f.pending ++ done }) done.length

/-- A call on a stream that returns 0 or a negative value. -/
def streamCall (n : FileName) (done : File → File) (fault : Option ℕ) : Proc (Disk File) ℤ :=
  Proc.act (Disk.modify · n (fault.elim done File.lose)) (if fault.isSome then -1 else 0)

/-- What is flushed has reached the system but not the device. -/
def fflush (n : FileName) : Option ℕ → Proc (Disk File) ℤ := streamCall n id

def fsync (n : FileName) : Option ℕ → Proc (Disk File) ℤ := streamCall n File.sync

def fclose (n : FileName) : Option ℕ → Proc (Disk File) ℤ := streamCall n id

/-! ### The checksum file -/

def crcFromFile (faults : Faults) (pathname : FileName) : Proc (Disk File) (ℤ × UInt32) := do
  match ← fopenRead pathname with
  | none => pure (-1, 0)
  | some fhd =>
    if (faults .crcFopenRead).isSome then pure (-1, 0)
    else
      let crc := crcFromFhd fhd.content
      pure (if (faults .crcFcloseRead).isSome then -1 else 0, crc)

/-- The part of `safew_tmp_crc_create` that writes the file. -/
def writeCrc (faults : Faults) (crcTmpPath : FileName) (crc : UInt32) : Proc (Disk File) ℤ := do
  fopenWrite crcTmpPath
  let written ← fwrite crcTmpPath (crcBytes crc) (faults .crcFwrite)
  let ret := if written ≠ CRC_LEN then -1 else 0
  let flushed ← fflush crcTmpPath (faults .crcFflush)
  let ret := if flushed < 0 then -1 else ret
  let synced ← fsync crcTmpPath (faults .crcFsync)
  let ret := if synced ≠ 0 then -1 else ret
  let closed ← fclose crcTmpPath (faults .crcFclose)
  pure (if closed < 0 then -1 else ret)

def safewTmpCrcCreate (faults : Faults) (pathname crcTmpPath : FileName) :
    Proc (Disk File) ℤ := do
  let (ret, crc) ← crcFromFile faults pathname
  if ret < 0 then pure ret
  else if (faults .crcFopen).isSome then pure (-1)
  else writeCrc faults crcTmpPath crc

/-! ### The session -/

/-- `struct futils_safew_file`, the stream being that of `.tmp`. -/
structure SafewFile where
  path : Path
  failure : Bool

def futilsSafewFopen (faults : Faults) (pathname : Bytes) :
    Proc (Disk File) (Option SafewFile) := do
  if (faults .calloc).isSome then pure none
  else if !FileName.tmp.fits pathname then pure none
  else if h : FileName.payload.fits pathname then
    unlink .tmp
    if (faults .fopen).isSome then pure none
    else
      fopenWrite .tmp
      pure (some ⟨⟨pathname, (FileName.fits_iff pathname .payload).mp h⟩, false⟩)
  else pure none

/-- `fwrite` counts whole items, and none at all if they are empty. -/
def futilsSafewFwrite (ptr : Bytes) (size nmemb : ℕ) (fault : Option ℕ) (safewFp : SafewFile) :
    Proc (Disk File) (ℕ × SafewFile) := do
  let written ← fwrite .tmp (ptr.take (size * nmemb)) fault
  let ret := written / size
  pure (ret, if ret ≠ nmemb then { safewFp with failure := true } else safewFp)

/-- `text` is what the format comes to. -/
def futilsSafewFprintf (text : Bytes) (fault : Option ℕ) (safewFp : SafewFile) :
    Proc (Disk File) (ℤ × SafewFile) := do
  let written ← fwrite .tmp text fault
  let ret : ℤ := if fault.isSome then -1 else written
  pure (ret, if ret < 0 then { safewFp with failure := true } else safewFp)

/-- The commit up to the `fclose` of the temporary payload. -/
def closePayload (faults : Faults) (safewFp : SafewFile) : Proc (Disk File) ℤ := do
  let ret : ℤ ← if safewFp.failure then pure (-1)
    else do
      let flushed ← fflush .tmp (faults .fflush)
      let ret : ℤ := if flushed ≠ 0 then -1 else 0
      let synced ← fsync .tmp (faults .fsync)
      pure (if synced ≠ 0 then -1 else ret)
  let closed ← fclose .tmp (faults .fclose)
  pure (if closed ≠ 0 then -1 else ret)

/-- The names of the checksum files, and the temporary one of them. -/
def createCrc (faults : Faults) (safewFp : SafewFile) : Proc (Disk File) (ℤ × Option SafewCrc) := do
  match safewCreateCrcFilenames safewFp.path.name with
  | none => pure (-1, none)
  | some crcFp =>
    let ret ← safewTmpCrcCreate faults .tmp crcFp.tmpPath
    pure (ret, some crcFp)

/-- The two `rename`. -/
def moveFiles (faults : Faults) (crcFp : Option SafewCrc) (ret : ℤ) : Proc (Disk File) ℤ := do
  let ret ← if ret = 0 then rename (faults (.rename .tmp)).isSome .tmp .payload else pure ret
  match crcFp with
  | some crcFp =>
    if ret = 0 then rename (faults (.rename crcFp.tmpPath)).isSome crcFp.tmpPath crcFp.path
    else pure ret
  | none => pure ret

/-- The `unlink` of a commit that failed. -/
def removeFiles (crcFp : Option SafewCrc) : Proc (Disk File) Unit := do
  unlink .tmp
  match crcFp with
  | some crcFp =>
    unlink crcFp.path
    unlink crcFp.tmpPath
  | none => pure ()

/-- `crcFp` is `none` as long as the names are empty: `unlink` of an empty name does nothing. -/
def safewFcloseCommit (faults : Faults) (safewFp : SafewFile) (withCrc : Bool) :
    Proc (Disk File) ℤ := do
  let ret ← closePayload faults safewFp
  let (ret, crcFp) ← if ret = 0 ∧ withCrc then createCrc faults safewFp else pure (ret, none)
  let ret ← moveFiles faults crcFp ret
  if ret < 0 then removeFiles crcFp
  pure (if ret = 0 then 0 else -1)

def futilsSafewFcloseCommit (faults : Faults) (safewFp : SafewFile) : Proc (Disk File) ℤ :=
  safewFcloseCommit faults safewFp false

def futilsSafewFcloseCommitWithCrc (faults : Faults) (safewFp : SafewFile) : Proc (Disk File) ℤ :=
  safewFcloseCommit faults safewFp true

/-- The `unlink` fails when there is no such file. -/
def futilsSafewFcloseRollback (faults : Faults) (_ : SafewFile) : Proc (Disk File) ℤ := do
  let closed ← fclose .tmp (faults .fclose)
  let ret : ℤ := if closed ≠ 0 then -1 else 0
  let found ← fopenRead .tmp
  unlink .tmp
  pure (if found.isNone then -1 else ret)

/-! ### A whole session -/

/-- A write with its outcome. -/
inductive WriteCall
  | fwrite (ptr : Bytes) (size nmemb : ℕ) (fault : Option ℕ)
  | fprintf (text : Bytes) (fault : Option ℕ)

/-- What the write is to append. -/
def WriteCall.data : WriteCall → Bytes
  | fwrite ptr size nmemb _ => ptr.take (size * nmemb)
  | fprintf text _ => text

def WriteCall.run : WriteCall → SafewFile → Proc (Disk File) SafewFile
  | fwrite ptr size nmemb fault, safewFp => do
    let r ← futilsSafewFwrite ptr size nmemb fault safewFp
    pure r.2
  | fprintf text fault, safewFp => do
    let r ← futilsSafewFprintf text fault safewFp
    pure r.2

def writes : List WriteCall → SafewFile → Proc (Disk File) SafewFile
  | [], safewFp => pure safewFp
  | w :: ws, safewFp => do
    let safewFp ← w.run safewFp
    writes ws safewFp

/-- Open, write, and commit with a checksum. -/
def session (faults : Faults) (pathname : Bytes) (ws : List WriteCall) : Proc (Disk File) Unit := do
  match ← futilsSafewFopen faults pathname with
  | none => pure ()
  | some safewFp =>
    let safewFp ← writes ws safewFp
    let _ ← futilsSafewFcloseCommitWithCrc faults safewFp
    pure ()

end Futils.Safew
