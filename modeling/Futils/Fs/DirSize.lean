import Futils.Errno
import Futils.Lib.Checked
import Futils.Lib.CString
import Futils.Lib.Ledger
import Mathlib.Algebra.GroupWithZero.Nat
import Mathlib.Data.PNat.Notation

/-!
# The size of a directory (`src/fs.c`)

`futils_fs_dir_size`.  What the system does may depend on the calls that were made before, which are
recorded.  A `readdir` that fails gives `NULL` like one at the end of its directory, and its error is not looked
at.  Each level of the recursion holds a descriptor, so that the number of those that the process has left bounds
its depth.  The logs are left out.
-/

namespace Futils.Fs

open Futils.Lib

/-- A path or a name, without the zero that ends it. -/
abbrev Path := List UInt8

def EMFILE : ℕ+ := ⟨24, by decide⟩

/-- `stdio.h` -/
def FILENAME_MAX : ℕ := 4096

/-- What `S_ISREG` and `S_ISDIR` tell of a mode. -/
inductive Kind
  | reg
  | dir
  | other
  deriving DecidableEq

/-- `struct stat` -/
structure Stat where
  kind : Kind
  size : ℕ
  deriving DecidableEq

/-- What `readdir` gives of a directory: names, and then `NULL`, at the end of the directory or with an error. -/
structure Listing where
  names : List Path
  error : Option ℕ+

/-- What the last `readdir` gives. -/
def Listing.last (l : Listing) : Except ℕ+ (Option Path) :=
  match l.error with
  | none => .ok none
  | some errno => .error errno

/-- A system call, and what it gives; of the calls that concern no path, the path of the function that makes
them. -/
inductive Call
  | opendir (path : Path) (result : Except ℕ+ Unit)
  | readdir (path : Path) (result : Except ℕ+ (Option Path))
  | malloc (path : Path) (ok : Bool)
  | lstat (path : Path) (result : Except ℕ+ Stat)
  | free (path : Path)
  | closedir (path : Path)

/-- What the system does after some calls; with a directory that is opened comes what `readdir` will give. -/
structure Env where
  opendir : List Call → Path → Except ℕ+ Listing
  malloc : List Call → Path → Bool
  lstat : List Call → Path → Except ℕ+ Stat

/-- `"."` and `".."` -/
def special (name : Path) : Bool := name = chars ['.'] ∨ name = chars ['.', '.']

/-- `snprintf(filepath, FILENAME_MAX, "%s/%s", path, name)` -/
def entryPath (path name : Path) : Path := (path ++ ch '/' :: name).take (FILENAME_MAX - 1)

/-- An addition of `int64_t`, which is undefined when it overflows. -/
def add64 (a b : ℤ) : Option ℤ := if Fits (a + b) then some (a + b) else none

/-- The loop over the entries, from the size of those before: the value that the function returns.  `none`
when an addition overflows. -/
def addEntries (env : Env) (recursive : Bool) (dirSize : Path → List Call → Option ℤ × List Call)
    (path : Path) (last : Except ℕ+ (Option Path)) : List Path → ℤ → List Call → Option ℤ × List Call
  | [], size, calls => (some size, calls ++ [.readdir path last])
  | name :: names, size, calls =>
    let calls := calls ++ [.readdir path (.ok (some name))]
    if special name then addEntries env recursive dirSize path last names size calls
    else
      let filepath := entryPath path name
      let result := env.lstat calls filepath
      let calls := calls ++ [.lstat filepath result]
      match result with
      | .error errno => (some (-(errno : ℕ)), calls)
      | .ok stats =>
        match stats.kind, recursive with
        | .reg, _ =>
          match add64 size stats.size with
          | none => (none, calls)
          | some size => addEntries env recursive dirSize path last names size calls
        | .dir, true =>
          match dirSize filepath calls with
          | (none, calls) => (none, calls)
          | (some ret, calls) =>
            if ret < 0 then (some ret, calls)
            else
              match add64 size ret with
              | none => (none, calls)
              | some size => addEntries env recursive dirSize path last names size calls
        | _, _ => addEntries env recursive dirSize path last names size calls

/-- `futils_fs_dir_size`, when `fds` more descriptors can be opened. -/
def futilsFsDirSize (env : Env) (recursive : Bool) : ℕ → Path → List Call → Option ℤ × List Call
  | 0, path, calls => (some (-(EMFILE : ℕ)), calls ++ [.opendir path (.error EMFILE)])
  | fds + 1, path, calls =>
    match env.opendir calls path with
    | .error errno => (some (-(errno : ℕ)), calls ++ [.opendir path (.error errno)])
    | .ok dir =>
      let calls := calls ++ [.opendir path (.ok ())]
      if env.malloc calls path then
        let calls := calls ++ [.malloc path true]
        let (ret, calls) :=
          addEntries env recursive (futilsFsDirSize env recursive fds) path dir.last dir.names 0 calls
        (ret, calls ++ [.free path, .closedir path])
      else (some (-ENOMEM), calls ++ [.malloc path false, .closedir path])

/-! ### What the calls tell -/

/-- What a level of the recursion holds. -/
inductive Resource
  | dir (path : Path)
  | buffer (path : Path)
  deriving DecidableEq

def Resource.isDir : Resource → Bool
  | dir _ => true
  | buffer _ => false

def Call.use : Call → Option (Use Resource)
  | opendir path (.ok _) => some (.take (.dir path))
  | malloc path true => some (.take (.buffer path))
  | free path => some (.drop (.buffer path))
  | closedir path => some (.drop (.dir path))
  | _ => none

/-- The error of a call that fails, if it is looked at: that of `readdir` is not. -/
def Call.error : Call → Option ℤ
  | opendir _ (.error errno) | lstat _ (.error errno) => some (errno : ℕ)
  | malloc _ false => some ENOMEM
  | _ => none

/-- The size of a regular file that is found. -/
def Call.regular : Call → ℕ
  | lstat _ (.ok ⟨.reg, size⟩) => size
  | _ => 0

/-- The sizes of the regular files that are found, added to `size`. -/
def added (size : ℤ) (calls : List Call) : ℤ := size + (calls.map Call.regular).sum

/-- All that the calls tell of what is returned, when the size was `size` before them. -/
inductive Tells (fds : ℕ) (size : ℤ) (calls : List Call) : Option ℤ → Prop
  /-- Every directory is closed and every buffer freed, the last one first, and at most `fds` of each are held at
  once.  One call other than `readdir` fails, and its error is returned. -/
  | fails {ret} : Nests Resource.isDir (fun _ => fds) (calls.filterMap Call.use) → calls.filterMap Call.error = [-ret] →
      ret < 0 → Tells fds size calls (some ret)
  /-- The same, and none fails. -/
  | adds : Nests Resource.isDir (fun _ => fds) (calls.filterMap Call.use) → calls.filterMap Call.error = [] →
      Tells fds size calls (some (added size calls))
  | overflows : ¬ Fits (added size calls) → Tells fds size calls none

/-! ### What the function is for -/

/-- What lies at a path. -/
inductive Node
  | file (size : ℕ)
  | other
  | dir (entries : List (Path × Node))

mutual

/-- The size of the regular files in a tree. -/
def Node.total : Node → ℕ
  | .file size => size
  | .other => 0
  | .dir entries => totalAll entries

def totalAll : List (Path × Node) → ℕ
  | [] => 0
  | (_, node) :: entries => node.total + totalAll entries

end

/-- Of those that lie directly in a directory. -/
def directAll : List (Path × Node) → ℕ
  | [] => 0
  | (_, .file size) :: entries => size + directAll entries
  | _ :: entries => directAll entries

mutual

/-- How many directories are on the longest way down. -/
def Node.depth : Node → ℕ
  | .dir entries => depthAll entries + 1
  | _ => 0

def depthAll : List (Path × Node) → ℕ
  | [] => 0
  | (_, node) :: entries => max node.depth (depthAll entries)

end

/-- `lstat` finds a file of this kind and size, at any time. -/
def Env.Finds (env : Env) (path : Path) (kind : Kind) (size : ℕ) : Prop :=
  ∀ calls, env.lstat calls path = .ok ⟨kind, size⟩

/-- The directory has entries of these names, besides `.` and `..`, and `readdir` gives all of them. -/
def Env.Lists (env : Env) (path : Path) (names : List Path) : Prop :=
  ∀ calls, ∃ all, env.opendir calls path = .ok ⟨all, none⟩ ∧ all.filter (fun name => !special name) = names

mutual

/-- The system finds the tree at the path, and no path in it is too long for the buffer. -/
def Env.Holds (env : Env) (path : Path) : Node → Prop
  | .file size => env.Finds path .reg size
  | .other => ∃ size, env.Finds path .other size
  | .dir entries => (∃ size, env.Finds path .dir size) ∧ env.Lists path (entries.map Prod.fst) ∧
      env.HoldsAll path entries

def Env.HoldsAll (env : Env) (path : Path) : List (Path × Node) → Prop
  | [] => True
  | (name, node) :: entries => (path ++ ch '/' :: name).length < FILENAME_MAX ∧
      env.Holds (path ++ ch '/' :: name) node ∧ env.HoldsAll path entries

end

end Futils.Fs
