import Futils.Fs.DirSize
import Mathlib.Algebra.BigOperators.Group.List.Basic

/-!
# What `futils_fs_dir_size` does in every environment

The calls that it makes say what it returns, whatever the system does: this is proved for the loop over the
entries, from the same for the level below, and then by induction on the descriptors that are left.
-/

namespace Futils.Fs

open Futils.Lib

variable {env : Env} {recursive : Bool} {fds : ℕ} {path : Path} {size : ℤ} {call : Call}
  {calls calls' : List Call} {ret : Option ℤ}

lemma added_cons (size : ℤ) (call : Call) (calls : List Call) :
    added size (call :: calls) = added (size + call.regular) calls := by
  unfold added
  rw [List.map_cons, List.sum_cons, Int.natCast_add, Int.add_assoc]

lemma added_append (size : ℤ) (calls calls' : List Call) :
    added size (calls ++ calls') = added (added size calls) calls' := by
  unfold added
  rw [List.map_append, List.sum_append, Int.natCast_add, Int.add_assoc]

lemma le_added (size : ℤ) (calls : List Call) : size ≤ added size calls := by
  unfold added
  omega

/-- The loop goes on after a call that neither takes something nor fails. -/
lemma Tells.cons (h : Tells fds (size + call.regular) calls ret) (huse : call.use = none)
    (herror : call.error = none) : Tells fds size (call :: calls) ret := by
  have huses : (call :: calls).filterMap Call.use = calls.filterMap Call.use := List.filterMap_cons_none huse
  have herrors : (call :: calls).filterMap Call.error = calls.filterMap Call.error :=
    List.filterMap_cons_none herror
  cases h with
  | fails hnests hfails hneg => exact .fails (huses ▸ hnests) (herrors ▸ hfails) hneg
  | adds hnests hfails =>
    rw [← added_cons]
    exact .adds (huses ▸ hnests) (herrors ▸ hfails)
  | overflows hfits =>
    rw [← added_cons] at hfits
    exact .overflows hfits

/-- The loop goes on after a run that added its size. -/
lemma Tells.append (hnests : Nests Resource.isDir (fun _ => fds) (calls.filterMap Call.use))
    (herrors : calls.filterMap Call.error = []) (h : Tells fds (added size calls) calls' ret) :
    Tells fds size (calls ++ calls') ret := by
  have happend : (calls ++ calls').filterMap Call.error = calls'.filterMap Call.error := by
    rw [List.filterMap_append, herrors, List.nil_append]
  have huses : (calls ++ calls').filterMap Call.use = calls.filterMap Call.use ++ calls'.filterMap Call.use :=
    List.filterMap_append
  cases h with
  | fails hnests' hfails hneg =>
    exact .fails (huses ▸ hnests.append hnests') (happend ▸ hfails) hneg
  | adds hnests' hfails =>
    rw [← added_append]
    exact .adds (huses ▸ hnests.append hnests') (happend ▸ hfails)
  | overflows hfits =>
    rw [← added_append] at hfits
    exact .overflows hfits

lemma add64_eq_none {a b : ℤ} : add64 a b = none ↔ ¬ Fits (a + b) := by
  unfold add64
  split_ifs with hfits <;> simp [hfits]

lemma add64_eq_some {a b c : ℤ} (h : add64 a b = some c) : c = a + b := by
  unfold add64 at h
  split_ifs at h
  exact (Option.some.inj h).symm

lemma added_nil (size : ℤ) : added size [] = size := Int.add_zero size

/-- A run tells what it returns by the calls that it makes. -/
def Runs (fds : ℕ) (size : ℤ) (run : List Call → Option ℤ × List Call) : Prop :=
  ∀ calls, ∃ made, (run calls).2 = calls ++ made ∧ Tells fds size made (run calls).1

/-! ### The loop -/

/-- A run goes on after a call. -/
lemma exists_cons {run : Option ℤ × List Call} {size' : ℤ} (call : Call) (hsize : size + call.regular = size')
    (huse : call.use = none) (herror : call.error = none)
    (h : ∃ made, run.2 = calls ++ [call] ++ made ∧ Tells fds size' made run.1) :
    ∃ made, run.2 = calls ++ made ∧ Tells fds size made run.1 := by
  obtain ⟨made, hmade, htells⟩ := h
  rw [← hsize] at htells
  refine ⟨call :: made, ?_, htells.cons huse herror⟩
  rw [hmade, List.append_assoc, List.singleton_append]

/-- The loop adds what it was given, or stops when that overflows. -/
lemma exists_add {n : ℤ} {next : ℤ → List Call → Option ℤ × List Call} (hsize : 0 ≤ size + n)
    (hnext : ∀ size, 0 ≤ size → Runs fds size (next size)) (calls : List Call) :
    let run := match add64 size n with
      | none => (none, calls)
      | some size => next size calls
    ∃ made, run.2 = calls ++ made ∧ Tells fds (size + n) made run.1 := by
  dsimp only
  rcases hadd : add64 size n with _ | sum
  · refine ⟨[], (List.append_nil calls).symm, .overflows ?_⟩
    rw [added_nil]
    exact add64_eq_none.mp hadd
  · obtain rfl := add64_eq_some hadd
    exact hnext _ hsize calls

/-- **The loop over the entries** tells what it returns, when the level below does. -/
lemma addEntries_runs {dirSize : Path → List Call → Option ℤ × List Call}
    (hsub : ∀ path, Runs fds 0 (dirSize path)) (last : Except ℕ+ (Option Path)) (names : List Path) (size : ℤ)
    (hsize : 0 ≤ size) : Runs fds size (addEntries env recursive dirSize path last names size) := by
  induction names generalizing size with
  | nil =>
    intro calls
    refine ⟨[.readdir path last], rfl, ?_⟩
    have hadds : Tells fds size [.readdir path last] (some (added size [.readdir path last])) := .adds nests_nil rfl
    have hsame : added size [.readdir path last] = size := Int.add_zero size
    rwa [hsame] at hadds
  | cons name names ih =>
    intro calls
    rw [addEntries]
    refine exists_cons (.readdir path (.ok (some name))) (Int.add_zero size) rfl rfl ?_
    dsimp only
    generalize calls ++ [Call.readdir path (.ok (some name))] = calls
    by_cases hspecial : special name = true
    · rw [if_pos hspecial]
      exact ih size hsize calls
    rw [if_neg hspecial]
    generalize entryPath path name = filepath
    rcases env.lstat calls filepath with errno | ⟨kind, n⟩
    · refine ⟨[_], rfl, .fails nests_nil ?_ (Int.neg_neg_of_pos (Int.natCast_pos.mpr errno.2))⟩
      simp [Call.error]
    dsimp only
    cases kind with
    | reg =>
      refine exists_cons (.lstat filepath (.ok ⟨.reg, n⟩)) rfl rfl rfl ?_
      exact exists_add (Int.add_nonneg hsize (Int.natCast_nonneg n)) ih _
    | other =>
      refine exists_cons (.lstat filepath (.ok ⟨.other, n⟩)) (Int.add_zero size) rfl rfl ?_
      exact ih size hsize _
    | dir =>
      refine exists_cons (.lstat filepath (.ok ⟨.dir, n⟩)) (Int.add_zero size) rfl rfl ?_
      generalize calls ++ [Call.lstat filepath (.ok ⟨.dir, n⟩)] = calls
      cases recursive with
      | false => exact ih size hsize calls
      | true =>
        obtain ⟨made, hmade, htells⟩ := hsub filepath calls
        dsimp only
        generalize dirSize filepath calls = run at *
        obtain ⟨ret, calls'⟩ := run
        obtain rfl : calls' = calls ++ made := hmade
        cases htells with
        | @fails ret hnests hfails hneg =>
          dsimp only
          rw [if_pos hneg]
          exact ⟨made, rfl, .fails hnests hfails hneg⟩
        | overflows hfits =>
          refine ⟨made, rfl, .overflows ?_⟩
          have hle : added 0 made ≤ added size made := by
            unfold added
            omega
          have hpos := le_added 0 made
          unfold Fits at *
          omega
        | adds hnests hfails =>
          have hpos : 0 ≤ added 0 made := le_added 0 made
          have hsum : size + added 0 made = added size made := by
            unfold added
            omega
          dsimp only
          rw [if_neg (Int.not_lt.mpr hpos)]
          obtain ⟨made', hmade', htells'⟩ := exists_add (Int.add_nonneg hsize hpos) ih (calls ++ made)
          rw [hsum] at htells'
          exact ⟨made ++ made', hmade'.trans (List.append_assoc ..), .append hnests hfails htells'⟩

/-! ### The recursion -/

/-- The calls of a level, around those of the loop. -/
def levelCalls (path : Path) (made : List Call) : List Call :=
  [.opendir path (.ok ()), .malloc path true] ++ made ++ [.free path, .closedir path]

/-- **A level holds a directory and a buffer** while the loop runs. -/
lemma Tells.level (h : Tells fds 0 calls ret) (path : Path) : Tells (fds + 1) 0 (levelCalls path calls) ret := by
  have huse : (levelCalls path calls).filterMap Call.use =
      .take (.dir path) :: (.take (.buffer path) :: calls.filterMap Call.use ++ [.drop (.buffer path)]) ++
        [.drop (.dir path)] := by
    simp [levelCalls, Call.use, List.filterMap_append]
  have herror : (levelCalls path calls).filterMap Call.error = calls.filterMap Call.error := by
    simp [levelCalls, List.filterMap_cons, Call.error]
  have hadded : added 0 (levelCalls path calls) = added 0 calls := by
    simp [levelCalls, added, Call.regular]
  have hnests (h : Nests Resource.isDir (fun _ => fds) (calls.filterMap Call.use)) :
      Nests Resource.isDir (fun _ => fds + 1) ((levelCalls path calls).filterMap Call.use) := by
    rw [huse]
    have hbuffer := h.wrap (l := fun c => if c then fds else fds + 1) (.buffer path) (by simp [Resource.isDir])
    exact hbuffer.wrap (.dir path) (by simp [Resource.isDir])
  cases h with
  | fails hs hfails hneg => exact .fails (hnests hs) (herror ▸ hfails) hneg
  | adds hs hfails =>
    rw [← hadded]
    exact .adds (hnests hs) (herror ▸ hfails)
  | overflows hfits =>
    rw [← hadded] at hfits
    exact .overflows hfits

/-- **A run, whatever the system does**, gives back all that it takes and returns the error of the one call
that fails, or the sizes of the regular files that it finds. -/
lemma futilsFsDirSize_runs (env : Env) (recursive : Bool) (fds : ℕ) (path : Path) :
    Runs fds 0 (futilsFsDirSize env recursive fds path) := by
  induction fds generalizing path with
  | zero =>
    intro calls
    refine ⟨[_], rfl, .fails nests_nil ?_ (Int.neg_neg_of_pos (Int.natCast_pos.mpr EMFILE.2))⟩
    simp [Call.error]
  | succ fds ih =>
    intro calls
    rw [futilsFsDirSize]
    rcases env.opendir calls path with errno | dir
    · refine ⟨[_], rfl, .fails nests_nil ?_ (Int.neg_neg_of_pos (Int.natCast_pos.mpr errno.2))⟩
      simp [Call.error]
    dsimp only
    split_ifs with halloc
    · obtain ⟨made, hmade, htells⟩ := addEntries_runs ih dir.last dir.names 0 (Int.le_refl 0) _
      refine ⟨levelCalls path made, ?_, htells.level path⟩
      dsimp only
      rw [hmade]
      simp [levelCalls]
    · refine ⟨[.opendir path (.ok ()), .malloc path false, .closedir path], ?_, .fails ?_ rfl (by decide)⟩
      · simp
      · refine Nests.wrap (k := fun _ => 0) nests_nil (Resource.dir path) fun c => ?_
        split_ifs <;> omega

/-- **A run, whatever the system does**: every directory that it opens is closed and every buffer freed, the last
one first and no more than `fds` of each at once; it returns the error of the one call that fails, or, when none
but `readdir` does, the sizes of the regular files that it finds. -/
theorem futilsFsDirSize_tells (env : Env) (recursive : Bool) (fds : ℕ) (path : Path) :
    Tells fds 0 (futilsFsDirSize env recursive fds path []).2 (futilsFsDirSize env recursive fds path []).1 := by
  obtain ⟨made, hmade, htells⟩ := futilsFsDirSize_runs env recursive fds path []
  rw [hmade]
  exact htells

/-- A directory that cannot be read has the size of what was read of it. -/
example : futilsFsDirSize ⟨fun _ _ => .ok ⟨[chars ['a']], some ⟨5, by simp⟩⟩, fun _ _ => true,
    fun _ _ => .ok ⟨.reg, 7⟩⟩ true 1 (chars ['d']) [] =
      (some 7, [.opendir (chars ['d']) (.ok ()), .malloc (chars ['d']) true,
        .readdir (chars ['d']) (.ok (some (chars ['a']))), .lstat (chars ['d', '/', 'a']) (.ok ⟨.reg, 7⟩),
        .readdir (chars ['d']) (.error ⟨5, by simp⟩), .free (chars ['d']), .closedir (chars ['d'])]) := rfl

end Futils.Fs
