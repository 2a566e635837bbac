import Futils.Fs.Walk

/-!
# The size of a tree

Of a tree that does not change and that the process has the descriptors to walk, `futils_fs_dir_size` returns
the size of the regular files.  Where a path is longer than the buffer it is cut, and what is found is not what
lies there: a directory whose path fills the buffer is found again as its own first entry.
-/

namespace Futils.Fs

open Futils.Lib

variable {env : Env} {recursive : Bool} {fds : ℕ} {path name : Path} {size : ℤ} {node : Node}
  {entries : List (Path × Node)} {calls : List Call}

/-- What the function adds of the entries of a directory. -/
def sizeAll (recursive : Bool) (entries : List (Path × Node)) : ℕ :=
  if recursive then totalAll entries else directAll entries

lemma sizeAll_file (recursive : Bool) (n : ℕ) :
    sizeAll recursive ((name, .file n) :: entries) = n + sizeAll recursive entries := by
  cases recursive with
  | true => simp [sizeAll, totalAll, Node.total]
  | false => simp [sizeAll, directAll]

lemma sizeAll_other (recursive : Bool) :
    sizeAll recursive ((name, .other) :: entries) = sizeAll recursive entries := by
  cases recursive with
  | true => simp [sizeAll, totalAll, Node.total]
  | false => simp [sizeAll, directAll]

lemma sizeAll_dir (below : List (Path × Node)) :
    sizeAll true ((name, .dir below) :: entries) = totalAll below + sizeAll true entries := by
  simp [sizeAll, totalAll, Node.total]

lemma sizeAll_skip (below : List (Path × Node)) :
    sizeAll false ((name, .dir below) :: entries) = sizeAll false entries := rfl

lemma entryPath_of_short (h : (path ++ ch '/' :: name).length < FILENAME_MAX) :
    entryPath path name = path ++ ch '/' :: name := List.take_of_length_le (Nat.le_sub_one_of_lt h)

lemma add64_of_le {a b : ℤ} (hle : a + b ≤ 9223372036854775807) (hpos : 0 ≤ a + b) :
    add64 a b = some (a + b) := by
  unfold add64
  rw [if_pos]
  unfold Fits
  omega

/-- **The loop over the entries** of a directory in the tree. -/
lemma addEntries_size {dirSize : Path → List Call → Option ℤ × List Call}
    (hsub : recursive = true → ∀ path entries calls, env.Lists path (entries.map Prod.fst) →
      env.HoldsAll path entries → depthAll entries < fds → (totalAll entries : ℤ) ≤ 9223372036854775807 →
      (dirSize path calls).1 = some (totalAll entries : ℤ))
    {last : Except ℕ+ (Option Path)} {all : List Path} (hall : all.filter (fun name => !special name) = entries.map Prod.fst)
    (hholds : env.HoldsAll path entries) (hdepth : recursive = true → depthAll entries ≤ fds)
    (hsize : 0 ≤ size) (hfits : size + sizeAll recursive entries ≤ 9223372036854775807) :
    (addEntries env recursive dirSize path last all size calls).1 = some (size + sizeAll recursive entries) := by
  induction all generalizing entries size calls with
  | nil =>
    cases entries with
    | nil => cases recursive <;> exact congrArg some (Int.add_zero size).symm
    | cons entry entries => cases hall
  | cons name all ih =>
    rw [addEntries]
    by_cases hspecial : special name = true
    · rw [if_pos hspecial]
      rw [List.filter_cons_of_neg (by rw [hspecial]; decide)] at hall
      exact ih hall hholds hdepth hsize hfits
    rw [if_neg hspecial]
    rw [List.filter_cons_of_pos (by rw [Bool.eq_false_iff.mpr hspecial]; rfl)] at hall
    cases entries with
    | nil => cases hall
    | cons entry entries =>
      obtain ⟨name', node⟩ := entry
      obtain ⟨rfl, hrest⟩ := List.cons.inj hall
      rw [Env.HoldsAll] at hholds
      obtain ⟨hshort, hnode, hholds⟩ := hholds
      rw [entryPath_of_short hshort]
      dsimp only
      generalize calls ++ [Call.readdir path (.ok (some name))] = calls
      have hdepth' : recursive = true → node.depth ≤ fds ∧ depthAll entries ≤ fds := by
        intro hrec
        have hmax := hdepth hrec
        rw [depthAll] at hmax
        exact ⟨(Nat.le_max_left ..).trans hmax, (Nat.le_max_right ..).trans hmax⟩
      cases node with
      | file n =>
        rw [Env.Holds] at hnode
        rw [hnode calls]
        rw [sizeAll_file] at hfits ⊢
        push_cast at hfits ⊢
        rw [add64_of_le (by omega) (by omega), ← Int.add_assoc]
        exact ih hrest hholds (fun hrec => (hdepth' hrec).2) (by omega) (by omega)
      | other =>
        rw [Env.Holds] at hnode
        obtain ⟨n, hfinds⟩ := hnode
        rw [hfinds calls]
        rw [sizeAll_other] at hfits ⊢
        exact ih hrest hholds (fun hrec => (hdepth' hrec).2) hsize hfits
      | dir below =>
        rw [Env.Holds] at hnode
        obtain ⟨⟨n, hfinds⟩, hlists, hbelow⟩ := hnode
        rw [hfinds calls]
        cases recursive with
        | false =>
          rw [sizeAll_skip] at hfits ⊢
          exact ih hrest hholds (fun hrec => (hdepth' hrec).2) hsize hfits
        | true =>
          rw [sizeAll_dir] at hfits ⊢
          push_cast at hfits ⊢
          have hdeep : depthAll below < fds := by
            have hnode := (hdepth' rfl).1
            rwa [Node.depth] at hnode
          have hret := hsub rfl _ below (calls ++ [.lstat (path ++ ch '/' :: name) (.ok ⟨.dir, n⟩)]) hlists hbelow
            hdeep (by omega)
          generalize dirSize (path ++ ch '/' :: name) _ = run at hret ⊢
          obtain ⟨ret, calls'⟩ := run
          obtain rfl : ret = some (totalAll below : ℤ) := hret
          dsimp only
          rw [if_neg (by omega), add64_of_le (by omega) (by omega), ← Int.add_assoc]
          exact ih hrest hholds (fun hrec => (hdepth' hrec).2) (by omega) (by omega)

/-- **The size of a tree** that the system finds and that the descriptors suffice for: with `recursive`, of all
the regular files in it, and without, of those directly in the directory. -/
theorem futilsFsDirSize_size (hmalloc : ∀ calls path, env.malloc calls path = true)
    (hlists : env.Lists path (entries.map Prod.fst)) (hholds : env.HoldsAll path entries)
    (hdepth : recursive = true → depthAll entries < fds) (hfds : 0 < fds)
    (hfits : (sizeAll recursive entries : ℤ) ≤ 9223372036854775807) :
    (futilsFsDirSize env recursive fds path calls).1 = some (sizeAll recursive entries : ℤ) := by
  induction fds generalizing recursive path entries calls with
  | zero => exact absurd hfds (Nat.lt_irrefl 0)
  | succ fds ih =>
    obtain ⟨all, hopen, hall⟩ := hlists calls
    rw [futilsFsDirSize, hopen]
    dsimp only
    rw [if_pos (hmalloc _ _)]
    dsimp only
    rw [addEntries_size ?_ hall hholds (fun hrec => Nat.le_of_lt_succ (hdepth hrec)) (Int.le_refl 0) (by omega),
      Int.zero_add]
    rintro rfl path entries calls hlists hholds hdeep hfits
    exact ih hlists hholds (fun _ => hdeep) (Nat.zero_lt_of_lt hdeep) hfits

/-- A directory `d` with a file `a` and a directory `s`, which has a file `b`. -/
def smallTree : List (Path × Node) :=
  [(chars ['a'], .file 3), (chars ['s'], .dir [(chars ['b'], .file 5)])]

def smallEnv : Env where
  opendir _ path :=
    if path = chars ['d'] then .ok ⟨[chars ['.'], chars ['a'], chars ['s'], chars ['.', '.']], none⟩
    else if path = chars ['d', '/', 's'] then .ok ⟨[chars ['b'], chars ['.', '.'], chars ['.']], none⟩
    else .error ⟨2, by decide⟩
  malloc _ _ := true
  lstat _ path :=
    if path = chars ['d', '/', 'a'] then .ok ⟨.reg, 3⟩
    else if path = chars ['d', '/', 's', '/', 'b'] then .ok ⟨.reg, 5⟩
    else .ok ⟨.dir, 4096⟩

theorem futilsFsDirSize_size_small :
    (futilsFsDirSize smallEnv true 2 (chars ['d']) []).1 = some 8 ∧
      (futilsFsDirSize smallEnv false 2 (chars ['d']) []).1 = some 3 := by
  have hlists : smallEnv.Lists (chars ['d']) (smallTree.map Prod.fst) := fun _ => ⟨_, rfl, rfl⟩
  have hbelow : smallEnv.Lists (chars ['d', '/', 's']) [chars ['b']] := fun _ => ⟨_, rfl, rfl⟩
  have hholds : smallEnv.HoldsAll (chars ['d']) smallTree := by
    simp only [smallTree, Env.HoldsAll, Env.Holds]
    exact ⟨by decide, fun _ => rfl, by decide, ⟨⟨4096, fun _ => rfl⟩, hbelow, by decide, fun _ => rfl, trivial⟩,
      trivial⟩
  exact ⟨futilsFsDirSize_size (fun _ _ => rfl) hlists hholds (by decide) (by decide) (by decide),
    futilsFsDirSize_size (fun _ _ => rfl) hlists hholds nofun (by decide) (by decide)⟩

/-! ### Paths that are cut -/

/-- The first entry of a directory whose path fills the buffer is the directory again. -/
lemma entryPath_of_full (hlen : path.length = FILENAME_MAX - 1) : entryPath path name = path :=
  List.take_left' hlen

/-- The loop stops at the first entry, when the level below fails there. -/
lemma addEntries_first {dirSize : Path → List Call → Option ℤ × List Call} {names all : List Path} {ret : ℤ}
    {last : Except ℕ+ (Option Path)}
    (hdir : ∃ size, env.Finds (entryPath path name) .dir size)
    (hsub : ∀ calls, (dirSize (entryPath path name) calls).1 = some ret) (hret : ret < 0)
    (hall : all.filter (fun name => !special name) = name :: names) :
    (addEntries env true dirSize path last all size calls).1 = some ret := by
  obtain ⟨n, hfinds⟩ := hdir
  induction all generalizing calls with
  | nil => cases hall
  | cons name' all ih =>
    rw [addEntries]
    by_cases hspecial : special name' = true
    · rw [if_pos hspecial]
      rw [List.filter_cons_of_neg (by rw [hspecial]; decide)] at hall
      exact ih hall
    · rw [if_neg hspecial]
      rw [List.filter_cons_of_pos (by rw [Bool.eq_false_iff.mpr hspecial]; rfl)] at hall
      obtain ⟨rfl, -⟩ := List.cons.inj hall
      dsimp only
      generalize calls ++ [Call.readdir path (.ok (some name'))] = calls
      rw [hfinds calls]
      have hrun := hsub (calls ++ [.lstat (entryPath path name') (.ok ⟨.dir, n⟩)])
      generalize dirSize (entryPath path name') _ = run at hrun ⊢
      obtain ⟨ret', calls'⟩ := run
      obtain rfl : ret' = some ret := hrun
      dsimp only
      rw [if_pos hret]

/-- **A directory whose path fills the buffer** has no size, unless it is empty: the function goes into the
directory itself again and again, until there are no descriptors left. -/
theorem futilsFsDirSize_cut {names : List Path} (hmalloc : ∀ calls path, env.malloc calls path = true)
    (hlen : path.length = FILENAME_MAX - 1) (hdir : ∃ size, env.Finds path .dir size)
    (hlists : env.Lists path (name :: names)) (fds : ℕ) (calls : List Call) :
    (futilsFsDirSize env true fds path calls).1 = some (-((EMFILE : ℕ) : ℤ)) := by
  have hpath : entryPath path name = path := entryPath_of_full hlen
  induction fds generalizing calls with
  | zero => rfl
  | succ fds ih =>
    obtain ⟨all, hopen, hall⟩ := hlists calls
    rw [futilsFsDirSize, hopen]
    dsimp only
    rw [if_pos (hmalloc _ _)]
    exact addEntries_first (hpath.symm ▸ hdir) (hpath.symm ▸ ih) (by decide) hall

/-- A directory that is found at every path, and has one entry. -/
def deepEnv : Env := ⟨fun _ _ => .ok ⟨[chars ['x']], none⟩, fun _ _ => true, fun _ _ => .ok ⟨.dir, 4096⟩⟩

theorem futilsFsDirSize_cut_deep :
    (futilsFsDirSize deepEnv true 1000 (List.replicate 4095 (ch 'a')) []).1 = some (-24) :=
  futilsFsDirSize_cut (fun _ _ => rfl) List.length_replicate ⟨4096, fun _ => rfl⟩ (fun _ => ⟨_, rfl, rfl⟩) 1000 []

end Futils.Fs
