import Futils.Errno
import Futils.Lib.Transfer
import Futils.Random.Pool

/-!
# Bytes from the kernel (`src/random.c`)

`rand_fetch` of the builds for POSIX, with `getrandom` or without.  What the system calls do is an input:
`Os`.  A run in which the outcomes that are listed do not suffice is one that has not ended, and is `none`.
-/

namespace Futils.Random

open Futils.Lib

def GRND_NONBLOCK : ℕ := 1
def GRND_RANDOM : ℕ := 2
def GRND_INSECURE : ℕ := 4

/-- What bytes are asked from: `getrandom` with these flags, or a file. -/
inductive Source
  | getrandom (flags : ℕ)
  | device (path : String)
  deriving DecidableEq

/-- What the calls of `getrandom` and `read` give, in order, and the error of `open`, if it fails. -/
structure Os where
  getrandom : List (Gives UInt8 ℕ+)
  opened : Option ℕ+
  read : List (Gives UInt8 ℕ+)

/-- What `rand_fetch` returns, what it leaves in the buffer, the calls that it made for bytes, and the path that
it opened. -/
structure Fetched where
  ret : ℤ
  mem : Mem UInt8
  blocks : List (Block Source UInt8)
  opened : Option String

def devPath (strong : Bool) : String := if strong then "/dev/random" else "/dev/urandom"

def grnd (strong : Bool) : ℕ := if strong then GRND_RANDOM else GRND_INSECURE ||| GRND_NONBLOCK

/-- `errno == EINTR` -/
def interrupted (errno : ℕ+) : Bool := ((errno : ℕ) : ℤ) = EINTR

/-- The first loop.  It ends at any other error, with a message or, for `ENOSYS` and `EAGAIN`, without. -/
def getrandomLoop (strong : Bool) : Cursor Source UInt8 → List (Gives UInt8 ℕ+) →
    Option (Ending ℕ+ × Cursor Source UInt8) :=
  transfer interrupted (.getrandom (grnd strong))

/-- The second loop. -/
def readLoop (strong : Bool) : Cursor Source UInt8 → List (Gives UInt8 ℕ+) →
    Option (Ending ℕ+ × Cursor Source UInt8) :=
  transfer interrupted (.device (devPath strong))

/-- `ret`, by what ends the second loop. -/
def readRet : Ending ℕ+ → ℤ
  | .full => 0
  | .empty => -EAGAIN
  | .error errno => -(errno : ℕ)

/-- From `open` on. -/
def devFetch (strong : Bool) (os : Os) (s : Cursor Source UInt8) : Option Fetched :=
  match os.opened with
  | some errno => some ⟨-(errno : ℕ), s.mem, s.blocks, some (devPath strong)⟩
  | none => (readLoop strong s os.read).map fun r =>
      ⟨readRet r.1, r.2.mem, r.2.blocks, some (devPath strong)⟩

def randFetch (haveGetrandom : Bool) (os : Os) (buffer : Mem UInt8) (len : ℕ) (strong : Bool) :
    Option Fetched :=
  let s : Cursor Source UInt8 := ⟨buffer, 0, len, []⟩
  if haveGetrandom then
    match getrandomLoop strong s os.getrandom with
    | none => none
    | some (_, s) => if s.len = 0 then some ⟨0, s.mem, s.blocks, none⟩ else devFetch strong os s
  else devFetch strong os s

/-- `buffer` is `none` for `NULL`; the memory is what `rand_fetch` leaves there. -/
def futilsRandomStrong (haveGetrandom : Bool) (os : Os) (buffer : Option (Mem UInt8)) (len : ℕ) :
    Option (ℤ × Option (Mem UInt8)) :=
  match buffer with
  | none => some (-EINVAL, none)
  | some mem =>
    if len = 0 then some (-EINVAL, some mem)
    else (randFetch haveGetrandom os mem len true).map fun r => (r.ret, some r.mem)

variable {haveGetrandom strong : Bool} {os : Os} {buffer : Mem UInt8} {len : ℕ} {r : Fetched}
  {s : Cursor Source UInt8}

/-! ### What is written -/

/-- What a run leaves: the calls wrote the first bytes of the buffer one after the other, and nothing else; all of
them when the run succeeds, and a negative value is returned otherwise. -/
structure Fetched.Sound (buffer : Mem UInt8) (len : ℕ) (r : Fetched) : Prop where
  ret : r.ret = 0 ∨ r.ret < 0
  full : r.ret = 0 → r.blocks.flatMap Block.addresses = List.range len
  inside : r.blocks.flatMap Block.addresses <+: List.range len
  mem : r.mem = buffer.store 0 (r.blocks.flatMap Block.items)

/-- Where the bytes of a run come from. -/
structure Fetched.From (strong : Bool) (os : Os) (r : Fetched) : Prop where
  blocks : ∀ b ∈ r.blocks, b.From (.getrandom (grnd strong)) os.getrandom ∨
    b.From (.device (devPath strong)) os.read
  opened : ∀ path, r.opened = some path → path = devPath strong

lemma readRet_cases (ending : Ending ℕ+) : readRet ending = 0 ∧ ending = .full ∨ readRet ending < 0 := by
  cases ending with
  | full => exact .inl ⟨rfl, rfl⟩
  | empty => exact .inr (by decide)
  | error errno =>
    have hpos : 0 < (errno : ℕ) := errno.pos
    refine .inr ?_
    change -((errno : ℕ) : ℤ) < 0
    omega

lemma prefix_of_filling (h : Filling buffer len s) : s.addresses <+: List.range len := by
  have hle : s.p ≤ len := by
    have hsum := h.sum
    omega
  rw [h.addresses, List.prefix_iff_eq_take, List.length_range, List.take_range, Nat.min_eq_left hle]

/-- A run that ends with a negative value. -/
lemma sound_of_neg {ret : ℤ} (hret : ret < 0) (h : Filling buffer len s) (opened : Option String) :
    Fetched.Sound buffer len ⟨ret, s.mem, s.blocks, opened⟩ :=
  ⟨.inr hret, fun hzero => absurd hzero hret.ne, prefix_of_filling h, h.mem⟩

/-- A run that ends when nothing is missing. -/
lemma sound_of_full (hlen : s.len = 0) (h : Filling buffer len s) (opened : Option String) :
    Fetched.Sound buffer len ⟨0, s.mem, s.blocks, opened⟩ := by
  refine ⟨.inl rfl, fun _ => ?_, prefix_of_filling h, h.mem⟩
  have hsum := h.sum
  have haddresses := h.addresses
  rw [hlen, Nat.add_zero] at hsum
  rwa [hsum] at haddresses

/-- The second half of a run goes on from where the first one ended. -/
lemma devFetch_sound (h : devFetch strong os s = some r) (hs : Filling buffer len s) :
    r.Sound buffer len ∧ (∀ b ∈ r.blocks, b ∈ s.blocks ∨ b.From (.device (devPath strong)) os.read) ∧
      r.opened = some (devPath strong) := by
  unfold devFetch at h
  cases hopened : os.opened with
  | some errno =>
    rw [hopened] at h
    obtain rfl := Option.some.inj h
    have hpos : 0 < (errno : ℕ) := errno.pos
    exact ⟨sound_of_neg (by omega) hs _, fun b hb => .inl hb, rfl⟩
  | none =>
    rw [hopened] at h
    obtain ⟨⟨ending, s'⟩, hloop, rfl⟩ := Option.map_eq_some_iff.mp h
    obtain ⟨hfilling, hfull, hblocks⟩ := transfer_filling hloop hs
    refine ⟨?_, hblocks, rfl⟩
    rcases readRet_cases ending with ⟨hzero, hending⟩ | hneg
    · rw [hzero]
      exact sound_of_full (hfull.mp hending) hfilling _
    · exact sound_of_neg hneg hfilling _

lemma randFetch_from (h : randFetch haveGetrandom os buffer len strong = some r) :
    r.Sound buffer len ∧ r.From strong os := by
  have hstart : Filling buffer len (⟨buffer, 0, len, []⟩ : Cursor Source UInt8) := filling_start buffer len
  unfold randFetch at h
  dsimp only at h
  split_ifs at h with hhave
  · cases hloop : getrandomLoop strong ⟨buffer, 0, len, []⟩ os.getrandom with
    | none =>
      rw [hloop] at h
      cases h
    | some result =>
      obtain ⟨ending, s⟩ := result
      rw [hloop] at h
      dsimp only at h
      obtain ⟨hfilling, -, hblocks⟩ := transfer_filling hloop hstart
      have hfirst : ∀ b ∈ s.blocks, b.From (.getrandom (grnd strong)) os.getrandom := by
        intro b hb
        exact (hblocks b hb).resolve_left (List.not_mem_nil)
      split_ifs at h with hlen
      · obtain rfl := Option.some.inj h
        exact ⟨sound_of_full hlen hfilling none, fun b hb => .inl (hfirst b hb), nofun⟩
      · obtain ⟨hsound, hsecond, hopened⟩ := devFetch_sound h hfilling
        refine ⟨hsound, ?_, ?_⟩
        · intro b hb
          exact (hsecond b hb).imp_left (hfirst b)
        · intro path hpath
          rw [hopened] at hpath
          exact (Option.some.inj hpath).symm
  · obtain ⟨hsound, hsecond, hopened⟩ := devFetch_sound h hstart
    refine ⟨hsound, ?_, ?_⟩
    · intro b hb
      exact .inr ((hsecond b hb).resolve_left List.not_mem_nil)
    · intro path hpath
      rw [hopened] at hpath
      exact (Option.some.inj hpath).symm

/-- **`rand_fetch` never succeeds with a buffer that is partly filled**, whatever the system calls do.  What it
fills the buffer with comes from them, and with `strong` from `getrandom` with `GRND_RANDOM` and from
`/dev/random` only. -/
theorem randFetch_sound (haveGetrandom : Bool) (os : Os) (buffer : Mem UInt8) (len : ℕ) (strong : Bool)
    {r : Fetched} (h : randFetch haveGetrandom os buffer len strong = some r) :
    r.Sound buffer len ∧ r.From strong os ∧
      (strong = true → (∀ b ∈ r.blocks, b.source = .getrandom GRND_RANDOM ∨ b.source = .device "/dev/random") ∧
        ∀ path, r.opened = some path → path = "/dev/random") := by
  obtain ⟨hsound, hfrom⟩ := randFetch_from h
  refine ⟨hsound, hfrom, ?_⟩
  rintro rfl
  refine ⟨?_, hfrom.opened⟩
  intro b hb
  rcases hfrom.blocks b hb with hb | hb
  · exact .inl hb.1
  · exact .inr hb.1

/-- One byte comes from `getrandom`, which is interrupted and then refuses, and two from the device. -/
theorem randFetch_sound_three :
    ∃ r : Fetched, randFetch true ⟨[.data [1], .error 4, .error 38], none, [.data [2], .error 4, .data [3, 9]]⟩
        (fun _ => 0) 3 true = some r ∧ r.ret = 0 ∧ r.mem.load 0 4 = [1, 2, 3, 0] ∧
      r.Sound (fun _ => 0) 3 := by
  have hrun : ∃ r : Fetched, randFetch true ⟨[.data [1], .error 4, .error 38], none,
      [.data [2], .error 4, .data [3, 9]]⟩ (fun _ => 0) 3 true = some r ∧ r.ret = 0 ∧
        r.mem.load 0 4 = [1, 2, 3, 0] := ⟨_, rfl, rfl, rfl⟩
  obtain ⟨r, hr, hret, hmem⟩ := hrun
  exact ⟨r, hr, hret, hmem, (randFetch_sound true _ _ 3 true hr).1⟩

/-! ### The callers -/

lemma length_items {blocks : List (Block Source UInt8)} :
    (blocks.flatMap Block.items).length = (blocks.flatMap Block.addresses).length :=
  Cursor.length_items ⟨fun _ => 0, 0, 0, blocks⟩

/-- A run that succeeds leaves what the system calls gave in the whole buffer, and nothing after it. -/
lemma Fetched.Sound.load (h : r.Sound buffer len) (hret : r.ret = 0) :
    r.mem.load 0 len = r.blocks.flatMap Block.items ∧ ∀ i, len ≤ i → r.mem i = buffer i := by
  have hlen : (r.blocks.flatMap Block.items).length = len := by
    rw [length_items, h.full hret, List.length_range]
  constructor
  · rw [h.mem, ← hlen, Mem.load_store]
  · intro i hi
    rw [h.mem]
    exact Mem.store_of_ge buffer _ (by omega)

/-- What `pool_seed` makes of a run with its key as buffer. -/
def Fetched.toFetch (r : Fetched) (id : ℕ) : Fetch :=
  if r.ret = 0 then .ok ⟨r.mem, id⟩ else .error (-r.ret).toNat.toPNat'

/-- **A pool is seeded** with a whole key, or `pool_seed` fails as `rand_fetch` does. -/
theorem poolSeed_of_randFetch {key : Mem UInt8} (pool : Pool) (era : UInt32) (id : ℕ)
    (h : randFetch haveGetrandom os key CHACHA_KEY_NONCE_SIZE false = some r) :
    (poolSeed pool era (r.toFetch id)).1 = r.ret ∧
      (r.ret = 0 → r.mem.load 0 CHACHA_KEY_NONCE_SIZE = r.blocks.flatMap Block.items) ∧
      (r.ret ≠ 0 → (poolSeed pool era (r.toFetch id)).2 = pool) := by
  obtain ⟨hsound, -⟩ := randFetch_from h
  unfold Fetched.toFetch poolSeed
  rcases hsound.ret with hzero | hneg
  · rw [if_pos hzero]
    exact ⟨hzero.symm, fun hret => (hsound.load hret).1, fun hret => absurd hzero hret⟩
  · have hpos : 0 < (-r.ret).toNat := by omega
    rw [if_neg hneg.ne]
    refine ⟨?_, fun hret => absurd hret hneg.ne, fun _ => rfl⟩
    change -(((-r.ret).toNat.toPNat' : ℕ) : ℤ) = r.ret
    rw [Nat.toPNat'_coe, if_pos hpos]
    omega

/-- **`futils_random_strong`** fills the whole buffer with what the system calls give, or fails. -/
theorem futilsRandomStrong_sound {ret : ℤ} {mem : Mem UInt8} (hlen : len ≠ 0)
    (h : futilsRandomStrong haveGetrandom os (some buffer) len = some (ret, some mem)) :
    ret < 0 ∨ ret = 0 ∧ (∀ i, len ≤ i → mem i = buffer i) ∧
      ∃ r : Fetched, mem.load 0 len = r.blocks.flatMap Block.items ∧ r.From true os := by
  unfold futilsRandomStrong at h
  dsimp only at h
  rw [if_neg hlen] at h
  obtain ⟨r, hrun, heq⟩ := Option.map_eq_some_iff.mp h
  obtain ⟨rfl, hmem⟩ := Prod.mk.inj heq
  obtain rfl := Option.some.inj hmem
  obtain ⟨hsound, hfrom⟩ := randFetch_from hrun
  rcases hsound.ret with hzero | hneg
  · obtain ⟨hload, hafter⟩ := hsound.load hzero
    exact .inr ⟨hzero, hafter, r, hload, hfrom⟩
  · exact .inl hneg

end Futils.Random
