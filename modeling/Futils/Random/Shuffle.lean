import Futils.Lib.FisherYates
import Futils.Random.Defs
import Futils.Random.Unbiased

/-!
# Shuffling (`src/random.c`)

`futils_random_shuffle`.  The array is at the address `base` of a memory; the variable `tmpbuf` and the block
of `malloc` are memories of their own, of which the function owns the first bytes.
-/

namespace Futils.Random

open Futils.Lib

/-- `sizeof(tmpbuf)` -/
def sizeofTmpbuf : ℕ := 8

/-- What `tmp` points to. -/
inductive Tmp
  | tmpbuf
  | block

/-- The memory of the array, and those of what `tmp` may point to. -/
structure Memories where
  array : Mem UInt8
  tmpbuf : Mem UInt8
  block : Mem UInt8

def Memories.tmp (s : Memories) : Tmp → Mem UInt8
  | .tmpbuf => s.tmpbuf
  | .block => s.block

def Memories.setTmp (s : Memories) (m : Mem UInt8) : Tmp → Memories
  | .tmpbuf => { s with tmpbuf := m }
  | .block => { s with block := m }

/-- `memcpy(tmp, pu, size)`, `memcpy(pu, pv, size)` and `memcpy(pv, tmp, size)` -/
def exchange (tmp : Tmp) (size pu pv : ℕ) (s : Memories) : Memories :=
  let s := s.setTmp ((s.tmp tmp).store 0 (s.array.load pu size)) tmp
  let s := { s with array := s.array.store pu (s.array.load pv size) }
  { s with array := s.array.store pv ((s.tmp tmp).load 0 size) }

/-- The rest of a turn, after the draw. -/
def shuffleTurn (tmp : Tmp) (base size u r : ℕ) (s : Memories) : Memories :=
  if r = 0 then s
  else
    let v := u + r
    exchange tmp size (base + u * size) (base + v * size) s

/-- The loop, with `n` turns left. -/
def shuffleLoop (tmp : Tmp) (base nmemb size : ℕ) : ℕ → List (Mem UInt8) → Memories → Outcome Memories
  | 0, pool, s => .value s pool
  | n + 1, pool, s =>
    let u := nmemb - 1 - (n + 1)
    match poolRandSizeMaximum (BitVec.ofNat 64 (nmemb - 1 - u)) pool with
    | .value r pool => shuffleLoop tmp base nmemb size n pool (shuffleTurn tmp base size u r.toNat s)
    | .starved => .starved
    | .abort => .abort

/-- What `futils_random_shuffle` returns, and the memories; `malloc` says if the block is given, and fails
with `ENOMEM`. -/
def futilsRandomShuffle (pool : List (Mem UInt8)) (s : Memories) (base nmemb size : ℕ) (malloc : Bool) :
    Outcome (ℤ × Memories) :=
  if nmemb < 2 then .value (0, s) pool
  else if size = 0 then .value (0, s) pool
  else if size > sizeofTmpbuf then
    if malloc then (shuffleLoop .block base nmemb size (nmemb - 1) pool s).map fun s => (0, s)
    else .value (-ENOMEM, s) pool
  else (shuffleLoop .tmpbuf base nmemb size (nmemb - 1) pool s).map fun s => (0, s)

/-! ### Elements -/

/-- The elements of an array at `off`. -/
def elements (mem : Mem UInt8) (off size : ℕ) : ℕ → List (List UInt8)
  | 0 => []
  | n + 1 => mem.load off size :: elements mem (off + size) size n

variable {mem mem' : Mem UInt8} {base off size nmemb n u r j : ℕ} {s s' : Memories} {tmp : Tmp} {rs : List ℕ}
  {pool pool' : List (Mem UInt8)} {bytes : List UInt8}

@[simp] lemma length_elements (mem : Mem UInt8) (off size n : ℕ) : (elements mem off size n).length = n := by
  induction n generalizing off with
  | zero => rfl
  | succ n ih => rw [elements, List.length_cons, ih]

lemma elements_congr (h : ∀ i, off ≤ i → i < off + n * size → mem' i = mem i) :
    elements mem' off size n = elements mem off size n := by
  induction n generalizing off with
  | zero => rfl
  | succ n ih =>
    rw [Nat.succ_mul] at h
    rw [elements, elements, ih fun i hi hlt => h i (by omega) (by omega),
      Mem.load_congr fun i hi hlt => h i hi (by omega)]

lemma getElem?_elements (mem : Mem UInt8) (off size : ℕ) (h : j < n) :
    (elements mem off size n)[j]? = some (mem.load (off + j * size) size) := by
  induction n generalizing off j with
  | zero => exact absurd h (Nat.not_lt_zero j)
  | succ n ih =>
    cases j with
    | zero => rw [elements, List.getElem?_cons_zero, Nat.zero_mul, Nat.add_zero]
    | succ j =>
      rw [elements, List.getElem?_cons_succ, ih _ (Nat.lt_of_succ_lt_succ h), Nat.succ_mul,
        Nat.add_assoc, Nat.add_comm size]

/-- **An element is copied** to a place in the array. -/
lemma elements_store (mem : Mem UInt8) (off : ℕ) (hbytes : bytes.length = size) (h : j < n) :
    elements (mem.store (off + j * size) bytes) off size n = (elements mem off size n).set j bytes := by
  induction n generalizing off j with
  | zero => exact absurd h (Nat.not_lt_zero j)
  | succ n ih =>
    cases j with
    | zero =>
      have hload := Mem.load_store mem off bytes
      have hrest : ∀ i, off + size ≤ i → i < off + size + n * size → mem.store off bytes i = mem i :=
        fun i hi _ => Mem.store_of_ge mem bytes (by omega)
      rw [hbytes] at hload
      rw [elements, elements, Nat.zero_mul, Nat.add_zero, hload, elements_congr hrest, List.set_cons_zero]
    | succ j =>
      have hoff : off + (j + 1) * size = off + size + j * size := by
        rw [Nat.succ_mul]
        omega
      have hfirst : ∀ i, off ≤ i → i < off + size →
          mem.store (off + size + j * size) bytes i = mem i :=
        fun i _ hi => Mem.store_of_lt mem bytes (by omega)
      rw [elements, elements, hoff, ih _ (Nat.lt_of_succ_lt_succ h), Mem.load_congr hfirst,
        List.set_cons_succ]

/-! ### Turns -/

/-- The turns with the draws `rs`, from the turn `u` on. -/
def turns (tmp : Tmp) (base size : ℕ) : ℕ → List ℕ → Memories → Memories
  | _, [], s => s
  | u, r :: rs, s => turns tmp base size (u + 1) rs (shuffleTurn tmp base size u r s)

lemma array_exchange (pu pv : ℕ) : (exchange tmp size pu pv s).array =
    (s.array.store pu (s.array.load pv size)).store pv (s.array.load pu size) := by
  have hload : ∀ m : Mem UInt8, (m.store 0 (s.array.load pu size)).load 0 size = s.array.load pu size := by
    intro m
    have hstored := Mem.load_store m 0 (s.array.load pu size)
    rwa [Mem.length_load] at hstored
  cases tmp with
  | tmpbuf => exact congrArg (Mem.store _ pv) (hload s.tmpbuf)
  | block => exact congrArg (Mem.store _ pv) (hload s.block)

/-- A turn changes nothing before its element and after the array. -/
lemma shuffleTurn_frame (hr : r ≤ n) {i : ℕ}
    (hi : i < base + u * size ∨ base + (u + (n + 1)) * size ≤ i) :
    (shuffleTurn tmp base size u r s).array i = s.array i := by
  have hv : (u + r) * size + size ≤ (u + (n + 1)) * size := by
    rw [← Nat.succ_mul]
    exact Nat.mul_le_mul_right size (by omega)
  have hu : u * size ≤ (u + r) * size := Nat.mul_le_mul_right size (by omega)
  unfold shuffleTurn
  split_ifs with hzero
  · rfl
  · dsimp only
    rw [array_exchange]
    rcases hi with hi | hi
    · rw [Mem.store_of_lt _ _ (by omega), Mem.store_of_lt _ _ (by omega)]
    · rw [Mem.store_of_ge _ _ (by rw [Mem.length_load]; omega),
        Mem.store_of_ge _ _ (by rw [Mem.length_load]; omega)]

/-- The size of what `tmp` points to. -/
def Tmp.room (size : ℕ) : Tmp → ℕ
  | .tmpbuf => sizeofTmpbuf
  | .block => size

/-- Nothing is written behind `tmpbuf` and behind the block. -/
structure Memories.Inside (size : ℕ) (s s' : Memories) : Prop where
  tmpbuf : ∀ i, sizeofTmpbuf ≤ i → s'.tmpbuf i = s.tmpbuf i
  block : ∀ i, size ≤ i → s'.block i = s.block i

lemma Memories.Inside.refl (size : ℕ) (s : Memories) : s.Inside size s := ⟨fun _ _ => rfl, fun _ _ => rfl⟩

lemma Memories.Inside.trans {s'' : Memories} (h : s.Inside size s') (h' : s'.Inside size s'') : s.Inside size s'' :=
  ⟨fun i hi => (h'.tmpbuf i hi).trans (h.tmpbuf i hi), fun i hi => (h'.block i hi).trans (h.block i hi)⟩

/-- A turn writes as many bytes to `tmp` as there are. -/
lemma shuffleTurn_inside (hfits : size ≤ tmp.room size) : s.Inside size (shuffleTurn tmp base size u r s) := by
  unfold shuffleTurn
  split_ifs with hzero
  · exact .refl size s
  · have hbehind : ∀ (m : Mem UInt8) i, tmp.room size ≤ i →
        m.store 0 (s.array.load (base + u * size) size) i = m i := by
      intro m i hi
      rw [Mem.store_of_ge _ _ (by rw [Mem.length_load]; omega)]
    cases tmp with
    | tmpbuf => exact ⟨hbehind s.tmpbuf, fun _ _ => rfl⟩
    | block => exact ⟨fun _ _ => rfl, hbehind s.block⟩

/-- **The first element that is left changes places** with the one that is drawn. -/
lemma elements_shuffleTurn (tmp : Tmp) (base size u : ℕ) (s : Memories) (hr : r ≤ n) :
    elements (shuffleTurn tmp base size u r s).array (base + u * size) size (n + 1) =
      swapHead r (elements s.array (base + u * size) size (n + 1)) := by
  cases r with
  | zero =>
    unfold shuffleTurn
    rw [if_pos rfl, swapHead_zero]
  | succ r =>
    have hv : base + (u + (r + 1)) * size = base + u * size + (r + 1) * size := by
      rw [Nat.add_mul, Nat.add_assoc]
    have hhead : ∀ bytes : List UInt8, bytes.length = size →
        elements (s.array.store (base + u * size) bytes) (base + u * size) size (n + 1) =
          bytes :: elements s.array (base + u * size + size) size n := by
      intro bytes hbytes
      have hset := elements_store s.array (base + u * size) hbytes (Nat.zero_lt_succ n)
      rw [Nat.zero_mul, Nat.add_zero] at hset
      exact hset
    have hlt : r < (elements s.array (base + u * size + size) size n).length := by rwa [length_elements]
    have hdrawn : (elements s.array (base + u * size + size) size n)[r] =
        s.array.load (base + u * size + (r + 1) * size) size := by
      have hget := getElem?_elements s.array (base + u * size + size) size hr
      rw [List.getElem?_eq_getElem hlt] at hget
      rw [Option.some.inj hget, Nat.succ_mul]
      congr 1
      omega
    unfold shuffleTurn
    rw [if_neg (Nat.succ_ne_zero r)]
    dsimp only
    rw [array_exchange, hv, elements_store _ _ (Mem.length_load ..) (Nat.lt_succ_of_le hr), hhead _ (Mem.length_load ..),
      List.set_cons_succ, elements, swapHead_of_lt hlt, hdrawn]

/-- The turns change nothing before their element and after the array. -/
lemma turns_frame (h : Choices (n + 1) rs) {i : ℕ}
    (hi : i < base + u * size ∨ base + (u + (n + 1)) * size ≤ i) :
    (turns tmp base size u rs s).array i = s.array i := by
  induction rs generalizing n u s with
  | nil => rfl
  | cons r rs ih =>
    obtain ⟨n, rfl, hr, hrs⟩ := h.of_cons
    rw [turns, ih hrs, shuffleTurn_frame hr hi]
    rw [Nat.succ_mul]
    have hassoc : u + 1 + (n + 1) = u + (n + 1 + 1) := by omega
    rw [hassoc]
    omega

lemma turns_inside (hfits : size ≤ tmp.room size) : s.Inside size (turns tmp base size u rs s) := by
  induction rs generalizing u s with
  | nil => exact .refl size s
  | cons r rs ih => exact (shuffleTurn_inside hfits).trans ih

/-- **The elements are shuffled.** -/
lemma elements_turns (tmp : Tmp) (base size u : ℕ) (s : Memories) (h : Choices (n + 1) rs) :
    elements (turns tmp base size u rs s).array (base + u * size) size (n + 1) =
      fisherYates rs (elements s.array (base + u * size) size (n + 1)) := by
  induction rs generalizing n u s with
  | nil => rfl
  | cons r rs ih =>
    obtain ⟨n, rfl, hr, hrs⟩ := h.of_cons
    have hturn := elements_shuffleTurn tmp base size u s hr
    have hoff : base + u * size + size = base + (u + 1) * size := by
      rw [Nat.succ_mul, Nat.add_assoc]
    -- The later turns leave the first element.
    have hfirst : ∀ i, base + u * size ≤ i → i < base + u * size + size →
        (turns tmp base size (u + 1) rs (shuffleTurn tmp base size u r s)).array i =
          (shuffleTurn tmp base size u r s).array i :=
      fun i _ hi => turns_frame hrs (Or.inl (hoff ▸ hi))
    rw [elements] at hturn ⊢
    rw [fisherYates_cons hturn.symm, turns, Mem.load_congr hfirst, hoff, ih _ _ hrs]

/-! ### Draws -/

lemma draw_le {maximum x : BitVec 64} (h : poolRandSizeMaximum maximum pool = .value x pool') :
    x ≤ maximum := by
  obtain ⟨_, _, -, -, -, hle⟩ := fair_poolRandMaximum 8 rfl le_rfl maximum
  exact (hle pool).2 x pool' h

/-- Every number up to the maximum is drawn from some pool. -/
lemma exists_raws {maximum x : BitVec 64} (hx : x ≤ maximum) :
    ∃ raws, ∀ pool, poolRandSizeMaximum maximum (raws ++ pool) = .value x pool := by
  obtain ⟨n, accept, -, hdraws, hunbiased, -⟩ := fair_poolRandMaximum 8 rfl le_rfl maximum
  obtain ⟨many, hpos, heven⟩ := hunbiased.even
  obtain ⟨raw, hraw⟩ := (Nat.card_pos_iff.mp (hpos.trans_eq (heven x hx).symm)).1
  unfold Draws at hdraws
  split_ifs at hdraws with hn
  · obtain ⟨x', hx', hvalue⟩ := hdraws
    subst hn
    obtain rfl : raw = List.Vector.nil := Subsingleton.elim _ _
    obtain rfl := Option.some.inj (hx'.symm.trans hraw)
    exact ⟨[], hvalue⟩
  · have hload := Mem.load_store (fun _ => (0 : UInt8)) 0 raw.1
    rw [raw.2] at hload
    refine ⟨[Mem.store (fun _ => 0) 0 raw.1], fun pool => ?_⟩
    refine (hdraws.2 _ pool).trans ?_
    rw [hload, hraw]

/-- The results of `n` successive draws, the first of which has the maximum `n` and each other one a
maximum that is less by one. -/
def successiveDraws : ℕ → List (Mem UInt8) → Outcome (List ℕ)
  | 0, pool => .value [] pool
  | n + 1, pool =>
    match poolRandSizeMaximum (BitVec.ofNat 64 (n + 1)) pool with
    | .value r pool => (successiveDraws n pool).map (r.toNat :: ·)
    | .starved => .starved
    | .abort => .abort

lemma map_map {α β γ : Type} (f : α → β) (g : β → γ) (o : Outcome α) : (o.map f).map g = o.map fun x => g (f x) := by
  cases o <;> rfl

/-- **The loop makes the turns** of the numbers that it draws. -/
lemma shuffleLoop_eq (hn : n ≤ nmemb - 1) : shuffleLoop tmp base nmemb size n pool s =
    (successiveDraws n pool).map fun rs => turns tmp base size (nmemb - 1 - n) rs s := by
  induction n generalizing pool s with
  | zero => rfl
  | succ n ih =>
    have hmax : nmemb - 1 - (nmemb - 1 - (n + 1)) = n + 1 := Nat.sub_sub_self hn
    have hnext : nmemb - 1 - n = nmemb - 1 - (n + 1) + 1 := by omega
    unfold shuffleLoop successiveDraws
    dsimp only
    rw [hmax]
    cases poolRandSizeMaximum (BitVec.ofNat 64 (n + 1)) pool with
    | value r rest =>
      dsimp only
      rw [ih (Nat.le_of_succ_le hn), map_map, hnext]
      rfl
    | starved => rfl
    | abort => rfl

lemma choices_of_draws (h : successiveDraws n pool = .value rs pool') : Choices (n + 1) rs := by
  induction n generalizing pool pool' rs with
  | zero =>
    obtain ⟨rfl, -⟩ := Outcome.value.inj h
    exact choices_nil le_rfl
  | succ n ih =>
    unfold successiveDraws at h
    split at h
    · rename_i r rest hdraw
      rcases hrest : successiveDraws n rest with ⟨rs', rest'⟩ | _ | _
      · rw [hrest] at h
        obtain ⟨rfl, -⟩ := Outcome.value.inj h
        have hle := BitVec.le_def.mp (draw_le hdraw)
        rw [BitVec.toNat_ofNat] at hle
        exact choices_cons.mpr ⟨hle.trans (Nat.mod_le _ _), ih hrest⟩
      · rw [hrest] at h
        cases h
      · rw [hrest] at h
        cases h
    · cases h
    · cases h

/-- **Every choice is drawn** from some pool. -/
lemma exists_draws (hn : n < 2 ^ 64) (h : Choices (n + 1) rs) : ∃ pool, successiveDraws n pool = .value rs [] := by
  induction n generalizing rs with
  | zero =>
    rw [h.eq_nil le_rfl]
    exact ⟨[], rfl⟩
  | succ n ih =>
    cases rs with
    | nil => exact absurd h.1 (Nat.zero_ne_add_one n)
    | cons r rs =>
      obtain ⟨hr, hrs⟩ := choices_cons.mp h
      have hle : BitVec.ofNat 64 r ≤ BitVec.ofNat 64 (n + 1) := by
        rw [BitVec.le_def, BitVec.toNat_ofNat, BitVec.toNat_ofNat, Nat.mod_eq_of_lt hn,
          Nat.mod_eq_of_lt (by omega)]
        exact hr
      obtain ⟨raws, hraws⟩ := exists_raws hle
      obtain ⟨pool, hpool⟩ := ih (Nat.lt_of_succ_lt hn) hrs
      refine ⟨raws ++ pool, ?_⟩
      unfold successiveDraws
      rw [hraws]
      dsimp only
      rw [BitVec.toNat_ofNat, Nat.mod_eq_of_lt (by omega), hpool]
      rfl

/-! ### The function -/

/-- What `tmp` points to for elements of a size. -/
def tmpFor (size : ℕ) : Tmp := if size > sizeofTmpbuf then .block else .tmpbuf

lemma tmpFor_fits (size : ℕ) : size ≤ (tmpFor size).room size := by
  unfold tmpFor
  split_ifs with hlarge
  · exact le_rfl
  · exact Nat.not_lt.mp hlarge

/-- What shuffling an array does, when `after` are the memories after the draws that are made from the pool.
These are all sequences of choices, each of them the draws of some pool. -/
structure Shuffles (base nmemb size : ℕ) (s : Memories) (after : List ℕ → Memories)
    (shuffle : List (Mem UInt8) → Outcome (ℤ × Memories)) : Prop where
  drawn : ∀ pool, shuffle pool = (successiveDraws (nmemb - 1) pool).map fun rs => (0, after rs)
  every : ∀ rs, Choices nmemb rs ↔ ∃ pool rest, successiveDraws (nmemb - 1) pool = .value rs rest
  perm : ∀ pool ret s' rest, shuffle pool = .value (ret, s') rest →
    ret = 0 ∧ (elements s'.array base size nmemb).Perm (elements s.array base size nmemb)
  frame : ∀ pool ret s' rest, shuffle pool = .value (ret, s') rest →
    (∀ i, i < base ∨ base + nmemb * size ≤ i → s'.array i = s.array i) ∧ s.Inside size s'
  unbiased : (elements s.array base size nmemb).Nodup →
    Set.BijOn (fun rs => elements (after rs).array base size nmemb) {rs | Choices nmemb rs}
        {l | l.Perm (elements s.array base size nmemb)} ∧
      {l : List (List UInt8) | l.Perm (elements s.array base size nmemb)}.ncard = nmemb.factorial

lemma elements_shuffled (h : Choices nmemb rs) :
    elements (turns tmp base size 0 rs s).array base size nmemb = fisherYates rs (elements s.array base size nmemb) := by
  cases nmemb with
  | zero =>
    rw [h.eq_nil (Nat.zero_le 1)]
    rfl
  | succ n =>
    have hturns := elements_turns tmp base size 0 s h
    rwa [Nat.zero_mul, Nat.add_zero] at hturns

lemma shuffled_frame (h : Choices nmemb rs) {i : ℕ} (hi : i < base ∨ base + nmemb * size ≤ i) :
    (turns tmp base size 0 rs s).array i = s.array i := by
  cases nmemb with
  | zero =>
    rw [h.eq_nil (Nat.zero_le 1)]
    rfl
  | succ n =>
    refine turns_frame h ?_
    rwa [Nat.zero_mul, Nat.add_zero, Nat.zero_add]

/-- **The function makes the turns** of the numbers that it draws. -/
lemma futilsRandomShuffle_eq (hsize : 0 < size) (pool : List (Mem UInt8)) :
    futilsRandomShuffle pool s base nmemb size true =
      (successiveDraws (nmemb - 1) pool).map fun rs => (0, turns (tmpFor size) base size 0 rs s) := by
  have hloop : ∀ tmp : Tmp, (shuffleLoop tmp base nmemb size (nmemb - 1) pool s).map (fun s => ((0 : ℤ), s)) =
      (successiveDraws (nmemb - 1) pool).map fun rs => (0, turns tmp base size 0 rs s) := by
    intro tmp
    rw [shuffleLoop_eq le_rfl, map_map, Nat.sub_self]
  unfold futilsRandomShuffle tmpFor
  rw [if_neg hsize.ne']
  by_cases hfew : nmemb < 2
  · have hnone : nmemb - 1 = 0 := by omega
    rw [if_pos hfew, hnone]
    rfl
  · rw [if_neg hfew, if_pos (rfl : true = true)]
    split_ifs with hlarge
    · exact hloop .block
    · exact hloop .tmpbuf

/-- What it returns comes from its draws. -/
lemma exists_draws_of_shuffle (hsize : 0 < size) {ret : ℤ}
    (h : futilsRandomShuffle pool s base nmemb size true = .value (ret, s') pool') :
    ∃ rs, Choices nmemb rs ∧ ret = 0 ∧ s' = turns (tmpFor size) base size 0 rs s := by
  rw [futilsRandomShuffle_eq hsize] at h
  rcases hdraws : successiveDraws (nmemb - 1) pool with ⟨rs, rest⟩ | _ | _
  · rw [hdraws] at h
    obtain ⟨hres, -⟩ := Outcome.value.inj h
    obtain ⟨rfl, rfl⟩ := Prod.mk.inj hres
    exact ⟨rs, choices_pred_add_one.mp (choices_of_draws hdraws), rfl, rfl⟩
  · rw [hdraws] at h
    cases h
  · rw [hdraws] at h
    cases h

/-- **Shuffling permutes the elements and is unbiased.** -/
theorem random_shuffle (s : Memories) (base : ℕ) (hsize : 0 < size) (hnmemb : nmemb ≤ SIZE_MAX) :
    Shuffles base nmemb size s (fun rs => turns (tmpFor size) base size 0 rs s) fun pool =>
      futilsRandomShuffle pool s base nmemb size true := by
  refine ⟨futilsRandomShuffle_eq hsize, fun rs => ⟨?_, ?_⟩, ?_, ?_, ?_⟩
  · intro h
    have hlt : nmemb - 1 < 2 ^ 64 := by
      unfold SIZE_MAX at hnmemb
      omega
    obtain ⟨pool, hpool⟩ := exists_draws hlt (choices_pred_add_one.mpr h)
    exact ⟨pool, [], hpool⟩
  · rintro ⟨pool, rest, hdraws⟩
    exact choices_pred_add_one.mp (choices_of_draws hdraws)
  · intro pool ret s' rest h
    obtain ⟨rs, hrs, rfl, rfl⟩ := exists_draws_of_shuffle hsize h
    rw [elements_shuffled hrs]
    exact ⟨rfl, fisherYates_perm rs _⟩
  · intro pool ret s' rest h
    obtain ⟨rs, hrs, -, rfl⟩ := exists_draws_of_shuffle hsize h
    exact ⟨fun i => shuffled_frame hrs, turns_inside (tmpFor_fits size)⟩
  · intro hnodup
    have hlen := length_elements s.array base size nmemb
    have hbij := bijOn_fisherYates hnodup
    rw [hlen] at hbij
    refine ⟨hbij.congr fun rs h => (elements_shuffled h).symm, ?_⟩
    rw [ncard_perm hnodup, hlen]

/-- A memory of different bytes, and two others. -/
def threeMemories : Memories := ⟨fun i => i.toUInt8, fun _ => 1, fun _ => 0⟩

/-- Three elements of nine bytes, which are exchanged by way of a block; the draws are 2 and 1. -/
lemma random_shuffle_three : (elements threeMemories.array 4 9 3).Nodup ∧
    successiveDraws 2 [fun _ => 2, fun _ => 1] = .value [2, 1] [] ∧
    Shuffles 4 3 9 threeMemories (fun rs => turns (tmpFor 9) 4 9 0 rs threeMemories) fun pool =>
      futilsRandomShuffle pool threeMemories 4 3 9 true :=
  ⟨by decide, rfl, random_shuffle threeMemories 4 (by decide) (by decide)⟩

end Futils.Random
