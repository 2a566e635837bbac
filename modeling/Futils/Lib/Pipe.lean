import Mathlib.Data.List.Basic
import Mathlib.Order.Nat

/-!
# Pipes that do not block

A write of at most `atomic` items writes all of them or none; a longer one may write a part.  A read takes
what there is, up to what it asks for.  A poll that finds a pipe writable says that `atomic` items have
room, and this stays true until the next write.  What is written in pieces of one size and read by that
size comes out in the same pieces.
-/

namespace Futils.Lib

variable {α ε : Type*}

/-- What a read or a write does. -/
inductive PipeCall (ε : Type*)
  | moved (k : ℕ)
  | wouldBlock
  | failed (e : ε)
  deriving DecidableEq

/-- How many items have room in any pipe that is writable, and in an empty one. -/
structure PipeLimits where
  atomic : ℕ
  capacity : ℕ
  atomic_le : atomic ≤ capacity

/-- The items in the pipe; `room` after a poll that found it writable, until a write. -/
structure Pipe (α : Type*) where
  items : List α
  room : Bool
  deriving DecidableEq

namespace Pipe

variable {L : PipeLimits} {p p' : Pipe α} {xs got : List α} {n k : ℕ}

def empty : Pipe α := ⟨[], false⟩

/-- Of `n` items that have `room`, or not, a write can move `k`. -/
def Moves (L : PipeLimits) (n k : ℕ) : Prop := if n ≤ L.atomic then k = n else 1 ≤ k ∧ k ≤ n

instance : Decidable (Moves L n k) := by
  unfold Moves
  infer_instance

/-- `none`: a write cannot do this. -/
def write (L : PipeLimits) (p : Pipe α) (xs : List α) : PipeCall ε → Option (Pipe α)
  | .moved k =>
    if Moves L xs.length k ∧ p.items.length + k ≤ L.capacity then some ⟨p.items ++ xs.take k, false⟩
    else none
  | .wouldBlock => if p.room = true ∧ xs.length ≤ L.atomic then none else some p
  | .failed _ => some p

/-- The items that a read of at most `n` takes, and what remains. -/
def read (p : Pipe α) (n : ℕ) : PipeCall ε → Option (List α × Pipe α)
  | .moved k =>
    if k = min n p.items.length ∧ 0 < k then some (p.items.take k, { p with items := p.items.drop k })
    else none
  | .wouldBlock => if p.items.isEmpty then some ([], p) else none
  | .failed _ => some ([], p)

/-- A poll finds the pipe writable. -/
def writable (L : PipeLimits) (p : Pipe α) : Option (Pipe α) :=
  if p.items.length + L.atomic ≤ L.capacity then some { p with room := true } else none

/-! ### The invariant -/

/-- The items are within the capacity, and what the last poll said is true. -/
structure Fits (L : PipeLimits) (p : Pipe α) : Prop where
  length : p.items.length ≤ L.capacity
  room : p.room = true → p.items.length + L.atomic ≤ L.capacity

lemma fits_empty : (empty : Pipe α).Fits L := ⟨Nat.zero_le _, nofun⟩

/-- **A write** of at most `atomic` items appends all of them or changes nothing. -/
theorem write_atomic {call : PipeCall ε} (hlen : xs.length ≤ L.atomic)
    (h : p.write L xs call = some p') :
    (∃ k, call = .moved k ∧ k = xs.length) ∧ p'.items = p.items ++ xs ∨ (∀ k, call ≠ .moved k) ∧ p' = p := by
  cases call with
  | moved k =>
    unfold write at h
    dsimp only at h
    split_ifs at h with hmoves
    obtain rfl := Option.some.inj h
    have hk : k = xs.length := by
      have hk := hmoves.1
      unfold Moves at hk
      rwa [if_pos hlen] at hk
    refine .inl ⟨⟨k, rfl, hk⟩, ?_⟩
    dsimp only
    rw [hk, List.take_length]
  | wouldBlock =>
    unfold write at h
    dsimp only at h
    split_ifs at h
    exact .inr ⟨nofun, (Option.some.inj h).symm⟩
  | failed e => exact .inr ⟨nofun, (Option.some.inj h).symm⟩

/-- A write that was promised room does not block. -/
lemma write_room {call : PipeCall ε} (hroom : p.room = true) (hlen : xs.length ≤ L.atomic)
    (h : p.write L xs call = some p') : call ≠ .wouldBlock := by
  rintro rfl
  unfold write at h
  dsimp only at h
  rw [if_pos ⟨hroom, hlen⟩] at h
  cases h

lemma Fits.write {call : PipeCall ε} (hp : p.Fits L) (h : p.write L xs call = some p') : p'.Fits L := by
  cases call with
  | moved k =>
    unfold Pipe.write at h
    dsimp only at h
    split_ifs at h with hmoves
    obtain rfl := Option.some.inj h
    refine ⟨?_, nofun⟩
    dsimp only
    rw [List.length_append]
    have := List.length_take_le k xs
    omega
  | wouldBlock =>
    unfold Pipe.write at h
    dsimp only at h
    split_ifs at h
    obtain rfl := Option.some.inj h
    exact hp
  | failed e =>
    obtain rfl := Option.some.inj h
    exact hp

lemma Fits.read {call : PipeCall ε} (hp : p.Fits L) (h : p.read n call = some (got, p')) : p'.Fits L := by
  cases call with
  | moved k =>
    unfold Pipe.read at h
    dsimp only at h
    split_ifs at h
    obtain ⟨rfl, rfl⟩ := Prod.mk.inj (Option.some.inj h)
    have hdrop : (p.items.drop k).length ≤ p.items.length := (List.drop_sublist k p.items).length_le
    refine ⟨hdrop.trans hp.length, fun hroom => ?_⟩
    exact (Nat.add_le_add_right hdrop _).trans (hp.room hroom)
  | wouldBlock =>
    unfold Pipe.read at h
    dsimp only at h
    split_ifs at h
    obtain ⟨rfl, rfl⟩ := Prod.mk.inj (Option.some.inj h)
    exact hp
  | failed e =>
    obtain ⟨rfl, rfl⟩ := Prod.mk.inj (Option.some.inj h)
    exact hp

lemma Fits.writable (hp : p.Fits L) (h : p.writable L = some p') : p'.Fits L := by
  unfold Pipe.writable at h
  split_ifs at h with hfree
  obtain rfl := Option.some.inj h
  exact ⟨hp.length, fun _ => hfree⟩

lemma room_writable (h : p.writable L = some p') : p'.room = true := by
  unfold writable at h
  split_ifs at h
  obtain rfl := Option.some.inj h
  rfl

/-- A read does not take back what a poll said. -/
lemma room_read {call : PipeCall ε} (h : p.read n call = some (got, p')) : p'.room = p.room := by
  cases call with
  | moved k =>
    unfold read at h
    dsimp only at h
    split_ifs at h
    obtain ⟨-, rfl⟩ := Prod.mk.inj (Option.some.inj h)
    rfl
  | wouldBlock =>
    unfold read at h
    dsimp only at h
    split_ifs at h
    obtain ⟨-, rfl⟩ := Prod.mk.inj (Option.some.inj h)
    rfl
  | failed e =>
    obtain ⟨-, rfl⟩ := Prod.mk.inj (Option.some.inj h)
    rfl

/-- A read that takes items takes at least one. -/
lemma read_pos (h : p.read n (.moved k : PipeCall ε) = some (got, p')) : 0 < k := by
  unfold read at h
  dsimp only at h
  split_ifs at h with hmoved
  exact hmoved.2

/-- A read that fails changes nothing. -/
lemma read_not_moved {call : PipeCall ε} (hcall : ∀ k, call ≠ .moved k)
    (h : p.read n call = some (got, p')) : got = [] ∧ p' = p := by
  cases call with
  | moved k => exact absurd rfl (hcall k)
  | wouldBlock =>
    unfold read at h
    dsimp only at h
    split_ifs at h
    obtain ⟨rfl, rfl⟩ := Prod.mk.inj (Option.some.inj h)
    exact ⟨rfl, rfl⟩
  | failed e =>
    obtain ⟨rfl, rfl⟩ := Prod.mk.inj (Option.some.inj h)
    exact ⟨rfl, rfl⟩

/-! ### Pieces of one size -/

/-- The items are those of the pieces `q`, of `n` items each. -/
structure Pieces (n : ℕ) (q : List (List α)) (p : Pipe α) : Prop where
  items : p.items = q.flatten
  length : ∀ m ∈ q, m.length = n

variable {q : List (List α)}

lemma pieces_empty : Pieces n [] (empty : Pipe α) := ⟨rfl, nofun⟩

lemma Pieces.eq_nil_iff (h : Pieces n q p) (hn : 0 < n) : p.items = [] ↔ q = [] := by
  cases q with
  | nil => simp [h.items]
  | cons m q =>
    refine iff_of_false (fun hnil => ?_) (by simp)
    have hm := h.length m List.mem_cons_self
    rw [h.items, List.flatten_cons, List.append_eq_nil_iff] at hnil
    rw [hnil.1, List.length_nil] at hm
    omega

lemma Pieces.writable (hp : Pieces n q p) (h : p.writable L = some p') : Pieces n q p' := by
  unfold Pipe.writable at h
  split_ifs at h
  obtain rfl := Option.some.inj h
  exact ⟨hp.items, hp.length⟩

/-- **A piece is written** whole or not at all. -/
theorem Pieces.write {call : PipeCall ε} (hp : Pieces n q p) (hxs : xs.length = n) (hn : n ≤ L.atomic)
    (h : p.write L xs call = some p') :
    (∃ k, call = .moved k) ∧ Pieces n (q ++ [xs]) p' ∨ (∀ k, call ≠ .moved k) ∧ p' = p := by
  obtain ⟨⟨k, hcall, -⟩, hitems⟩ | hsame := write_atomic (hxs.trans_le hn) h
  · refine .inl ⟨⟨k, hcall⟩, ?_, ?_⟩
    · rw [hitems, hp.items, List.flatten_append, List.flatten_singleton]
    · intro m hm
      rcases List.mem_append.mp hm with hm | hm
      · exact hp.length m hm
      · rw [List.mem_singleton.mp hm, hxs]
  · exact .inr hsame

/-- **A read of the size takes the oldest piece**; it blocks only when there is none. -/
theorem Pieces.read {call : PipeCall ε} (hp : Pieces n q p) (hn : 0 < n)
    (h : p.read n call = some (got, p')) :
    (∃ q', call = .moved n ∧ q = got :: q' ∧ Pieces n q' p') ∨
      got = [] ∧ p' = p ∧ (∀ k, call ≠ .moved k) ∧ (call = .wouldBlock → q = []) := by
  cases call with
  | moved k =>
    unfold Pipe.read at h
    dsimp only at h
    split_ifs at h with hmoved
    obtain ⟨hk, hpos⟩ := hmoved
    obtain ⟨rfl, rfl⟩ := Prod.mk.inj (Option.some.inj h)
    cases q with
    | nil =>
      rw [hp.items, List.flatten_nil, List.length_nil, Nat.min_zero] at hk
      omega
    | cons m q =>
      have hm := hp.length m List.mem_cons_self
      have hkn : k = n := by
        rw [hk, hp.items, List.flatten_cons, List.length_append]
        omega
      subst hkn
      refine .inl ⟨q, rfl, ?_, ?_, fun m' hm' => hp.length m' (List.mem_cons_of_mem _ hm')⟩
      · rw [hp.items, List.flatten_cons, List.take_left' hm]
      · dsimp only
        rw [hp.items, List.flatten_cons, List.drop_left' hm]
  | wouldBlock =>
    unfold Pipe.read at h
    dsimp only at h
    split_ifs at h with hempty
    obtain ⟨rfl, rfl⟩ := Prod.mk.inj (Option.some.inj h)
    exact .inr ⟨rfl, rfl, nofun, fun _ => (hp.eq_nil_iff hn).mp (List.isEmpty_iff.mp hempty)⟩
  | failed e =>
    obtain ⟨rfl, rfl⟩ := Prod.mk.inj (Option.some.inj h)
    exact .inr ⟨rfl, rfl, nofun, nofun⟩

end Pipe

end Futils.Lib
