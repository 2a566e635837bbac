import Mathlib.Data.Nat.Notation
import Mathlib.Tactic.SplitIfs

/-!
# A generator that replaces its key

A cipher makes a stream of any length for each key, and a key of the first cells of a list.  A feed is a key with
the cells that were made and not given out.  When too few are left, it makes cells until it has `size` of them and
takes the first for its next key, so that the key of the cells that it gives out is gone.  A request that is too
large for that is served with the stream of a key of its own.
-/

namespace Futils.Lib

/-- A stream for each key, and the key that a list of `keySize` cells makes. -/
structure Cipher (K β : Type*) where
  stream : K → ℕ → List β
  length_stream : ∀ k n, (stream k n).length = n
  take_stream : ∀ {k m n}, m ≤ n → (stream k n).take m = stream k m
  keySize : ℕ
  keyOf : List β → K

/-- The key, and the cells that are left. -/
structure Feed (K β : Type*) where
  key : K
  rest : List β

namespace Feed

variable {K β : Type*} (c : Cipher K β) (size : ℕ) (f : Feed K β) (n : ℕ)

/-- A new feed has made nothing. -/
def seeded (key : K) : Feed K β := ⟨key, []⟩

def refill : Feed K β :=
  let made := f.rest ++ c.stream f.key (size - f.rest.length)
  ⟨c.keyOf (made.take c.keySize), made.drop c.keySize⟩

/-- Have `n` cells at hand. -/
def ensure : Feed K β := if n ≤ f.rest.length then f else f.refill c size

/-- Give out `n` cells. -/
def serve : List β × Feed K β :=
  if size - c.keySize ≤ n then
    let f := f.ensure c size c.keySize
    (c.stream (c.keyOf (f.rest.take c.keySize)) n, { f with rest := f.rest.drop c.keySize })
  else
    let f := f.ensure c size n
    (f.rest.take n, { f with rest := f.rest.drop n })

variable {c size f n}

/-- A large request. -/
lemma serve_of_le (h : size - c.keySize ≤ n) :
    f.serve c size n = (c.stream (c.keyOf ((f.ensure c size c.keySize).rest.take c.keySize)) n,
      ⟨(f.ensure c size c.keySize).key, (f.ensure c size c.keySize).rest.drop c.keySize⟩) := if_pos h

/-- A small one. -/
lemma serve_of_lt (h : n < size - c.keySize) :
    f.serve c size n = ((f.ensure c size n).rest.take n, ⟨(f.ensure c size n).key, (f.ensure c size n).rest.drop n⟩) :=
  if_neg (Nat.not_le.mpr h)

end Feed

section Maps

variable {K K' β β' : Type*} {c : Cipher K β} {d : Cipher K' β'}

/-- The keys and the cells of a cipher stand for those of another one. -/
structure Cipher.Hom (c : Cipher K β) (d : Cipher K' β') where
  key : K → K'
  cell : β → β'
  map_stream : ∀ k n, (c.stream k n).map cell = d.stream (key k) n
  map_keyOf : ∀ l, key (c.keyOf l) = d.keyOf (l.map cell)
  keySize_eq : c.keySize = d.keySize

/-- What a feed stands for. -/
def Feed.map (h : c.Hom d) (f : Feed K β) : Feed K' β' := ⟨h.key f.key, f.rest.map h.cell⟩

namespace Feed

variable {size n : ℕ}

lemma map_seeded (h : c.Hom d) (k : K) : (seeded k : Feed K β).map h = .seeded (h.key k) := rfl

lemma map_refill (h : c.Hom d) (f : Feed K β) : (f.refill c size).map h = (f.map h).refill d size := by
  unfold refill Feed.map
  simp only [h.map_keyOf, h.keySize_eq, List.map_take, List.map_drop, List.map_append, List.length_map, h.map_stream]

lemma map_ensure (h : c.Hom d) (f : Feed K β) : (f.ensure c size n).map h = (f.map h).ensure d size n := by
  have hlen : (f.map h).rest.length = f.rest.length := List.length_map ..
  unfold ensure
  rw [hlen, apply_ite (Feed.map h), map_refill]

/-- **A request** is served alike. -/
lemma map_serve (h : c.Hom d) (f : Feed K β) :
    ((f.serve c size n).1.map h.cell, (f.serve c size n).2.map h) = (f.map h).serve d size n := by
  unfold serve
  split_ifs with hc hd hd
  · simp only [← map_ensure, ← h.keySize_eq, h.map_stream, h.map_keyOf]
    simp only [Feed.map, List.map_take, List.map_drop]
  · exact absurd (h.keySize_eq ▸ hc) hd
  · exact absurd (h.keySize_eq ▸ hd) hc
  · simp only [← map_ensure]
    simp only [Feed.map, List.map_take, List.map_drop]

end Feed

end Maps

end Futils.Lib
