import Futils.Lib.Feed
import Mathlib.Data.Multiset.UnionInter
import Mathlib.Data.Set.Insert
import Mathlib.Tactic.Abel

/-!
# Keys and cells as terms

A key is a seed, or it was made of cells, and a cell is the key that made it and its index in the stream.  Whoever
holds some keys and some cells derives from them the streams of the keys and the keys of the cells, and nothing else:
a cipher that can be broken is not accounted for.
-/

namespace Futils.Lib

/-- A key, by what it was made of. -/
inductive KeyTerm (σ : Type*)
  | seed (s : σ)
  | made (cells : List (KeyTerm σ × ℕ))

/-- A cell of the stream of a key. -/
abbrev CellTerm (σ : Type*) := KeyTerm σ × ℕ

variable {σ K β : Type*}

/-- The cipher of the terms. -/
def termCipher (σ : Type*) (keySize : ℕ) : Cipher (KeyTerm σ) (CellTerm σ) where
  stream k n := (List.range n).map fun i => (k, i)
  length_stream k n := by rw [List.length_map, List.length_range]
  take_stream h := by rw [← List.map_take, List.take_range, Nat.min_eq_left h]
  keySize := keySize
  keyOf := .made

/-! ### What a term stands for -/

namespace KeyTerm

/-- The key that a term stands for, when `v` are the seeds. -/
def value (c : Cipher K β) (v : σ → K) : KeyTerm σ → K
  | .seed s => v s
  | .made cells => c.keyOf <| cells.attach.map fun b =>
      (c.stream (value c v b.1.1) (b.1.2 + 1)).get ⟨b.1.2, by rw [c.length_stream]; exact Nat.lt_succ_self _⟩
termination_by k => sizeOf k
decreasing_by
  have hmem := List.sizeOf_lt_of_mem b.2
  have hfst : sizeOf b.1 = 1 + sizeOf b.1.1 + sizeOf b.1.2 := by cases b.1; rfl
  simp only [made.sizeOf_spec]
  omega

end KeyTerm

/-- The cell that a term stands for. -/
def CellTerm.value (c : Cipher K β) (v : σ → K) (b : CellTerm σ) : β :=
  (c.stream (b.1.value c v) (b.2 + 1)).get ⟨b.2, by rw [c.length_stream]; exact Nat.lt_succ_self _⟩

lemma KeyTerm.value_made (c : Cipher K β) (v : σ → K) (cells : List (CellTerm σ)) :
    (KeyTerm.made cells).value c v = c.keyOf (cells.map (CellTerm.value c v)) := by
  rw [value]
  exact congrArg c.keyOf (List.attach_map_val (f := CellTerm.value c v))

lemma map_value_stream (c : Cipher K β) (v : σ → K) (k : KeyTerm σ) (n : ℕ) :
    ((List.range n).map fun i => (k, i)).map (CellTerm.value c v) = c.stream (k.value c v) n := by
  refine List.ext_getElem (by simp [c.length_stream]) fun i hi hi' => ?_
  have hlt : i < n := by rwa [c.length_stream] at hi'
  have hfront : (c.stream (k.value c v) (i + 1))[i]? = (c.stream (k.value c v) n)[i]? := by
    rw [← c.take_stream hlt]
    exact List.getElem?_take_of_lt (Nat.lt_succ_self i)
  simp only [List.getElem_map, List.getElem_range]
  refine Option.some_injective _ ?_
  rw [← List.getElem?_eq_getElem hi', ← hfront]
  exact (List.getElem?_eq_getElem _).symm

/-- The terms stand for the keys and the cells of a cipher. -/
def termHom (c : Cipher K β) (v : σ → K) : (termCipher σ c.keySize).Hom c where
  key := KeyTerm.value c v
  cell := CellTerm.value c v
  map_stream := map_value_stream c v
  map_keyOf := KeyTerm.value_made c v
  keySize_eq := rfl

end Futils.Lib
