import Futils.Lib.Mem

/-!
# Null-terminated strings

A string is a memory that holds characters and then a zero; what lies after the zero is arbitrary.
-/

namespace Futils.Lib

/-- The code of a character. -/
def ch (c : Char) : UInt8 := c.toNat.toUInt8

/-- The codes of a string literal, without the terminating zero. -/
def chars (cs : List Char) : List UInt8 := cs.map ch

/-- A pointer to a string. -/
structure CString where
  mem : Mem UInt8
  strlen : ℕ
  nul : mem strlen = 0
  ne_nul : ∀ i < strlen, mem i ≠ 0

/-- The characters of a string. -/
def CString.text (s : CString) : List UInt8 := s.mem.load 0 s.strlen

/-- The string that is copied to a memory. -/
def CString.stored (m : Mem UInt8) (l : List UInt8) (h : 0 ∉ l) : CString where
  mem := m.store 0 (l ++ [0])
  strlen := l.length
  nul := by
    have hlt : l.length - 0 < (l ++ [(0 : UInt8)]).length := by simp
    rw [Mem.store_apply m (l ++ [0]) (Nat.zero_le _) hlt]
    simp
  ne_nul := by
    intro i hi
    have hlt : i - 0 < (l ++ [(0 : UInt8)]).length := by
      rw [List.length_append]
      omega
    have hget : (l ++ [(0 : UInt8)])[i - 0] = l[i] := List.getElem_append_left hi
    rw [Mem.store_apply m (l ++ [0]) (Nat.zero_le _) hlt, hget]
    exact ne_of_mem_of_not_mem (List.getElem_mem hi) h

lemma CString.text_stored (m : Mem UInt8) (l : List UInt8) (h : 0 ∉ l) : (stored m l h).text = l := by
  have hload := Mem.load_store m 0 (l ++ [0])
  have htake := Mem.take_load (m.store 0 (l ++ [0])) 0 (l ++ [(0 : UInt8)]).length l.length
  rw [hload, List.take_left, List.length_append, Nat.min_eq_left (Nat.le_add_right _ _)] at htake
  exact htake.symm

end Futils.Lib
