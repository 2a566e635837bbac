import Futils.Lib.Shortest
import Futils.Varint.Stream

/-!
# What the writers write

The loop has no bound of its own: it stays in the buffer because the number on the wire has no more bits
than the value.  What it stores is the shortest code of that number, so that the codes of two values
differ before either ends.
-/

namespace Futils.Varint

open Futils.Lib Futils.Lib.Base128

namespace Fmt

variable (f : Fmt) {dst : Mem UInt8} {dstLen valLen : ℕ} {v : f.Val}

/-- The number on the wire determines the value. -/
lemma wire_injective : Function.Injective f.wire := by
  intro v v' h
  apply f.toInt_injective
  rw [← f.ofWire_wire v, h, f.ofWire_wire]

/-- What the writer stores is its code. -/
lemma output_write (h : f.valLenMax ≤ dstLen) :
    (f.write (some dst) dstLen v (some valLen)).output = f.code v := by
  rw [f.write_eq dst h]
  simp [WriteRes.output]

/-- Codes of different values differ before either ends. -/
lemma not_prefix {v' : f.Val} (hne : v ≠ v') : ¬ f.code v <+: f.code v' := by
  intro hprefix
  have hv := shortest_encode (f.wire v)
  have hv' := shortest_encode (f.wire v')
  have heq : f.code v = f.code v' := hv.code.eq_of_prefix hv'.code hprefix
  have hwire : f.wire v = f.wire v' := by
    calc f.wire v = spelled (f.code v) := hv.spells.symm
      _ = spelled (f.code v') := by rw [heq]
      _ = f.wire v' := hv'.spells
  exact hne (f.wire_injective hwire)

/-- A call of a writer stores the shortest code of the number on the wire, and nothing after it. -/
structure WritesShortest (dst : Mem UInt8) (v : f.Val) (r : WriteRes) : Prop where
  ret : r.ret = 0
  length : ∃ n, r.valLen = some n ∧ 1 ≤ n ∧ n ≤ f.valLenMax ∧ r.output.length = n
  frame : ∃ dst', r.dst = some dst' ∧ ∀ i, r.output.length ≤ i → dst' i = dst i
  shortest : ∀ bs, Shortest (f.wire v) bs ↔ bs = r.output
  least : ∀ bs, Code bs → spelled bs = f.wire v → r.output.length ≤ bs.length

lemma writesShortest (h : f.valLenMax ≤ dstLen) (v : f.Val) :
    f.WritesShortest dst v (f.write (some dst) dstLen v (some valLen)) := by
  have hout : (f.write (some dst) dstLen v (some valLen)).output = f.code v := f.output_write h
  have hwrite := f.write_eq dst h v valLen
  refine ⟨?_, ?_, ?_, ?_, ?_⟩
  · rw [hwrite]
  · rw [hout, hwrite]
    exact ⟨_, rfl, length_encode_pos _, f.length_code_le v, rfl⟩
  · rw [hout, hwrite]
    refine ⟨_, rfl, ?_⟩
    intro i hi
    exact Mem.store_of_ge dst (f.code v) (by rwa [Nat.zero_add])
  · intro bs
    rw [hout]
    exact shortest_iff
  · intro bs hcode hspelled
    rw [hout, code, ← hspelled]
    exact length_encode_le hcode

/-- **The writers are canonical, bounded and prefix-free**: in a buffer of the maximal length each stores the
shortest code of the number on the wire, and the code of one value does not start that of another. -/
theorem write_canonical (f : Fmt) (dst : Mem UInt8) {dstLen : ℕ} (h : f.valLenMax ≤ dstLen) (v : f.Val)
    (valLen : ℕ) :
    f.WritesShortest dst v (f.write (some dst) dstLen v (some valLen)) ∧
      ∀ (dst' : Mem UInt8) (dstLen' : ℕ) (v' : f.Val) (valLen' : ℕ), f.valLenMax ≤ dstLen' → v ≠ v' →
        ¬ (f.write (some dst) dstLen v (some valLen)).output <+:
          (f.write (some dst') dstLen' v' (some valLen')).output := by
  refine ⟨f.writesShortest h v, ?_⟩
  intro dst' dstLen' v' valLen' h' hne
  rw [f.output_write h, f.output_write h']
  exact f.not_prefix hne

theorem write_canonical_i16_min :
    i16.WritesShortest (fun _ => 0) (-32768 : Int16) (i16.write (some fun _ => 0) 3 (-32768 : Int16) (some 0)) :=
  (write_canonical i16 (fun _ => 0) (le_refl 3) (-32768 : Int16) 0).1

end Fmt

end Futils.Varint
