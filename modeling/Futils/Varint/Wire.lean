import Futils.Lib.Zigzag
import Futils.Varint.Bounds

/-!
# What goes over the wire

The writing loop stores the shortest code of its argument.  The argument is the value itself for
an unsigned format and its zigzag number for a signed one (`Fmt.wire`), and the readers' last
conversion takes a number below `2 ^ width` back to the value (`Fmt.ofWire`).
-/

namespace Futils.Varint

open Futils.Lib Futils.Lib.Base128

/-! ### The loop -/

/-- **The loop stores the shortest code** of `val` at `off`. -/
theorem writeLoop_eq (dst : Mem UInt8) (val : UInt64) (off : ℕ) :
    writeLoop dst val off =
      (dst.store off (encode val.toNat), off + (encode val.toNat).length) := by
  induction hn : val.toNat using Nat.strongRecOn generalizing dst val off with
  | ind n ih =>
    subst hn
    have hbyte : (val &&& 0x7f).toUInt8 = (val.toNat % 128).toUInt8 := by
      apply UInt8.toNat_inj.mp
      rw [toNat_toUInt8 (by omega), UInt64.toNat_toUInt8, UInt64.toNat_and,
        show (0x7f : UInt64).toNat = 2 ^ 7 - 1 from rfl, Nat.and_two_pow_sub_one_eq_mod]
      omega
    have hshift : (val >>> 7).toNat = val.toNat / 128 := by
      rw [UInt64.toNat_shiftRight]
      exact Nat.shiftRight_eq_div_pow _ _
    have hmore : val >>> 7 ≠ 0 ↔ ¬ val.toNat < 128 := by
      rw [Ne, ← UInt64.toNat_inj, hshift, UInt64.toNat_zero]
      omega
    rw [writeLoop]
    by_cases h : val.toNat < 128
    · rw [if_neg (by rw [hmore]; exact fun hn => hn h), encode_of_lt h, hbyte, Nat.mod_eq_of_lt h]
      rfl
    · rw [if_pos (hmore.mpr h), ih _ (by omega) _ _ _ hshift, encode_of_ge h, hbyte,
        or_80_eq (Nat.mod_lt _ (by decide)), ← Mem.store_cons, List.length_cons]
      congr 1
      omega

theorem varintWrite_eq (dst : Mem UInt8) {dstLen valLenMax : ℕ} (h : valLenMax ≤ dstLen)
    (val : UInt64) (valLen : ℕ) :
    varintWrite (some dst) dstLen val (some valLen) valLenMax =
      ⟨0, some (dst.store 0 (encode val.toNat)), some (encode val.toNat).length⟩ := by
  rw [varintWrite, if_neg (by omega)]
  simp only [writeLoop_eq, Nat.zero_add]

/-! ### The number on the wire -/

namespace Fmt

/-- The value as an integer. -/
def toInt : (f : Fmt) → f.Val → ℤ
  | u16, v => v.toNat
  | i16, v => v.toInt
  | u32, v => v.toNat
  | i32, v => v.toInt
  | u64, v => v.toNat
  | i64, v => v.toInt

/-- The integer that a number on the wire stands for. -/
def ofWire : Fmt → ℕ → ℤ
  | u16, n | u32, n | u64, n => n
  | i16, n | i32, n | i64, n => unzigzag n

/-- The number that is written for a value. -/
def wire : (f : Fmt) → f.Val → ℕ
  | u16, v => v.toNat
  | i16, v => zigzag v.toInt
  | u32, v => v.toNat
  | i32, v => zigzag v.toInt
  | u64, v => v.toNat
  | i64, v => zigzag v.toInt

lemma toInt_injective (f : Fmt) : Function.Injective f.toInt := by
  cases f <;> intro a b h
  · exact UInt16.toNat_inj.mp (Int.ofNat_inj.mp h)
  · exact Int16.toInt_inj.mp h
  · exact UInt32.toNat_inj.mp (Int.ofNat_inj.mp h)
  · exact Int32.toInt_inj.mp h
  · exact UInt64.toNat_inj.mp (Int.ofNat_inj.mp h)
  · exact Int64.toInt_inj.mp h

lemma wire_lt (f : Fmt) (v : f.Val) : f.wire v < 2 ^ f.width := by
  cases f
  · exact v.toNat_lt
  · exact zigzag_lt (k := 15) v.le_toInt v.toInt_lt
  · exact v.toNat_lt
  · exact zigzag_lt (k := 31) v.le_toInt v.toInt_lt
  · exact v.toNat_lt
  · exact zigzag_lt (k := 63) v.le_toInt v.toInt_lt

lemma ofWire_wire (f : Fmt) (v : f.Val) : f.ofWire (f.wire v) = f.toInt v := by
  cases f <;> first | rfl | exact unzigzag_zigzag _

/-- The bytes that the writer produces. -/
def code (f : Fmt) (v : f.Val) : List UInt8 := encode (f.wire v)

/-! The shifts and the exclusive or of the signed writers are the zigzag map. -/

lemma toNat_wire_i16 (v : Int16) :
    ((v.toInt32 <<< 1) ^^^ (v.toInt32 >>> 15)).toUInt32.toUInt16.toUInt64.toNat = i16.wire v :=
  toNat_zigzag_word (n := 16) (m := 32) (by decide) (by decide) v.toBitVec

lemma toNat_wire_i32 (v : Int32) :
    ((v <<< 1) ^^^ (v >>> 31)).toUInt32.toUInt64.toNat = i32.wire v := by
  have := toNat_zigzag_word (n := 32) (m := 32) (by decide) (by decide) v.toBitVec
  rwa [BitVec.signExtend_eq, BitVec.setWidth_eq] at this

lemma toNat_wire_i64 (v : Int64) : ((v <<< 1) ^^^ (v >>> 63)).toUInt64.toNat = i64.wire v := by
  have := toNat_zigzag_word (n := 64) (m := 64) (by decide) (by decide) v.toBitVec
  rwa [BitVec.signExtend_eq, BitVec.setWidth_eq] at this

/-- **The writer stores the shortest code** of the number on the wire at the start of `dst`. -/
theorem write_eq (f : Fmt) (dst : Mem UInt8) {dstLen : ℕ} (h : f.valLenMax ≤ dstLen) (v : f.Val)
    (valLen : ℕ) :
    f.write (some dst) dstLen v (some valLen) =
      ⟨0, some (dst.store 0 (f.code v)), some (f.code v).length⟩ := by
  have key : ∀ val64 : UInt64, val64.toNat = f.wire v →
      varintWrite (some dst) dstLen val64 (some valLen) f.valLenMax =
        ⟨0, some (dst.store 0 (f.code v)), some (f.code v).length⟩ := fun val64 hv => by
    rw [varintWrite_eq dst h, hv, code]
  cases f
  · exact key v.toUInt64 rfl
  · exact key _ (toNat_wire_i16 v)
  · exact key v.toUInt64 rfl
  · exact key _ (toNat_wire_i32 v)
  · exact key v rfl
  · exact key _ (toNat_wire_i64 v)

/-! ### The readers' last conversion -/

lemma toNat_half (w : UInt64) : (w >>> 1).toNat = w.toNat / 2 := by
  rw [UInt64.toNat_shiftRight]
  exact Nat.shiftRight_eq_div_pow _ _

lemma toNat_low (w : UInt64) : (w &&& 0x1).toNat = w.toNat % 2 := by
  rw [UInt64.toNat_and]
  exact Nat.and_two_pow_sub_one_eq_mod _ 1

lemma toInt_conv_i16 {w : UInt64} (h : w.toNat < 2 ^ 16) :
    ((w >>> 1).toUInt16.toInt16.toInt32 ^^^ -(w &&& 0x1).toUInt16.toInt16.toInt32).toInt16.toInt =
      unzigzag w.toNat := by
  have := toInt_unzigzag_word (n := 16) (m := 32) (a := (w >>> 1).toUInt16.toBitVec)
    (b := (w &&& 0x1).toUInt16.toBitVec) (by decide) (by decide) h
    (by rw [UInt16.toNat_toBitVec, UInt64.toNat_toUInt16, toNat_half]; omega)
    (by rw [UInt16.toNat_toBitVec, UInt64.toNat_toUInt16, toNat_low]; omega)
  rwa [← BitVec.signExtend_eq_setWidth_of_le _ (by decide)] at this

lemma toInt_conv_i32 {w : UInt64} (h : w.toNat < 2 ^ 32) :
    ((w >>> 1).toUInt32.toInt32 ^^^ -(w &&& 0x1).toUInt32.toInt32).toInt = unzigzag w.toNat := by
  have := toInt_unzigzag_word (n := 32) (m := 32) (a := (w >>> 1).toUInt32.toBitVec)
    (b := (w &&& 0x1).toUInt32.toBitVec) (by decide) (by decide) h
    (by rw [UInt32.toNat_toBitVec, UInt64.toNat_toUInt32, toNat_half]; omega)
    (by rw [UInt32.toNat_toBitVec, UInt64.toNat_toUInt32, toNat_low]; omega)
  rwa [BitVec.signExtend_eq, BitVec.signExtend_eq, BitVec.setWidth_eq] at this

lemma toInt_conv_i64 (w : UInt64) :
    ((w >>> 1).toInt64 ^^^ -(w &&& 0x1).toInt64).toInt = unzigzag w.toNat := by
  have := toInt_unzigzag_word (n := 64) (m := 64) (a := (w >>> 1).toBitVec)
    (b := (w &&& 0x1).toBitVec) (by decide) (by decide) w.toNat_lt
    (by rw [UInt64.toNat_toBitVec, toNat_half]) (by rw [UInt64.toNat_toBitVec, toNat_low])
  rwa [BitVec.signExtend_eq, BitVec.signExtend_eq, BitVec.setWidth_eq] at this

lemma readAs_of_accepts {α : Type} (conv : UInt64 → α) {valLenMax : ℕ} (hmax : valLenMax ≤ 10)
    {src : Mem UInt8} {srcLen n : ℕ} (val : α) (valLen : ℕ)
    (h : Accepts src srcLen valLenMax n) :
    let r := readAs conv valLenMax (some src) srcLen (some val) (some valLen)
    r.ret = 0 ∧ r.valLen = some n ∧
      ∃ w, r.val = some (conv w) ∧ w.toNat = payload src n % 2 ^ 64 := by
  obtain ⟨h1, h2, w, h3, h4⟩ := varintRead_of_accepts 0 valLen hmax h
  refine ⟨h1, h2, w, ?_, h4⟩
  simp only [readAs]
  rw [h3, Option.getD_some]

/-- **What a reader returns on an accepted code**: when the payload fits the type, the value that
the number stands for. -/
theorem read_of_accepts (f : Fmt) {src : Mem UInt8} {srcLen n : ℕ} (val : f.Val) (valLen : ℕ)
    (h : Accepts src srcLen f.valLenMax n) :
    let r := f.read (some src) srcLen (some val) (some valLen)
    r.ret = 0 ∧ r.valLen = some n ∧
      ∃ v, r.val = some v ∧ (payload src n < 2 ^ f.width → f.toInt v = f.ofWire (payload src n)) := by
  have hmod : ∀ {w : UInt64}, w.toNat = payload src n % 2 ^ 64 → payload src n < 2 ^ f.width →
      payload src n = w.toNat := fun hw hp => by
    have : 2 ^ f.width ≤ 2 ^ 64 := Nat.pow_le_pow_right (by decide) (by cases f <;> decide)
    rw [hw, Nat.mod_eq_of_lt (by omega)]
  cases f
  case u64 =>
    obtain ⟨h1, h2, w, h3, hw⟩ := varintRead_of_accepts val valLen (by decide) h
    refine ⟨h1, h2, w, h3, ?_⟩
    intro hp
    rw [hmod hw hp]
    rfl
  all_goals
    obtain ⟨h1, h2, w, h3, hw⟩ := readAs_of_accepts _ (by decide) val valLen h
    refine ⟨h1, h2, _, h3, ?_⟩
    intro hp
    have he := hmod hw hp
    rw [he] at hp ⊢
  case u16 => exact congrArg Nat.cast (w.toNat_toUInt16.trans (Nat.mod_eq_of_lt hp))
  case i16 => exact toInt_conv_i16 hp
  case u32 => exact congrArg Nat.cast (w.toNat_toUInt32.trans (Nat.mod_eq_of_lt hp))
  case i32 => exact toInt_conv_i32 hp
  case i64 => exact toInt_conv_i64 w

/-- **What is not accepted is refused**, by every reader. -/
theorem read_of_not_accepts (f : Fmt) {src : Mem UInt8} {srcLen : ℕ} (hlen : srcLen ≠ 0)
    (val : f.Val) (valLen : ℕ) (h : ∀ n, ¬ Accepts src srcLen f.valLenMax n) :
    (f.read (some src) srcLen (some val) (some valLen)).ret = -EPROTO := by
  cases f <;> exact varintRead_of_not_accepts _ valLen hlen h

end Fmt

end Futils.Varint
