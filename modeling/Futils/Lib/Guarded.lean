import Futils.Lib.CString

/-!
# Guarded accesses to strings and arrays of characters

A program that reads strings through pointers and copies characters to arrays of fixed sizes is run with a
guard: an access outside ends the run with a fault.  A run without a fault is one in which each access was
inside.
-/

namespace Futils.Lib

/-- What a guard finds. -/
inductive Fault
  | pastEnd (i strlen : ℕ)
  | wraps (n k : ℕ)
  | pastField (i size : ℕ)
  | unset
  | unterminated
  deriving DecidableEq

/-- A pointer into a string. -/
structure Ptr where
  str : CString
  off : ℕ

/-- The memory seen through a pointer. -/
def Ptr.mem (s : Ptr) : Mem UInt8 := s.str.mem.shift s.off

/-- The `n` characters from the pointer on belong to the string; what follows them may be its zero. -/
def Ptr.Has (s : Ptr) (n : ℕ) : Prop := s.off + n ≤ s.str.strlen

def Ptr.start (str : CString) : Ptr := ⟨str, 0⟩

def Ptr.add (s : Ptr) (k : ℕ) : Ptr := { s with off := s.off + k }

/-- `s[i]`, up to the terminating zero. -/
def Ptr.get (s : Ptr) (i : ℕ) : Except Fault UInt8 :=
  if s.off + i ≤ s.str.strlen then .ok (s.mem i) else .error (.pastEnd (s.off + i) s.str.strlen)

/-- `s[i] == c` -/
def Ptr.is (s : Ptr) (i : ℕ) (c : UInt8) : Except Fault Bool := do
  let d ← s.get i
  pure (d = c)

/-- A condition that reads no character. -/
def test (p : Prop) [Decidable p] : Except Fault Bool := .ok p

/-- `n - k`, of unsigned integers. -/
def guardedSub (n k : ℕ) : Except Fault ℕ := if k ≤ n then .ok (n - k) else .error (.wraps n k)

/-- An array of characters, of which some were not set. -/
abbrev Field := List (Option UInt8)

def Field.new (size : ℕ) : Field := List.replicate size none

/-- `f[i] = c` -/
def Field.put (f : Field) (i : ℕ) (c : UInt8) : Except Fault Field :=
  if i < f.length then .ok (f.set i (some c)) else .error (.pastField i f.length)

/-- What a function reads that is given the array as a string. -/
def Field.text : Field → Except Fault (List UInt8)
  | [] => .error .unterminated
  | none :: _ => .error .unset
  | some c :: f => if c = 0 then .ok [] else (Field.text f).map (c :: ·)

/-- `n` characters from `s[k]` on are copied to `f[i]` and so on. -/
def Ptr.copy (s : Ptr) : Field → ℕ → ℕ → ℕ → Except Fault Field
  | f, _, _, 0 => .ok f
  | f, i, k, n + 1 => do
    let c ← s.get k
    let f ← f.put i c
    s.copy f (i + 1) (k + 1) n

/-- An array of `size` characters with `n` of the string from `s[k]` on, and a zero after them. -/
def Ptr.field (s : Ptr) (size k n : ℕ) : Except Fault Field := do
  let f ← s.copy (Field.new size) 0 k n
  f.put n 0

/-- `strncmp(s + k, t, n) == 0`, for a `t` of `n` characters none of which is zero. -/
def Ptr.starts (s : Ptr) : ℕ → List UInt8 → Except Fault Bool
  | _, [] => .ok true
  | k, c :: t => do if ← s.is k c then s.starts (k + 1) t else pure false

/-! ### Runs without a fault -/

section Meets

variable {ε α β : Type} {a : α} {x y : Except ε α} {g : α → Except ε β} {post : α → Prop}
  {next : β → Prop}

/-- The run has no fault, and `post` holds of what it returns. -/
def Meets (x : Except ε α) (post : α → Prop) : Prop := ∃ a, x = .ok a ∧ post a

lemma Meets.eq (h : Meets x (· = a)) : x = .ok a := by
  obtain ⟨_, hx, rfl⟩ := h
  exact hx

lemma Meets.pure (h : post a) : Meets (pure a : Except ε α) post := ⟨a, rfl, h⟩

lemma Meets.bind (hx : Meets x post) (hg : ∀ a, post a → Meets (g a) next) : Meets (x >>= g) next := by
  obtain ⟨a, rfl, ha⟩ := hx
  exact hg a ha

/-- A run whose result is known. -/
lemma Meets.bind_ok (hx : x = .ok a) (hg : Meets (g a) next) : Meets (x >>= g) next := by
  rw [hx]
  exact hg

/-- Only the branch that is taken has to be without a fault. -/
lemma Meets.ite {p : Prop} [Decidable p] {c : Except ε Bool} (hc : c = .ok (decide p))
    (hx : p → Meets x post) (hy : ¬ p → Meets y post) : Meets (c >>= fun b => if b = true then x else y) post := by
  refine bind_ok hc ?_
  simp only [decide_eq_true_eq]
  split_ifs with hp
  · exact hx hp
  · exact hy hp

/-- The same branch is taken without the guard. -/
lemma Meets.branch {γ : Type} {rel : α → γ → Prop} {b b' : γ} {p : Prop} [Decidable p] {c : Except ε Bool}
    (hc : c = .ok (decide p)) (hx : p → Meets x (rel · b)) (hy : ¬ p → Meets y (rel · b')) :
    Meets (c >>= fun d => if d = true then x else y) (rel · (if p then b else b')) := by
  refine ite hc (fun hp => ?_) fun hp => ?_
  · rw [if_pos hp]
    exact hx hp
  · rw [if_neg hp]
    exact hy hp

/-- Both runs end here, with the same result, or none does. -/
lemma Meets.stop {p : Prop} [Decidable p] {b : α} (hx : ¬ p → Meets x (· = b)) :
    Meets (if p then Pure.pure a else x) (· = if p then a else b) := by
  split_ifs with hp
  · exact pure rfl
  · exact hx hp

end Meets

variable {s : Ptr} {i k n size : ℕ} {c : UInt8} {t : List UInt8}

/-! ### Conditions -/

lemma except_bind_ok {ε α β : Type} (a : α) (f : α → Except ε β) : (Except.ok a >>= f) = f a := rfl

/-- `&&` evaluates its second operand where the first one holds. -/
lemma andM_ok {ε : Type} {p q : Prop} [Decidable p] [Decidable q] {x y : Except ε Bool}
    (hx : x = .ok (decide p)) (hy : p → y = .ok (decide q)) : (x <&&> y) = .ok (decide (p ∧ q)) := by
  by_cases hp : p
  · rw [hx, hy hp]
    simp only [hp, true_and]
    rfl
  · rw [hx]
    simp only [hp, false_and]
    rfl

/-- `||` evaluates its second operand where the first one does not hold. -/
lemma orM_ok {ε : Type} {p q : Prop} [Decidable p] [Decidable q] {x y : Except ε Bool}
    (hx : x = .ok (decide p)) (hy : ¬ p → y = .ok (decide q)) : (x <||> y) = .ok (decide (p ∨ q)) := by
  by_cases hp : p
  · rw [hx]
    simp only [hp, true_or]
    rfl
  · rw [hx, hy hp]
    simp only [hp, false_or]
    rfl

/-! ### Pointers -/

lemma Ptr.mem_start (str : CString) : (Ptr.start str).mem = str.mem := by
  funext i
  exact congrArg str.mem (Nat.zero_add i)

lemma Ptr.mem_add (s : Ptr) (k : ℕ) : (s.add k).mem = s.mem.shift k := by
  funext i
  exact congrArg s.str.mem (Nat.add_assoc ..)

lemma Ptr.has_start (str : CString) : (Ptr.start str).Has str.strlen := (Nat.zero_add _).le

lemma Ptr.Has.le (h : s.Has n) (hle : k ≤ n) : s.Has k := by
  unfold Ptr.Has at *
  omega

lemma Ptr.Has.add (h : s.Has n) (hle : k ≤ n) : (s.add k).Has (n - k) := by
  unfold Ptr.Has Ptr.add at *
  dsimp only
  omega

lemma Ptr.Has.get (h : s.Has n) (hi : i ≤ n) : s.get i = .ok (s.mem i) := if_pos (h.le hi)

lemma Ptr.Has.is (h : s.Has n) (hi : i ≤ n) (c : UInt8) : s.is i c = .ok (decide (s.mem i = c)) := by
  unfold Ptr.is
  rw [h.get hi]
  rfl

/-- No character in front of the end is zero. -/
lemma Ptr.Has.ne_zero (h : s.Has n) (hi : i < n) : s.mem i ≠ 0 := by
  refine s.str.ne_nul (s.off + i) ?_
  unfold Ptr.Has at h
  omega

lemma guardedSub_ok (h : k ≤ n) : guardedSub n k = .ok (n - k) := if_pos h

lemma Ptr.Has.starts (h : s.Has (k + t.length)) :
    s.starts k t = .ok (decide (s.mem.load k t.length = t)) := by
  induction t generalizing k with
  | nil => simp [Ptr.starts]
  | cons c t ih =>
    have hload : s.mem.load k (t.length + 1) = s.mem k :: s.mem.load (k + 1) t.length := by
      rw [Nat.add_comm, Mem.load_add]
      rfl
    rw [List.length_cons, Nat.add_comm t.length 1, ← Nat.add_assoc] at h
    rw [Ptr.starts, h.is (by omega), except_bind_ok, List.length_cons, hload, ih h]
    by_cases hc : s.mem k = c
    · simp [hc]
    · simp [hc]
      rfl

/-! ### Arrays -/

/-- The array begins with the characters `done`. -/
lemma Ptr.Has.copy (h : s.Has (k + n)) (done : List UInt8) (junk : Field) (hn : n ≤ junk.length) :
    s.copy (done.map some ++ junk) done.length k n =
      .ok ((done ++ s.mem.load k n).map some ++ junk.drop n) := by
  induction n generalizing k done junk with
  | zero => simp [Ptr.copy]
  | succ n ih =>
    obtain ⟨x, junk, rfl⟩ : ∃ x junk', junk = x :: junk' := List.exists_cons_of_length_pos (by omega)
    have hload : s.mem.load k (n + 1) = [s.mem k] ++ s.mem.load (k + 1) n := by
      rw [Nat.add_comm, Mem.load_add]
      rfl
    have hput : Field.put (done.map some ++ x :: junk) done.length (s.mem k) =
        .ok ((done ++ [s.mem k]).map some ++ junk) := by
      unfold Field.put
      rw [if_pos (by simp)]
      simp
    have hk : s.Has (k + 1 + n) := h.le (by omega)
    have hnext := ih hk (done ++ [s.mem k]) junk (by simpa using hn)
    rw [Ptr.copy, h.get (by omega), except_bind_ok, hput, except_bind_ok, hload]
    rw [List.length_append, List.length_singleton] at hnext
    rw [hnext, List.append_assoc, List.drop_succ_cons]

/-- A string that is ended by a zero is read up to it. -/
lemma text_of_append {l : List UInt8} (hl : 0 ∉ l) (f : Field) :
    Field.text (l.map some ++ some 0 :: f) = .ok l := by
  induction l with
  | nil => exact if_pos rfl
  | cons c l ih =>
    rw [List.mem_cons, not_or] at hl
    rw [List.map_cons, List.cons_append, Field.text, if_neg (Ne.symm hl.1), ih hl.2]
    rfl

/-- **A copied field** is inside its array, and reads as what was copied. -/
lemma Ptr.Has.field {m : ℕ} (h : s.Has m) (hn : k + n ≤ m) (hsize : n < size) :
    Meets (s.field size k n) fun f => f.text = .ok (s.mem.load k n) := by
  have hcopy := (h.le hn).copy [] (Field.new size) (by
    rw [Field.new, List.length_replicate]
    exact hsize.le)
  obtain ⟨j, rfl⟩ : ∃ j, size = n + (j + 1) := ⟨size - n - 1, by omega⟩
  rw [List.map_nil, List.nil_append, List.length_nil, List.nil_append] at hcopy
  have hdrop : (Field.new (n + (j + 1))).drop n = none :: List.replicate j none := by
    rw [Field.new, List.drop_replicate, Nat.add_sub_cancel_left, List.replicate_succ]
  have hput : Field.put ((s.mem.load k n).map some ++ none :: List.replicate j none) n 0 =
      .ok ((s.mem.load k n).map some ++ some 0 :: List.replicate j none) := by
    unfold Field.put
    rw [if_pos (by simp)]
    rw [List.set_append_right _ _ (by simp)]
    simp
  refine ⟨_, ?_, text_of_append ?_ (List.replicate j none)⟩
  · unfold Ptr.field
    rw [hcopy, except_bind_ok, hdrop, hput]
  · intro hmem
    obtain ⟨i, hi, hzero⟩ := Mem.mem_load.mp hmem
    exact h.ne_zero (by omega) hzero

end Futils.Lib
