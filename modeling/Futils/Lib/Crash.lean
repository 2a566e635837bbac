import Mathlib.Logic.Basic

/-!
# Programs that may be cut

A program acts on a state one elementary action at a time.  A run of it gives, beside its result and
its last state, the states before each of its actions: together they are the states in which it may
be cut.  `Keeps` is the rule for what holds at every cut.
-/

namespace Futils.Lib

/-- What a run leaves. -/
@[ext]
structure Run (S α : Type) where
  result : α
  final : S
  before : List S

def Proc (S α : Type) := S → Run S α

namespace Proc

variable {S α β : Type}

instance : Monad (Proc S) where
  pure a s := ⟨a, s, []⟩
  bind p f s :=
    let r := p s
    let r' := f r.result r.final
    ⟨r'.result, r'.final, r.before ++ r'.before⟩

/-- One elementary action. -/
def act (f : S → S) (a : α) : Proc S α := fun s => ⟨a, f s, [s]⟩

/-- Look at the state without acting on it. -/
def look (f : S → α) : Proc S α := fun s => ⟨f s, s, []⟩

@[simp] lemma pure_apply (a : α) (s : S) : (pure a : Proc S α) s = ⟨a, s, []⟩ := rfl

@[simp] lemma bind_apply (p : Proc S α) (f : α → Proc S β) (s : S) :
    (p >>= f) s = ⟨(f (p s).result (p s).final).result, (f (p s).result (p s).final).final,
      (p s).before ++ (f (p s).result (p s).final).before⟩ := rfl

@[simp] lemma act_apply (f : S → S) (a : α) (s : S) : act f a s = ⟨a, f s, [s]⟩ := rfl

@[simp] lemma look_apply (f : S → α) (s : S) : look f s = ⟨f s, s, []⟩ := rfl

@[simp] lemma apply_ite (c : Prop) [Decidable c] (p q : Proc S α) (s : S) :
    (if c then p else q) s = if c then p s else q s := by
  split <;> rfl

/-! ### Cuts -/

/-- The states in which the program may be cut, its last one included. -/
def cuts (p : Proc S α) (s : S) : List S := (p s).before ++ [(p s).final]

lemma final_mem_cuts (p : Proc S α) (s : S) : (p s).final ∈ cuts p s := by simp [cuts]

lemma cuts_bind (p : Proc S α) (f : α → Proc S β) (s : S) :
    cuts (p >>= f) s = (p s).before ++ cuts (f (p s).result) (p s).final := by
  simp [cuts]

/-- **What holds at every cut of a run.** -/
def Keeps (I : S → Prop) (p : Proc S α) (s : S) : Prop := ∀ c ∈ cuts p s, I c

variable {I : S → Prop} {s : S}

@[simp] lemma keeps_pure {a : α} : Keeps I (pure a : Proc S α) s ↔ I s := by
  simp [Keeps, cuts]

/-- A program goes on where the one before it ended. -/
theorem keeps_bind {p : Proc S α} {f : α → Proc S β} :
    Keeps I (p >>= f) s ↔ (∀ c ∈ (p s).before, I c) ∧ Keeps I (f (p s).result) (p s).final := by
  simp only [Keeps, cuts_bind, List.mem_append]
  exact ⟨fun h => ⟨fun c hc => h c (.inl hc), fun c hc => h c (.inr hc)⟩,
    fun h c hc => hc.elim (h.1 c) (h.2 c)⟩

end Proc

end Futils.Lib
