import Futils.Lib.Mem

/-!
# Filling a buffer by calls that give a part each

A call is asked for what is missing and gives some of it, nothing, or an error; some errors mean that the
call is to be made again.  Several loops can go on filling one buffer, from different sources: `Cursor` is
what they share, with a record of the calls.
-/

namespace Futils.Lib

/-- What a call gives.  Of more than it is asked for, it gives what it is asked for. -/
inductive Gives (α ε : Type*)
  | data (items : List α)
  | error (e : ε)

/-- Why a loop ends. -/
inductive Ending (ε : Type*)
  | full
  | empty
  | error (e : ε)
  deriving DecidableEq

/-- A call: where it takes items from, where it writes them, and what it writes. -/
structure Block (τ α : Type*) where
  source : τ
  off : ℕ
  items : List α
  deriving DecidableEq

/-- The addresses that are written, in order. -/
def Block.addresses {τ α : Type*} (b : Block τ α) : List ℕ := List.range' b.off b.items.length

/-- The buffer, the place of the next item, the number of missing ones, and the calls. -/
structure Cursor (τ α : Type*) where
  mem : Mem α
  p : ℕ
  len : ℕ
  blocks : List (Block τ α)

variable {τ α ε : Type*}

/-- A call wrote `items`. -/
def Cursor.advance (s : Cursor τ α) (source : τ) (items : List α) : Cursor τ α :=
  ⟨s.mem.store s.p items, s.p + items.length, s.len - items.length, s.blocks ++ [⟨source, s.p, items⟩]⟩

/-- Calls until the buffer is full or a call gives no more; `none` while the next call has not returned. -/
def transfer (again : ε → Bool) (source : τ) :
    Cursor τ α → List (Gives α ε) → Option (Ending ε × Cursor τ α)
  | s, [] => if s.len = 0 then some (.full, s) else none
  | s, call :: calls =>
    if s.len = 0 then some (.full, s)
    else
      match call with
      | .error e =>
        let s := s.advance source []
        if again e then transfer again source s calls else some (.error e, s)
      | .data items =>
        let items := items.take s.len
        let s := s.advance source items
        if items.length = 0 then some (.empty, s) else transfer again source s calls

/-- The call takes what it writes from the source, which gives it at one of the `calls`. -/
def Block.From (source : τ) (calls : List (Gives α ε)) (b : Block τ α) : Prop :=
  b.source = source ∧ (b.items = [] ∨ ∃ items, .data items ∈ calls ∧ b.items <+: items)

/-- The addresses that were written, in the order in which they were. -/
def Cursor.addresses (s : Cursor τ α) : List ℕ := s.blocks.flatMap Block.addresses

/-- The items that were written, in the order in which they were. -/
def Cursor.items (s : Cursor τ α) : List α := s.blocks.flatMap Block.items

/-- A buffer of `n` items in the memory `m` is filled from its start. -/
structure Filling (m : Mem α) (n : ℕ) (s : Cursor τ α) : Prop where
  sum : s.p + s.len = n
  addresses : s.addresses = List.range s.p
  mem : s.mem = m.store 0 s.items

variable {again : ε → Bool} {source : τ} {s s' : Cursor τ α} {calls : List (Gives α ε)} {m : Mem α} {n : ℕ}
  {ending : Ending ε}

lemma Cursor.length_items (s : Cursor τ α) : s.items.length = s.addresses.length := by
  unfold items addresses
  induction s.blocks with
  | nil => rfl
  | cons b blocks ih =>
    rw [List.flatMap_cons, List.flatMap_cons, List.length_append, List.length_append, ih, Block.addresses,
      List.length_range']

/-- As many items were written as the place of the next one says. -/
lemma Filling.length_items (h : Filling m n s) : s.items.length = s.p := by
  rw [s.length_items, h.addresses, List.length_range]

lemma filling_start (m : Mem α) (n : ℕ) : Filling m n (⟨m, 0, n, []⟩ : Cursor τ α) :=
  ⟨Nat.zero_add n, rfl, (Mem.store_nil m 0).symm⟩

/-- A call goes on where the one before it ended. -/
lemma Filling.advance (h : Filling m n s) (source : τ) {items : List α} (hitems : items.length ≤ s.len) :
    Filling m n (s.advance source items) := by
  have hlen := h.length_items
  refine ⟨?_, ?_, ?_⟩
  · have hsum := h.sum
    change s.p + items.length + (s.len - items.length) = n
    omega
  · have haddresses := h.addresses
    unfold Cursor.addresses at haddresses ⊢
    unfold Cursor.advance
    simp only [List.flatMap_append, List.flatMap_cons, List.flatMap_nil, List.append_nil]
    rw [haddresses, Block.addresses, List.range_eq_range', List.range_eq_range', ← List.range'_append_1,
      Nat.zero_add]
  · have hitems' : (s.advance source items).items = s.items ++ items := by
      unfold Cursor.items Cursor.advance
      simp only [List.flatMap_append, List.flatMap_cons, List.flatMap_nil, List.append_nil]
    rw [hitems', Mem.store_append, ← h.mem, hlen, Nat.zero_add]
    rfl

/-- The calls of `s'` are those of `s` and others, which take what they write from the source. -/
def Cursor.Extends (source : τ) (calls : List (Gives α ε)) (s s' : Cursor τ α) : Prop :=
  ∀ b ∈ s'.blocks, b ∈ s.blocks ∨ b.From source calls

lemma Block.From.cons {b : Block τ α} (h : b.From source calls) (call : Gives α ε) :
    b.From source (call :: calls) := by
  obtain ⟨hsource, hitems⟩ := h
  refine ⟨hsource, hitems.imp_right ?_⟩
  rintro ⟨items, hmem, hprefix⟩
  exact ⟨items, List.mem_cons_of_mem _ hmem, hprefix⟩

/-- A call that writes nothing, or the start of what it is given. -/
lemma extends_advance {items : List α}
    (hitems : items = [] ∨ ∃ given, .data given ∈ calls ∧ items <+: given) :
    Cursor.Extends source calls s (s.advance source items) := by
  intro b hb
  rcases List.mem_append.mp hb with hb | hb
  · exact .inl hb
  · obtain rfl := List.mem_singleton.mp hb
    exact .inr ⟨rfl, hitems⟩

/-- A turn of the loop, and the rest of it. -/
lemma Cursor.Extends.trans_cons {call : Gives α ε} {s₁ : Cursor τ α}
    (h : Cursor.Extends source (call :: calls) s s₁) (h' : Cursor.Extends source calls s₁ s') :
    Cursor.Extends source (call :: calls) s s' := by
  intro b hb
  rcases h' b hb with hb | hb
  · exact h b hb
  · exact .inr (hb.cons call)

/-- **A loop** goes on filling the buffer, from its source; it is full when nothing is missing. -/
theorem transfer_filling (h : transfer again source s calls = some (ending, s')) (hs : Filling m n s) :
    Filling m n s' ∧ (ending = .full ↔ s'.len = 0) ∧ Cursor.Extends source calls s s' := by
  induction calls generalizing s with
  | nil =>
    unfold transfer at h
    split_ifs at h with hlen
    obtain ⟨rfl, rfl⟩ := Prod.mk.inj (Option.some.inj h)
    exact ⟨hs, iff_of_true rfl hlen, fun b hb => .inl hb⟩
  | cons call calls ih =>
    unfold transfer at h
    split_ifs at h with hlen
    · obtain ⟨rfl, rfl⟩ := Prod.mk.inj (Option.some.inj h)
      exact ⟨hs, iff_of_true rfl hlen, fun b hb => .inl hb⟩
    · cases call with
      | error e =>
        dsimp only at h
        have hstep : Filling m n (s.advance source []) := hs.advance source (Nat.zero_le _)
        have hown : Cursor.Extends source (.error e :: calls) s (s.advance source []) :=
          extends_advance (.inl rfl)
        split_ifs at h with hagain
        · obtain ⟨hfilling, hfull, hrest⟩ := ih h hstep
          exact ⟨hfilling, hfull, hown.trans_cons hrest⟩
        · obtain ⟨rfl, rfl⟩ := Prod.mk.inj (Option.some.inj h)
          exact ⟨hstep, iff_of_false nofun hlen, hown⟩
      | data given =>
        dsimp only at h
        have hle : (given.take s.len).length ≤ s.len := List.length_take_le ..
        have hstep : Filling m n (s.advance source (given.take s.len)) := hs.advance source hle
        have hown : Cursor.Extends source (.data given :: calls) s (s.advance source (given.take s.len)) :=
          extends_advance (.inr ⟨given, List.mem_cons_self, List.take_prefix ..⟩)
        split_ifs at h with hnone
        · obtain ⟨rfl, rfl⟩ := Prod.mk.inj (Option.some.inj h)
          refine ⟨hstep, iff_of_false nofun ?_, hown⟩
          change s.len - (given.take s.len).length ≠ 0
          omega
        · obtain ⟨hfilling, hfull, hrest⟩ := ih h hstep
          exact ⟨hfilling, hfull, hown.trans_cons hrest⟩

end Futils.Lib
