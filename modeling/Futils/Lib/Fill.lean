import Mathlib.Data.List.Infix
import Mathlib.Tactic.SplitIfs

/-!
# Filling a space from draws

A text is written from draws, until the space is full: each draw gives some items, of which the ones that
there is space for are written.  `Fills` says what can be relied on, however the draws are consumed.
-/

namespace Futils.Lib

variable {α D : Type*}

/-- A writer of texts of up to `total` items. -/
structure Fills (items : List α) (usable : D → Bool) (total : ℕ)
    (write : ℕ → List D → Option (List α × List D)) : Prop where
  length : ∀ {n draws text rest}, n ≤ total → write n draws = some (text, rest) → text.length = n
  mem : ∀ {n draws text rest}, n ≤ total → write n draws = some (text, rest) → ∀ a ∈ text, a ∈ items
  /-- With less space, less of the text is written. -/
  cut : ∀ {n n' draws text rest}, n ≤ n' → n' ≤ total → write n' draws = some (text, rest) →
    ∃ rest, write n draws = some (text.take n, rest)
  /-- Draws that are not needed are left. -/
  append : ∀ {n draws text rest} (more), n ≤ total → write n draws = some (text, rest) →
    write n (draws ++ more) = some (text, rest ++ more)
  enough : ∀ {n draws}, n ≤ total → n ≤ draws.countP usable → ∃ text rest,
    write n draws = some (text, rest)

/-- The items of the draw `v`, the `k`th one, are `blob k v`. -/
def fill (blob : ℕ → D → List α) : ℕ → List D → Option (List α × List D)
  | 0, draws => some ([], draws)
  | _ + 1, [] => none
  | n + 1, v :: draws =>
    let b := (blob 0 v).take (n + 1)
    (fill (fun k => blob (k + 1)) (n + 1 - b.length) draws).map fun rest => (b ++ rest.1, rest.2)

variable {blob : ℕ → D → List α} {n n' k : ℕ} {v : D} {draws rest : List D} {text : List α}

lemma fill_zero : fill blob 0 draws = some ([], draws) := by
  unfold fill
  rfl

lemma fill_cons (hn : n ≠ 0) : fill blob n (v :: draws) =
    (fill (fun k => blob (k + 1)) (n - (blob 0 v).length) draws).map fun rest =>
      ((blob 0 v).take n ++ rest.1, rest.2) := by
  cases n with
  | zero => exact absurd rfl hn
  | succ n =>
    have hlen : n + 1 - ((blob 0 v).take (n + 1)).length = n + 1 - (blob 0 v).length := by
      rw [List.length_take]
      omega
    rw [fill, hlen]

/-- A draw that is written is written with what is left. -/
lemma fill_cons_eq_some (hn : n ≠ 0) (h : fill blob n (v :: draws) = some (text, rest)) :
    ∃ text', fill (fun k => blob (k + 1)) (n - (blob 0 v).length) draws = some (text', rest) ∧
      text = (blob 0 v).take n ++ text' := by
  rw [fill_cons hn] at h
  obtain ⟨⟨text', rest'⟩, hfill, heq⟩ := Option.map_eq_some_iff.mp h
  obtain ⟨rfl, rfl⟩ := Prod.mk.inj heq
  exact ⟨text', hfill, rfl⟩

/-- Induction on the draws that are written. -/
lemma fill_induction {motive : (ℕ → D → List α) → ℕ → List D → List α → List D → Prop}
    (hzero : ∀ blob draws, motive blob 0 draws [] draws)
    (hstep : ∀ blob n v draws text rest, n ≠ 0 →
      motive (fun k => blob (k + 1)) (n - (blob 0 v).length) draws text rest →
      motive blob n (v :: draws) ((blob 0 v).take n ++ text) rest)
    (h : fill blob n draws = some (text, rest)) : motive blob n draws text rest := by
  induction draws generalizing blob n text with
  | nil =>
    cases n with
    | zero =>
      obtain ⟨rfl, rfl⟩ := Prod.mk.inj (Option.some.inj h)
      exact hzero blob []
    | succ n => cases h
  | cons v draws ih =>
    rcases eq_or_ne n 0 with rfl | hn
    · rw [fill_zero] at h
      obtain ⟨rfl, rfl⟩ := Prod.mk.inj (Option.some.inj h)
      exact hzero blob (v :: draws)
    · obtain ⟨text', hfill, rfl⟩ := fill_cons_eq_some hn h
      exact hstep blob n v draws text' rest hn (ih hfill)

lemma length_fill (h : fill blob n draws = some (text, rest)) : text.length = n := by
  refine fill_induction (motive := fun _ n _ text _ => text.length = n) ?_ ?_ h
  · exact fun _ _ => rfl
  · intro blob n v draws text rest _ ih
    rw [List.length_append, List.length_take, ih]
    omega

lemma mem_fill {items : List α} (hblob : ∀ k v, ∀ a ∈ blob k v, a ∈ items)
    (h : fill blob n draws = some (text, rest)) {a : α} (ha : a ∈ text) : a ∈ items := by
  refine fill_induction (motive := fun blob _ _ text _ =>
    (∀ k v, ∀ a ∈ blob k v, a ∈ items) → ∀ a ∈ text, a ∈ items) ?_ ?_ h hblob a ha
  · exact fun _ _ _ => nofun
  · intro blob n v draws text rest _ ih hblob a ha
    rcases List.mem_append.mp ha with ha | ha
    · exact hblob 0 v a (List.mem_of_mem_take ha)
    · exact ih (fun k => hblob (k + 1)) a ha

lemma fill_cut (hle : n ≤ n') (h : fill blob n' draws = some (text, rest)) :
    ∃ rest, fill blob n draws = some (text.take n, rest) := by
  refine fill_induction (motive := fun blob n' draws text _ =>
    ∀ n ≤ n', ∃ rest, fill blob n draws = some (text.take n, rest)) ?_ ?_ h n hle
  · intro blob draws n hle
    obtain rfl := Nat.le_zero.mp hle
    exact ⟨_, fill_zero⟩
  · intro blob n' v draws text _ _ ih n hle
    rcases eq_or_ne n 0 with rfl | hn
    · rw [List.take_zero]
      exact ⟨_, fill_zero⟩
    · obtain ⟨rest, hrest⟩ := ih _ (Nat.sub_le_sub_right hle (blob 0 v).length)
      have hlen : n - min n' (blob 0 v).length = n - (blob 0 v).length := by omega
      refine ⟨rest, ?_⟩
      rw [fill_cons hn, hrest, Option.map_some, List.take_append, List.take_take, Nat.min_eq_left hle,
        List.length_take, hlen]

lemma fill_append (more : List D) (h : fill blob n draws = some (text, rest)) :
    fill blob n (draws ++ more) = some (text, rest ++ more) := by
  refine fill_induction (motive := fun blob n draws text rest =>
    fill blob n (draws ++ more) = some (text, rest ++ more)) ?_ ?_ h
  · exact fun _ _ => fill_zero
  · intro blob n v draws text rest hn ih
    rw [List.cons_append, fill_cons hn, ih]
    rfl

lemma fill_enough {usable : D → Bool} (hblob : ∀ k v, usable v = true → blob k v ≠ [])
    (h : n ≤ draws.countP usable) : ∃ text rest, fill blob n draws = some (text, rest) := by
  induction draws generalizing blob n with
  | nil =>
    obtain rfl := Nat.le_zero.mp h
    exact ⟨_, _, fill_zero⟩
  | cons v draws ih =>
    rcases eq_or_ne n 0 with rfl | hn
    · exact ⟨_, _, fill_zero⟩
    · have hless : n - (blob 0 v).length ≤ draws.countP usable := by
        by_cases hv : usable v = true
        · have hpos := List.length_pos_of_ne_nil (hblob 0 v hv)
          rw [List.countP_cons_of_pos hv] at h
          omega
        · rw [List.countP_cons_of_neg hv] at h
          omega
      obtain ⟨text, rest, hfill⟩ := ih (fun k => hblob (k + 1)) hless
      rw [fill_cons hn, hfill]
      exact ⟨_, _, rfl⟩

/-- **Filling** from blobs of the items, at least one from a usable draw. -/
theorem fills_fill {items : List α} {usable : D → Bool} (total : ℕ)
    (hitems : ∀ k v, ∀ a ∈ blob k v, a ∈ items) (husable : ∀ k v, usable v = true → blob k v ≠ []) :
    Fills items usable total (fill blob) where
  length _ h := length_fill h
  mem _ h _ ha := mem_fill hitems h ha
  cut hle _ h := fill_cut hle h
  append more _ h := fill_append more h
  enough _ h := fill_enough husable h

/-- A text of one item needs no draws. -/
lemma fills_replicate {items : List α} (usable : D → Bool) (total : ℕ) {a : α} (ha : a ∈ items) :
    Fills items usable total fun n draws => some (List.replicate n a, draws) where
  length _ h := by
    obtain ⟨rfl, -⟩ := Prod.mk.inj (Option.some.inj h)
    exact List.length_replicate
  mem _ h b hb := by
    obtain ⟨rfl, -⟩ := Prod.mk.inj (Option.some.inj h)
    rwa [List.eq_of_mem_replicate hb]
  cut hle _ h := by
    obtain ⟨rfl, -⟩ := Prod.mk.inj (Option.some.inj h)
    rw [List.take_replicate, Nat.min_eq_left hle]
    exact ⟨_, rfl⟩
  append more _ h := by
    obtain ⟨rfl, rfl⟩ := Prod.mk.inj (Option.some.inj h)
    rfl
  enough _ _ := ⟨_, _, rfl⟩

/-- Another writer that does the same. -/
lemma Fills.congr {items : List α} {usable : D → Bool} {total : ℕ}
    {write write' : ℕ → List D → Option (List α × List D)} (h : Fills items usable total write)
    (heq : ∀ n ≤ total, ∀ draws, write' n draws = write n draws) : Fills items usable total write' where
  length hn hw := h.length hn (heq _ hn _ ▸ hw)
  mem hn hw := h.mem hn (heq _ hn _ ▸ hw)
  cut hle hn hw := by
    rw [heq _ hn] at hw
    rw [heq _ (hle.trans hn)]
    exact h.cut hle hn hw
  append more hn hw := by
    rw [heq _ hn] at hw ⊢
    exact h.append more hn hw
  enough hn hle := by
    rw [heq _ hn]
    exact h.enough hn hle

/-- Nothing is written. -/
lemma fills_nothing (items : List α) (usable : D → Bool) {write : ℕ → List D → Option (List α × List D)}
    (h : ∀ draws, write 0 draws = some ([], draws)) : Fills items usable 0 write where
  length hn hw := by
    obtain rfl := Nat.le_zero.mp hn
    rw [h] at hw
    obtain ⟨rfl, -⟩ := Prod.mk.inj (Option.some.inj hw)
    rfl
  mem hn hw a ha := by
    obtain rfl := Nat.le_zero.mp hn
    rw [h] at hw
    obtain ⟨rfl, -⟩ := Prod.mk.inj (Option.some.inj hw)
    cases ha
  cut hle hn hw := by
    obtain rfl := Nat.le_zero.mp hn
    obtain rfl := Nat.le_zero.mp hle
    exact ⟨_, h _⟩
  append more hn hw := by
    obtain rfl := Nat.le_zero.mp hn
    rw [h] at hw ⊢
    obtain ⟨rfl, rfl⟩ := Prod.mk.inj (Option.some.inj hw)
    rfl
  enough hn _ := by
    obtain rfl := Nat.le_zero.mp hn
    exact ⟨_, _, h _⟩

end Futils.Lib
