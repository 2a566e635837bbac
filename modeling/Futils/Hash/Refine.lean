import Futils.Hash.Ops
import Futils.Lib.Reach

/-!
# The hash table is a finite map

`Map.step` says what a call does to a finite map from keys to values, and `Represents s m n` that the
table `s`, in which no chain has more than `n` entries, stands for the map `m`.  A call on the table
answers what the call on the map answers, and so does every run.
-/

namespace Futils.Hash

open Futils.Lib List

/-- A call of the interface; an insertion comes with the block that `calloc` returns, if it does, and a
lookup with what `*data` is before, if `data` is not `NULL`. -/
inductive Call
  | insert (block : Option ℕ) (key : UInt32) (data : ℕ)
  | insertConst (block : Option ℕ) (key : UInt32) (data : ℕ)
  | remove (key : UInt32)
  | removeAll
  | lookup (key : UInt32) (data : Option ℕ)
  | lookupConst (key : UInt32) (data : Option ℕ)
  | destroy
  deriving DecidableEq

/-- The return value, and what `*data` is then. -/
abbrev Answer := ℤ × Option ℕ

/-! ### The table -/

/-- A call on the table: its answer, the state, and the calls of `hfree`. -/
def step (fuel : ℕ) (s : State) : Call → Option (Answer × State × List ℕ)
  | .insert block key data =>
    (futilsHashInsert fuel s block key data).map fun r => ((r.1, none), r.2, [])
  | .insertConst block key data =>
    (futilsHashInsertConst fuel s block key data).map fun r => ((r.1, none), r.2, [])
  | .remove key => (futilsHashRemove fuel s key).map fun r => ((r.1, none), r.2.1, r.2.2)
  | .removeAll => (futilsHashRemoveAll fuel s).map fun r => ((r.1, none), r.2.1, r.2.2)
  | .lookup key data => (futilsHashLookup fuel s key data).map fun r => (r, s, [])
  | .lookupConst key data => (futilsHashLookupConst fuel s key data).map fun r => (r, s, [])
  | .destroy => (futilsHashDestroy fuel s).map fun r => ((r.1, none), r.2.1, r.2.2)

/-- The state after a call. -/
def next (fuel : ℕ) (s : State) (c : Call) : State :=
  match step fuel s c with
  | some (_, s, _) => s
  | none => s

def run (fuel : ℕ) : State → List Call → Option (List Answer × State)
  | s, [] => some ([], s)
  | s, c :: cs =>
    (step fuel s c).bind fun r => (run fuel r.2.1 cs).map fun rest => (r.1 :: rest.1, rest.2)

/-- What the allocator returns is fresh. -/
def Call.Fresh (s : State) : Call → Prop
  | .insert block _ _ => ∀ p ∈ block, Hash.Fresh s p
  | .insertConst block _ _ => ∀ p ∈ block, Hash.Fresh s p
  | _ => True

/-- A destroyed table has no buckets to look in. -/
def Call.Legal (s : State) (c : Call) : Prop :=
  c.Fresh s ∧ (s.tab.size = 0 → c = .removeAll ∨ c = .destroy)

/-! ### The map -/

abbrev Map := Finmap fun _ : UInt32 => Value

/-- Both kinds of insertion. -/
def Map.insertNew (m : Map) (block : Option ℕ) (key : UInt32) (v : Value) : Answer × Map :=
  match block, m.lookup key with
  | none, _ => ((-ENOMEM, none), m)
  | some _, some _ => ((-EEXIST, none), m)
  | some _, none => ((0, none), m.insert key v)

/-- A call on the map. -/
def Map.step (m : Map) : Call → Answer × Map
  | .insert block key data => m.insertNew block key ⟨data, false⟩
  | .insertConst block key data => m.insertNew block key ⟨data, true⟩
  | .remove key =>
    match m.lookup key with
    | some _ => ((0, none), m.erase key)
    | none => ((-ENOENT, none), m)
  | .removeAll => ((0, none), ∅)
  | .lookup key data =>
    match m.lookup key with
    | some v => if v.isConst then ((-EPERM, data), m) else ((0, data.map fun _ => v.data), m)
    | none => ((-ENOENT, data), m)
  | .lookupConst key data =>
    match m.lookup key with
    | some v => ((0, data.map fun _ => v.data), m)
    | none => ((-ENOENT, data), m)
  | .destroy => ((0, none), ∅)

def Map.run (m : Map) : List Call → List Answer × Map
  | [] => ([], m)
  | c :: cs => ((m.step c).1 :: ((m.step c).2.run cs).1, ((m.step c).2.run cs).2)

/-- The bindings that a call takes out of the map. -/
def Map.leaving (m : Map) : Call → Multiset (Σ _ : UInt32, Value)
  | .remove key =>
    match m.lookup key with
    | some v => {⟨key, v⟩}
    | none => 0
  | .removeAll => m.entries
  | .destroy => m.entries
  | _ => 0

/-! ### Representation -/

/-- The table stands for the map, and no chain has more than `n` entries. -/
def Represents (s : State) (m : Map) (n : ℕ) : Prop :=
  ∃ chains bs, Holds s chains bs ∧ Buckets.Of s.tab.index bs m ∧ ∀ i, (chains i).length ≤ n

variable {s s' : State} {m : Map} {n fuel : ℕ} {c : Call} {cs : List Call} {key : UInt32} {v : Value}

/-- Empty buckets stand for the empty map. -/
lemma represents_empty (h : ∀ i < s.tab.size.toNat, s.tab.buckets i = 0) : Represents s ∅ n := by
  refine ⟨fun _ => [], fun _ => [], ⟨h, fun _ _ => rfl, fun _ => rfl, .nil⟩, .empty, ?_⟩
  intro i
  exact Nat.zero_le n

lemma Represents.mono {n' : ℕ} (h : Represents s m n) (hn : n ≤ n') : Represents s m n' := by
  obtain ⟨chains, bs, hholds, hof, hlen⟩ := h
  exact ⟨chains, bs, hholds, hof, fun i => (hlen i).trans hn⟩

/-- What a call on the table does, next to the call on the map. -/
structure Simulates (s s' : State) (m : Map) (n : ℕ) (c : Call) (fr : List ℕ) : Prop where
  represents : Represents s' (m.step c).2 (n + 1)
  table : c ≠ .destroy → SameTable s s'
  destroyed : c = .destroy → s'.tab.size = 0
  freed : (fr : Multiset ℕ) = if s.tab.hfree then (m.leaving c).map fun x => x.2.data else 0
  unchanged : (m.step c).1.1 < 0 → s'.tab = s.tab ∧ s'.heap = s.heap

lemma SameTable.refl : SameTable s s := ⟨rfl, rfl, rfl⟩

/-- Nothing is freed by a call that takes nothing out. -/
lemma freed_nil (h : m.leaving c = 0) :
    (([] : List ℕ) : Multiset ℕ) =
      if s.tab.hfree then (m.leaving c).map fun x => x.2.data else 0 := by
  rw [h, Multiset.map_zero, ite_self]
  rfl

lemma Map.leaving_remove_none (h : m.lookup key = none) : m.leaving (.remove key) = 0 := by
  unfold leaving
  dsimp only
  rw [h]

lemma Map.leaving_remove_some (h : m.lookup key = some v) :
    m.leaving (.remove key) = {⟨key, v⟩} := by
  unfold leaving
  dsimp only
  rw [h]

/-! ### One call -/

lemma insertAs_simulates (h : Represents s m n) (hfuel : n < fuel) (hsize : s.tab.size ≠ 0)
    {block : Option ℕ} (hfresh : ∀ p ∈ block, Fresh s p) (isConst : Bool) (key : UInt32)
    (data : ℕ) :
    ∃ s', insertAs isConst fuel s block key data =
        some ((m.insertNew block key ⟨data, isConst⟩).1.1, s') ∧
      Represents s' (m.insertNew block key ⟨data, isConst⟩).2 (n + 1) ∧ SameTable s s' ∧
      ((m.insertNew block key ⟨data, isConst⟩).1.1 < 0 → s'.tab = s.tab ∧ s'.heap = s.heap) := by
  cases block with
  | none => exact ⟨s, rfl, h.mono n.le_succ, .refl, fun _ => ⟨rfl, rfl⟩⟩
  | some p =>
    obtain ⟨chains, bs, hholds, hof, hlen⟩ := h
    have henough : Enough chains fuel := fun i => (hlen i).trans_lt hfuel
    have hp : Fresh s p := hfresh p rfl
    unfold Map.insertNew
    cases hkey : m.lookup key with
    | some v =>
      refine ⟨_, insertAs_exists hholds hsize henough hp ((hof key).symm.trans hkey), ?_,
        ⟨rfl, rfl, rfl⟩, fun _ => ⟨rfl, rfl⟩⟩
      exact ⟨chains, bs, ⟨hholds.chain, hholds.outside, hholds.binds, hholds.buckets⟩, hof,
        fun i => (hlen i).trans n.le_succ⟩
    | none =>
      have hnone := (hof key).symm.trans hkey
      obtain ⟨s', hins, htab, hholds'⟩ :=
        insertAs_new hholds hsize henough hp isConst data hnone
      refine ⟨s', hins, ⟨_, _, hholds', ?_, ?_⟩, htab, fun hneg => absurd hneg (lt_irrefl _)⟩
      · rw [htab.index]
        exact hof.insert key _
      · exact length_update_le (fun i => (hlen i).trans n.le_succ) _ (Nat.succ_le_succ (hlen _))

lemma remove_simulates (h : Represents s m n) (hfuel : n < fuel) (hsize : s.tab.size ≠ 0)
    (key : UInt32) :
    ∃ s' fr, step fuel s (.remove key) = some ((m.step (.remove key)).1, s', fr) ∧
      Simulates s s' m n (.remove key) fr := by
  obtain ⟨chains, bs, hholds, hof, hlen⟩ := h
  have henough : Enough chains fuel := fun i => (hlen i).trans_lt hfuel
  have hlen' : ∀ i, (chains i).length ≤ n + 1 := fun i => (hlen i).trans n.le_succ
  cases hkey : m.lookup key with
  | none =>
    have hrun := remove_absent hholds hsize henough ((hof key).symm.trans hkey)
    refine ⟨s, [], by simp [step, hrun, Map.step, hkey], ?_, fun _ => .refl, by simp, ?_,
      fun _ => ⟨rfl, rfl⟩⟩
    · simp only [Map.step, hkey]
      exact ⟨chains, bs, hholds, hof, hlen'⟩
    · exact freed_nil (Map.leaving_remove_none hkey)
  | some v =>
    obtain ⟨s', as, hrun, htab, hholds', has⟩ :=
      remove_present hholds hsize henough ((hof key).symm.trans hkey)
    refine ⟨s', freed s [⟨key, v⟩], by simp [step, hrun, Map.step, hkey], ?_, fun _ => htab, by simp,
      ?_, ?_⟩
    · simp only [Map.step, hkey]
      refine ⟨_, _, hholds', ?_, ?_⟩
      · rw [htab.index]
        exact hof.erase hholds.buckets key
      · exact length_update_le hlen' _ (has.le.trans (hlen' _))
    · rw [Map.leaving_remove_some hkey, freed, Multiset.map_singleton]
      split_ifs <;> rfl
    · simp [Map.step, hkey]

lemma removeAll_spec (h : Represents s m n) (hfuel : n < fuel) :
    ∃ s' fr, futilsHashRemoveAll fuel s = some (0, s', fr) ∧ SameTable s s' ∧
      Represents s' ∅ (n + 1) ∧
      (fr : Multiset ℕ) = if s.tab.hfree then m.entries.map fun x => x.2.data else 0 := by
  obtain ⟨chains, bs, hholds, hof, hlen⟩ := h
  have hbs : ∀ i, s.tab.size.toNat ≤ i → bs i = [] := by
    intro i hi
    rw [← hholds.binds i, hholds.outside i hi]
    rfl
  obtain ⟨s', hloop, htab, hholds'⟩ :=
    removeAllLoop_eq (i := 0) hholds (Nat.zero_add _).le fun i => (hlen i).trans_lt hfuel
  refine ⟨s', _, by rw [futilsHashRemoveAll, hloop], htab, ?_, ?_⟩
  · refine represents_empty fun i hi => ?_
    have hchain := hholds'.chain i hi
    rw [htab.size] at hi
    rwa [cleared, if_pos ⟨i.zero_le, by omega⟩] at hchain
  · rw [hof.entries_eq hholds.buckets hbs, freed, range_eq_range']
    split_ifs <;> simp

/-- The entry that is looked up is there exactly when the map has the key. -/
lemma lookupEntry_eq (h : Represents s m n) (hfuel : n < fuel) (hsize : s.tab.size ≠ 0)
    (key : UInt32) :
    ∃ r, futilsHashLookupEntry fuel s key = some r ∧
      match m.lookup key with
      | some v => ∃ e, r = (0, some e) ∧ e.data = v.data ∧ e.isConst = v.isConst
      | none => r = (-ENOENT, none) := by
  obtain ⟨chains, bs, hholds, hof, hlen⟩ := h
  have henough : Enough chains fuel := fun i => (hlen i).trans_lt hfuel
  cases hkey : m.lookup key with
  | none => exact ⟨_, lookupEntry_none hholds hsize henough ((hof key).symm.trans hkey), rfl⟩
  | some v =>
    obtain ⟨e, hb, hrun⟩ := lookupEntry_some hholds hsize henough ((hof key).symm.trans hkey)
    exact ⟨_, hrun, e, rfl, congrArg (fun x => x.2.data) hb, congrArg (fun x => x.2.isConst) hb⟩

/-- A call that only reads. -/
lemma Simulates.of_read (h : Represents s m n) (hmap : (m.step c).2 = m) (hleaving : m.leaving c = 0)
    (hc : c ≠ .destroy) : Simulates s s m n c [] := by
  refine ⟨?_, fun _ => .refl, fun hd => absurd hd hc, ?_, fun _ => ⟨rfl, rfl⟩⟩
  · rw [hmap]
    exact h.mono n.le_succ
  · rw [hleaving]
    split_ifs <;> rfl

lemma lookup_simulates (h : Represents s m n) (hfuel : n < fuel) (hsize : s.tab.size ≠ 0)
    (key : UInt32) (data : Option ℕ) :
    step fuel s (.lookup key data) = some ((m.step (.lookup key data)).1, s, []) ∧
      (m.step (.lookup key data)).2 = m := by
  obtain ⟨r, hrun, hr⟩ := lookupEntry_eq h hfuel hsize key
  cases hkey : m.lookup key with
  | none =>
    rw [hkey] at hr
    subst hr
    simp [step, futilsHashLookup, hrun, Map.step, hkey]
  | some v =>
    rw [hkey] at hr
    obtain ⟨e, rfl, hdata, hconst⟩ := hr
    cases hv : v.isConst <;>
      simp [step, futilsHashLookup, hrun, Map.step, hkey, hdata, hconst, hv]

lemma lookupConst_simulates (h : Represents s m n) (hfuel : n < fuel) (hsize : s.tab.size ≠ 0)
    (key : UInt32) (data : Option ℕ) :
    step fuel s (.lookupConst key data) = some ((m.step (.lookupConst key data)).1, s, []) ∧
      (m.step (.lookupConst key data)).2 = m := by
  obtain ⟨r, hrun, hr⟩ := lookupEntry_eq h hfuel hsize key
  cases hkey : m.lookup key with
  | none =>
    rw [hkey] at hr
    subst hr
    simp [step, futilsHashLookupConst, hrun, Map.step, hkey]
  | some v =>
    rw [hkey] at hr
    obtain ⟨e, rfl, hdata, -⟩ := hr
    simp [step, futilsHashLookupConst, hrun, Map.step, hkey, hdata]

lemma Map.insertNew_data (m : Map) (block : Option ℕ) (key : UInt32) (v : Value) :
    (m.insertNew block key v).1.2 = none := by
  unfold insertNew
  split <;> rfl

/-- **A call on the table answers what the call on the map answers**, and then the table stands for
the map again. -/
theorem step_simulates (h : Represents s m n) (hfuel : n < fuel) (hlegal : c.Legal s) :
    ∃ s' fr, step fuel s c = some ((m.step c).1, s', fr) ∧ Simulates s s' m n c fr := by
  cases c with
  | insert block key data =>
    have hsize : s.tab.size ≠ 0 := fun hz => by simpa using hlegal.2 hz
    obtain ⟨s', hins, hrep, htab, hun⟩ := insertAs_simulates h hfuel hsize hlegal.1 false key data
    refine ⟨s', [], ?_, hrep, fun _ => htab, by simp, freed_nil rfl, hun⟩
    rw [step, futilsHashInsert, hins, Option.map_some, Map.step,
      ← m.insertNew_data block key ⟨data, false⟩]
  | insertConst block key data =>
    have hsize : s.tab.size ≠ 0 := fun hz => by simpa using hlegal.2 hz
    obtain ⟨s', hins, hrep, htab, hun⟩ := insertAs_simulates h hfuel hsize hlegal.1 true key data
    refine ⟨s', [], ?_, hrep, fun _ => htab, by simp, freed_nil rfl, hun⟩
    rw [step, futilsHashInsertConst, hins, Option.map_some, Map.step,
      ← m.insertNew_data block key ⟨data, true⟩]
  | remove key => exact remove_simulates h hfuel (fun hz => by simpa using hlegal.2 hz) key
  | removeAll =>
    obtain ⟨s', fr, hrun, htab, hrep, hfr⟩ := removeAll_spec h hfuel
    refine ⟨s', fr, ?_, hrep, fun _ => htab, by simp, hfr, fun hneg => absurd hneg (lt_irrefl _)⟩
    rw [step, hrun]
    rfl
  | lookup key data =>
    have hsize : s.tab.size ≠ 0 := fun hz => by simpa using hlegal.2 hz
    obtain ⟨hrun, hmap⟩ := lookup_simulates h hfuel hsize key data
    exact ⟨s, [], hrun, .of_read h hmap rfl (by simp)⟩
  | lookupConst key data =>
    have hsize : s.tab.size ≠ 0 := fun hz => by simpa using hlegal.2 hz
    obtain ⟨hrun, hmap⟩ := lookupConst_simulates h hfuel hsize key data
    exact ⟨s, [], hrun, .of_read h hmap rfl (by simp)⟩
  | destroy =>
    obtain ⟨s', fr, hrun, -, -, hfr⟩ := removeAll_spec h hfuel
    refine ⟨_, fr, by rw [step, futilsHashDestroy, hrun]; rfl, ?_, absurd rfl, fun _ => rfl, hfr,
      fun hneg => absurd hneg (lt_irrefl _)⟩
    exact represents_empty fun i hi => absurd hi (Nat.not_lt_zero i)

/-! ### Runs -/

lemma primeLoop_mem (size : ℕ) {ps : List UInt32} (h : ps ≠ []) : primeLoop size ps ∈ ps := by
  induction ps with
  | nil => exact absurd rfl h
  | cons p ps ih =>
    cases ps with
    | nil => exact mem_singleton_self p
    | cons q ps =>
      unfold primeLoop
      split_ifs
      · exact mem_cons_of_mem _ (ih (cons_ne_nil _ _))
      · exact mem_cons_self

/-- A new table stands for the empty map. -/
lemma represents_init {heap : Heap HashEntry} {nodes : LinkedList.Nodes} {hash size : ℕ}
    {hfree calloc : Bool} (h : futilsHashInit heap nodes hash size hfree calloc = (0, s)) :
    Represents s ∅ 0 ∧ s.tab.size ≠ 0 ∧ s.tab.hfree = hfree := by
  cases calloc with
  | false =>
    have hret : -ENOMEM = 0 := congrArg Prod.fst h
    exact absurd hret (by decide)
  | true =>
    obtain rfl := congrArg Prod.snd h
    have hprime : (0 : UInt32) ∉ futilsHashPrimeTab := by decide
    have hmem : primeLoop size futilsHashPrimeTab ∈ futilsHashPrimeTab :=
      primeLoop_mem size (cons_ne_nil _ _)
    exact ⟨represents_empty fun _ _ => rfl, ne_of_mem_of_not_mem hmem hprime, rfl⟩

lemma next_eq {ans : Answer} {fr : List ℕ} (h : step fuel s c = some (ans, s', fr)) :
    next fuel s c = s' := by
  rw [next, h]

/-- **Every run answers what the run on the map answers.** -/
theorem run_simulates (h : Represents s m n) (hsize : s.tab.size ≠ 0)
    (hfresh : Along (next fuel) (fun s c => c.Fresh s) s cs) (hdestroy : .destroy ∉ cs)
    (hfuel : n + cs.length ≤ fuel) :
    ∃ s', run fuel s cs = some ((m.run cs).1, s') ∧ Represents s' (m.run cs).2 (n + cs.length) ∧
      s'.tab.size ≠ 0 := by
  induction cs generalizing s m n with
  | nil => exact ⟨s, rfl, h, hsize⟩
  | cons c cs ih =>
    rw [length_cons] at hfuel
    rw [mem_cons, not_or] at hdestroy
    have hlt : n < fuel := by omega
    obtain ⟨s₁, fr, hstep, hsim⟩ := step_simulates h hlt ⟨hfresh.1, fun hz => absurd hz hsize⟩
    have hsize₁ : s₁.tab.size ≠ 0 := by
      rw [(hsim.table (Ne.symm hdestroy.1)).size]
      exact hsize
    have hrest := hfresh.2
    rw [next_eq hstep] at hrest
    obtain ⟨s', hrun, hrep, hsize'⟩ := ih hsim.represents hsize₁ hrest hdestroy.2 (by omega)
    refine ⟨s', ?_, ?_, hsize'⟩
    · simp [run, hstep, hrun, Map.run]
    · rw [length_cons, show n + (cs.length + 1) = n + 1 + cs.length by omega]
      exact hrep

/-- **The hash table is a finite map.**  From a new table of any size, every run answers what the map
answers, and a call that fails leaves the table as it is. -/
theorem hash_refines_map {heap : Heap HashEntry} {nodes : LinkedList.Nodes} {hash size : ℕ}
    {hfree calloc : Bool} {s : State} {calls : List Call} {fuel : ℕ}
    (hinit : futilsHashInit heap nodes hash size hfree calloc = (0, s))
    (hfresh : Along (next fuel) (fun s c => c.Fresh s) s calls) (hdestroy : .destroy ∉ calls)
    (hfuel : calls.length < fuel) :
    ∃ s', run fuel s calls = some ((Map.run ∅ calls).1, s') ∧
      Represents s' (Map.run ∅ calls).2 calls.length ∧
      ∀ c : Call, c.Fresh s' → ∃ s'' fr,
        step fuel s' c = some (((Map.run ∅ calls).2.step c).1, s'', fr) ∧
        (((Map.run ∅ calls).2.step c).1.1 < 0 → s''.tab = s'.tab ∧ s''.heap = s'.heap) := by
  obtain ⟨hrep, hsize, -⟩ := represents_init hinit
  obtain ⟨s', hrun, hrep', hsize'⟩ :=
    run_simulates hrep hsize hfresh hdestroy (by omega)
  rw [Nat.zero_add] at hrep'
  refine ⟨s', hrun, hrep', fun c hc => ?_⟩
  obtain ⟨s'', fr, hstep, hsim⟩ := step_simulates hrep' hfuel ⟨hc, fun hz => absurd hz hsize'⟩
  exact ⟨s'', fr, hstep, hsim.unchanged⟩

/-- The calls of the example: two keys in one bucket, of which the one at the tail is removed. -/
def collidingCalls : List Call :=
  [.insert (some 8) 7 100, .insertConst (some 16) 9 200, .insert (some 24) 9 300, .remove 7,
    .lookup 9 (some 0)]

/-- A table with a single bucket, in which all keys collide. -/
theorem hash_refines_map_colliding :
    ∃ s', run 6 (futilsHashInit (fun _ => none) (fun _ => ⟨0, 0⟩) 40 0 true true).2 collidingCalls =
        some ((Map.run ∅ collidingCalls).1, s') ∧
      Represents s' (Map.run ∅ collidingCalls).2 5 ∧
      ∀ c : Call, c.Fresh s' → ∃ s'' fr,
        step 6 s' c = some (((Map.run ∅ collidingCalls).2.step c).1, s'', fr) ∧
        (((Map.run ∅ collidingCalls).2.step c).1.1 < 0 → s''.tab = s'.tab ∧ s''.heap = s'.heap) :=
  hash_refines_map
    (show futilsHashInit (fun _ => none) (fun _ => ⟨0, 0⟩) 40 0 true true = (0, _) from rfl)
    (by
      refine ⟨?_, ?_, ?_, trivial, trivial, trivial⟩
      all_goals
        rintro p ⟨⟩
        exact ⟨by decide, by decide +kernel⟩)
    (by decide) (by decide)

end Futils.Hash
