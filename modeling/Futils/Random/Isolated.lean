import Futils.Random.Reseed

/-!
# The pools of the threads

Whatever the order of the threads' steps, each pool is the one that a thread alone would have after some draws
and reseeds, and the bytes that the thread was served are those of these draws.  So a byte of a keystream is
served once, to one thread.
-/

namespace Futils.Random

open Futils.Lib

variable {ι : Type} [DecidableEq ι] {s s' : Sys ι} {i j : ι} {log : List (ι × List Cell)}

/-- The bytes that a thread was served, of a list of those that all were served, from the last to the
first. -/
def bytesFor (i : ι) : List (ι × List Cell) → List Cell
  | [] => []
  | (j, out) :: log => if j = i then bytesFor i log ++ out else bytesFor i log

/-- The keystream bytes of all threads, each with its thread. -/
def allTokens (log : List (ι × List Cell)) : List (ι × ℕ) :=
  log.flatMap fun e => (tokensOf e.2).map fun t => (e.1, t)

/-- The bytes that a thread is served in a step. -/
def deliver (s : Sys ι) : Act ι → List (ι × List Cell)
  | .go i =>
    match (s.threads i).pc with
    | .serving len _ _ =>
      match poolServe (s.threads i).state len with
      | .error _ => []
      | .ok (out, _) => [(i, out)]
    | _ => []
  | _ => []

/-- A step of the threads, with the list of what they were served. -/
def logStep (c : Sys ι × List (ι × List Cell)) (a : Act ι) : Option (Sys ι × List (ι × List Cell)) :=
  (sysStep c.1 a).map fun s => (s, deliver c.1 a ++ c.2)

/-- A pool alone comes to this state, and these bytes are served on the way. -/
def Alone (state : State) (bytes : List Cell) : Prop :=
  ∃ events outs, run zeroPool events = .ok (outs, state) ∧ outs.flatten = bytes

/-! ### A pool alone -/

lemma run_concat {s s₁ s₂ : State} {events : List Event} {outs : List (List Cell)} {e : Event} {out : List Cell}
    (h : run s events = .ok (outs, s₁)) (he : handle s₁ e = .ok (out, s₂)) :
    run s (events ++ [e]) = .ok (outs ++ [out], s₂) := by
  induction events generalizing s outs with
  | nil =>
    obtain ⟨rfl, rfl⟩ := Prod.mk.inj (Except.ok.inj h)
    rw [List.nil_append, run, he]
    rfl
  | cons e' events ih =>
    rw [run] at h
    rcases hhandle : handle s e' with stop | ⟨out', s'⟩
    · rw [hhandle] at h
      cases h
    rw [hhandle, ok_bind] at h
    dsimp only at h
    rcases hrun : run s' events with stop | ⟨outs', s₁'⟩
    · rw [hrun] at h
      cases h
    rw [hrun] at h
    obtain ⟨rfl, rfl⟩ := Prod.mk.inj (Except.ok.inj h)
    rw [List.cons_append, run, hhandle, ok_bind]
    dsimp only
    rw [ih hrun]
    rfl

lemma alone_zeroPool : Alone zeroPool [] := ⟨[], [], rfl, rfl⟩

lemma Alone.seed {state : State} {bytes : List Cell} (h : Alone state bytes) (era : UInt32) (fetch : Fetch) :
    Alone { state with pool := (poolSeed state.pool era fetch).2 } bytes := by
  obtain ⟨events, outs, hrun, hbytes⟩ := h
  refine ⟨events ++ [.reseed era fetch], outs ++ [[]], run_concat hrun rfl, ?_⟩
  rw [List.flatten_append, hbytes]
  exact List.append_nil bytes

lemma Alone.serve {state state' : State} {bytes out : List Cell} {len : ℕ} (h : Alone state bytes)
    (hserve : poolServe state len = .ok (out, state')) : Alone state' (bytes ++ out) := by
  obtain ⟨events, outs, hrun, hbytes⟩ := h
  -- the era is the pool's own, so that nothing is fetched
  have hrand : handle state (.rand state.pool.era (.error 1) len) = .ok (out, state') := by
    change poolRand state state.pool.era (.error 1) len = _
    unfold poolRand
    rw [poolSeedIfNeeded_same rfl, ok_bind]
    exact hserve
  refine ⟨events ++ [.rand state.pool.era (.error 1) len], outs ++ [out], run_concat hrun hrand, ?_⟩
  rw [List.flatten_append, hbytes, List.flatten_singleton]

lemma exists_mem_of_forall₂ {α β : Type} {R : α → β → Prop} {l : List α} {l' : List β}
    (h : List.Forall₂ R l l') {a : α} (ha : a ∈ l) : ∃ b ∈ l', R a b := by
  induction h with
  | nil => cases ha
  | cons hab _ ih =>
    rcases List.mem_cons.mp ha with rfl | ha
    · exact ⟨_, List.mem_cons_self, hab⟩
    · obtain ⟨b, hb, hab⟩ := ih ha
      exact ⟨b, List.mem_cons_of_mem _ hb, hab⟩

/-- What such a pool served. -/
lemma Alone.singleUse {state : State} {bytes : List Cell} (h : Alone state bytes) :
    (tokensOf bytes).Nodup ∧ ∀ c ∈ bytes, c.token.isSome := by
  obtain ⟨events, outs, hrun, rfl⟩ := h
  have hzero : zeroPool = newPool (Vector.replicate 16 0) fun _ => 0 := rfl
  rw [hzero] at hrun
  rcases run_spec (sound_newPool _ _) (books_newPool _ _) events with ⟨hstop, -⟩ | ⟨outs', s', hrun', huse⟩
  · rw [hstop] at hrun
    cases hrun
  obtain ⟨rfl, rfl⟩ := Prod.mk.inj (Except.ok.inj (hrun'.symm.trans hrun))
  refine ⟨huse.once, fun c hc => ?_⟩
  obtain ⟨out, hout, hc⟩ := List.mem_flatten.mp hc
  obtain ⟨e, -, hfilled⟩ := exists_mem_of_forall₂ huse.filled hout
  exact hfilled.2 c hc

/-! ### The threads -/

lemma bytesFor_cons_self (out : List Cell) : bytesFor i ((i, out) :: log) = bytesFor i log ++ out :=
  if_pos rfl

lemma bytesFor_cons_of_ne (h : j ≠ i) (out : List Cell) : bytesFor i ((j, out) :: log) = bytesFor i log :=
  if_neg h

lemma mem_bytesFor {e : ι × List Cell} {c : Cell} (he : e ∈ log) (hc : c ∈ e.2) : c ∈ bytesFor e.1 log := by
  induction log with
  | nil => cases he
  | cons e' log ih =>
    obtain ⟨j, out⟩ := e'
    by_cases hj : j = e.1
    · rw [hj, bytesFor_cons_self, List.mem_append]
      rcases List.mem_cons.mp he with rfl | he
      · exact Or.inr hc
      · exact Or.inl (ih he)
    · rw [bytesFor_cons_of_ne hj]
      rcases List.mem_cons.mp he with rfl | he
      · exact absurd rfl hj
      · exact ih he

/-- Each thread has its own tokens. -/
lemma count_allTokens (i : ι) (t : ℕ) (log : List (ι × List Cell)) :
    (allTokens log).count (i, t) = (tokensOf (bytesFor i log)).count t := by
  induction log with
  | nil => rfl
  | cons e log ih =>
    obtain ⟨j, out⟩ := e
    unfold allTokens at ih ⊢
    rw [List.flatMap_cons, List.count_append, ih]
    dsimp only
    by_cases hji : j = i
    · subst hji
      have hcount := List.count_map_of_injective (tokensOf out) (fun t => (j, t)) (Prod.mk_right_injective j) t
      rw [bytesFor_cons_self, tokensOf_append, List.count_append, hcount, Nat.add_comm]
    · have hnone : ((tokensOf out).map fun t => (j, t)).count (i, t) = 0 := by
        refine List.count_eq_zero.mpr fun hmem => ?_
        obtain ⟨t', -, heq⟩ := List.mem_map.mp hmem
        exact hji (congrArg Prod.fst heq)
      rw [bytesFor_cons_of_ne hji, hnone, Nat.zero_add]

/-- What the threads were served, and by which pools. -/
structure Logged (s : Sys ι) (log : List (ι × List Cell)) : Prop where
  served : log.map Prod.snd = s.served.map Served.out
  alone : ∀ i, Alone (s.threads i).state (bytesFor i log)

lemma Logged.set {t : Thread} (h : Logged s log) (ht : Alone t.state (bytesFor i log)) :
    Logged (s.set i t) log where
  served := h.served
  alone i' := by
    by_cases hi : i' = i
    · subst hi
      simpa [Sys.set] using ht
    · simpa [Sys.set, hi] using h.alone i'

/-- A thread goes somewhere else. -/
lemma Logged.goto (h : Logged s log) (i : ι) (pc : Pc) : Logged (s.set i { s.threads i with pc := pc }) log :=
  h.set (h.alone i)

/-- A draw is served. -/
lemma Logged.serve (h : Logged s log) {len : ℕ} {out : List Cell} {state : State}
    (hserve : poolServe (s.threads i).state len = .ok (out, state)) (need : List ℕ) (origins : Finset ℕ)
    {t : Thread} (ht : t.state = state) :
    Logged ({ s with served := ⟨need, origins, out⟩ :: s.served }.set i t) ((i, out) :: log) where
  served := by
    change out :: log.map Prod.snd = out :: s.served.map Served.out
    rw [h.served]
  alone i' := by
    by_cases hi : i' = i
    · subst hi
      rw [bytesFor_cons_self]
      simpa [Sys.set, ht] using (h.alone i').serve hserve
    · rw [bytesFor_cons_of_ne (Ne.symm hi)]
      simpa [Sys.set, hi] using h.alone i'

lemma logged_start : Logged (Sys.start ι) [] := ⟨rfl, fun _ => alone_zeroPool⟩

omit [DecidableEq ι] in
/-- A thread goes on, and is served the bytes or none. -/
lemma deliver_go (s : Sys ι) (i : ι) :
    deliver s (.go i) = [] ∨ ∃ len need k out state, (s.threads i).pc = .serving len need k ∧
      poolServe (s.threads i).state len = .ok (out, state) ∧ deliver s (.go i) = [(i, out)] := by
  unfold deliver
  dsimp only
  split
  next len need k hat =>
    rcases hserve : poolServe (s.threads i).state len with stop | ⟨out, state⟩
    · exact Or.inl rfl
    · exact Or.inr ⟨len, need, k, out, state, hat, hserve, rfl⟩
  next => exact Or.inl rfl

/-- A step that is not a draw's last one changes one pool at most, as a reseed does. -/
lemma Logged.move (h : Logged s log) (hmove : Moves s i s')
    (hlast : ∀ len need k out state, (s.threads i).pc = .serving len need k →
      poolServe (s.threads i).state len ≠ .ok (out, state)) : Logged s' log := by
  cases hmove with
  | seed len need era k key hat => exact h.set ((h.alone i).seed era (.ok key))
  | reseeded era k key hat => exact h.set ((h.alone i).seed era (.ok key))
  | serve len need k out state hat hserve => exact absurd hserve (hlast len need k out state hat)
  | era hat =>
    have hnext : Logged { s with era := s.era + 2, count := s.count + 1 } log := ⟨h.served, h.alone⟩
    exact hnext.goto i _
  | done k hat =>
    have hnext : Logged { s with returned := k :: s.returned } log := ⟨h.served, h.alone⟩
    exact hnext.goto i _
  | abort => exact ⟨h.served, h.alone⟩
  | draw | keep | stale | key | reseed | rekey | fail => exact h.goto i _

/-- **Every step** is a step of one pool on its own, or leaves the pools. -/
lemma logged_step {a : Act ι} (h : Logged s log) (hs : sysStep s a = some s') :
    Logged s' (deliver s a ++ log) := by
  unfold sysStep at hs
  split_ifs at hs
  cases a with
  | draw i len =>
    dsimp only at hs
    split at hs <;> cases hs
    exact h.goto i _
  | reseed i =>
    dsimp only at hs
    split at hs <;> cases hs
    exact h.goto i _
  | fetch i result =>
    refine h.move (moves_of_fetchStep hs) fun len need k out state hat => ?_
    simp [fetchStep, hat] at hs
  | go i =>
    rcases deliver_go s i with hnone | ⟨len, need, k, out, state, hat, hserve, hout⟩
    · rw [hnone]
      refine h.move (moves_of_goStep hs) fun len need k out state hat hserve => ?_
      simp [deliver, hat, hserve] at hnone
    · rw [hout]
      unfold goStep at hs
      simp only [hat, hserve, Option.some.injEq] at hs
      subst hs
      exact h.serve hserve need _ rfl

/-- A step that aborts is a draw's `rand_fetch` that failed. -/
lemma aborts_of_sysStep {a : Act ι} (h : Ok s) (hs : sysStep s a = some s') (habort : s'.aborted) :
    ∃ i len need era k err, (s.threads i).pc = .seeding len need era k ∧ a = .fetch i (.error err) := by
  unfold sysStep at hs
  split_ifs at hs with hlive
  cases a with
  | draw i len =>
    dsimp only at hs
    split at hs <;> cases hs
    exact absurd habort hlive
  | reseed i =>
    dsimp only at hs
    split at hs <;> cases hs
    exact absurd habort hlive
  | fetch i result =>
    dsimp only [fetchStep] at hs
    split at hs <;> cases hs
    next len need era k err hat => exact ⟨i, len, need, era, k, err, hat, rfl⟩
    all_goals exact absurd habort hlive
  | go i =>
    dsimp only [goStep] at hs
    split at hs
    next => split_ifs at hs <;> cases hs <;> exact absurd habort hlive
    next => cases hs; exact absurd habort hlive
    next len need k hat =>
      obtain ⟨out, state, hserve, -⟩ := poolServe_serves (h.threads i).sound len
      rw [hserve] at hs
      cases hs
      exact absurd habort hlive
    next => cases hs; exact absurd habort hlive
    next => cases hs; exact absurd habort hlive
    next => cases hs; exact absurd habort hlive
    next => cases hs

end Futils.Random
