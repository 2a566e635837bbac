import Futils.Random.SingleUse
import Futils.Random.Threads

/-!
# Reseeds reach every thread

The eras are odd, and the pool of a thread that was never seeded has the era `0`.  A pool records the
era that was read or started before its key was fetched, so that a draw that finds this era unchanged
has a key that is new enough, unless `seed_era` has wrapped around in between.
-/

namespace Futils.Random

open Futils.Lib

variable {ι : Type} [DecidableEq ι] {s s' : Sys ι} {t : Thread} {n n' j k : ℕ} {i : ι} {a : Act ι}
  {pc : Pc}

/-! ### Eras -/

lemma toNat_eraOf (k : ℕ) : (eraOf k).toNat = (1 + 2 * k) % 2 ^ 32 := UInt32.toNat_ofNat'

lemma eraOf_ne_zero (k : ℕ) : eraOf k ≠ 0 := by
  intro h
  have hzero := congrArg UInt32.toNat h
  rw [toNat_eraOf, UInt32.toNat_zero] at hzero
  omega

lemma eraOf_succ (k : ℕ) : eraOf k + 2 = eraOf (k + 1) := by
  refine UInt32.toNat_inj.mp ?_
  rw [UInt32.toNat_add, toNat_eraOf, toNat_eraOf]
  change ((1 + 2 * k) % 2 ^ 32 + 2) % 2 ^ 32 = _
  omega

/-- Close eras are different. -/
lemma eq_of_eraOf_eq (h : eraOf j = eraOf k) (hle : j ≤ k) (hlt : k - j < 2 ^ 31) : j = k := by
  have hnat := congrArg UInt32.toNat h
  rw [toNat_eraOf, toNat_eraOf] at hnat
  omega

/-! ### The invariant -/

/-- What is known where a thread is, of the `n` increments so far. -/
def PcOk (n : ℕ) (read recorded : Option ℕ) : Pc → Prop
  | .drawing _ need => ∀ j ∈ need, j ≤ n
  | .seeding _ need era k =>
    era = eraOf k ∧ k ≤ n ∧ (∀ r, read = some r → r ≤ k) ∧ ∀ j ∈ need, j ≤ k
  | .seeded _ need era k key =>
    era = eraOf k ∧ k ≤ n ∧ (∀ r, read = some r → r ≤ k) ∧ (∀ j ∈ need, j ≤ k) ∧ k ≤ key.id
  | .serving _ need k => k ≤ n ∧ (∀ j ∈ need, j ≤ k) ∧ recorded ≠ none
  | .fetching era k => era = eraOf k ∧ k ≤ n ∧ ∀ r, read = some r → r ≤ k
  | .fetched era k key => era = eraOf k ∧ k ≤ n ∧ (∀ r, read = some r → r ≤ k) ∧ k ≤ key.id
  | .returning k => k ≤ n
  | .idle | .reseeding => True

/-- A pool has no key yet, or one that was fetched after the era that it records began. -/
structure ThreadOk (n : ℕ) (t : Thread) : Prop where
  sound : t.state.pool.Sound
  unseeded : t.recorded = none → t.state.pool.era = 0
  recorded : ∀ k, t.recorded = some k →
    k ≤ n ∧ t.state.pool.era = eraOf k ∧ ∃ τ, t.state.pool.chacha.origins = {τ} ∧ k ≤ τ
  read : ∀ r, t.read = some r → r ≤ n
  pc : PcOk n t.read t.recorded t.pc

structure Ok (s : Sys ι) : Prop where
  era : s.era = eraOf s.count
  threads : ∀ i, ThreadOk s.count (s.threads i)
  returned : ∀ j ∈ s.returned, j ≤ s.count
  served : ∀ d ∈ s.served, ∃ τ, d.origins = {τ} ∧ ∀ c ∈ d.out, c.IsFrom {τ}

lemma PcOk.mono {read recorded : Option ℕ} (h : PcOk n read recorded pc) (hle : n ≤ n') :
    PcOk n' read recorded pc := by
  cases pc with
  | drawing len need => exact fun j hj => (h j hj).trans hle
  | seeding len need era k => exact ⟨h.1, h.2.1.trans hle, h.2.2⟩
  | seeded len need era k key => exact ⟨h.1, h.2.1.trans hle, h.2.2⟩
  | serving len need k => exact ⟨h.1.trans hle, h.2⟩
  | fetching era k => exact ⟨h.1, h.2.1.trans hle, h.2.2⟩
  | fetched era k key => exact ⟨h.1, h.2.1.trans hle, h.2.2⟩
  | returning k => exact Nat.le_trans h hle
  | idle => trivial
  | reseeding => trivial

lemma ThreadOk.mono (h : ThreadOk n t) (hle : n ≤ n') : ThreadOk n' t where
  sound := h.sound
  unseeded := h.unseeded
  recorded k hk := ⟨(h.recorded k hk).1.trans hle, (h.recorded k hk).2⟩
  read r hr := (h.read r hr).trans hle
  pc := h.pc.mono hle

/-- A thread goes somewhere else, and its pool stays as it is. -/
lemma ThreadOk.goto (h : ThreadOk n t) (pc : Pc) (hpc : PcOk n t.read t.recorded pc) :
    ThreadOk n { t with pc := pc } := ⟨h.sound, h.unseeded, h.recorded, h.read, hpc⟩

/-- A pool is seeded. -/
lemma ThreadOk.seed (h : ThreadOk n t) {key : Key} (hk : k ≤ n) (hkey : k ≤ key.id) (pc : Pc)
    (hpc : PcOk n t.read (some k) pc) :
    ThreadOk n { t with
      state := { t.state with pool := (poolSeed t.state.pool (eraOf k) (.ok key)).2 }
      pc := pc
      recorded := some k } where
  sound := (serves_seeded h.sound (eraOf k) (.ok key)).1
  unseeded := by
    rintro ⟨⟩
  recorded := by
    rintro k' ⟨⟩
    exact ⟨hk, rfl, key.id, origins_chachaInit fun i _ => rfl, hkey⟩
  read := h.read
  pc := hpc

/-- A draw is served. -/
lemma ThreadOk.serve (h : ThreadOk n t) {state : State} {out : List Cell}
    (hserves : Serves t.state state out) (hk : k ≤ n) :
    ThreadOk n { t with state := state, pc := .idle, read := some k } where
  sound := hserves.sound
  unseeded hnone := hserves.era.trans (h.unseeded hnone)
  recorded k' hk' := by
    obtain ⟨hle, hera, τ, hτ, hlt⟩ := h.recorded k' hk'
    exact ⟨hle, hserves.era.trans hera, τ, hserves.origins.trans hτ, hlt⟩
  read := by
    rintro r ⟨⟩
    exact hk
  pc := trivial

/-- What holds of all threads is kept by a thread of which it holds. -/
lemma Sys.forall_set {P : Thread → Prop} (h : ∀ i, P (s.threads i)) (ht : P t) (i : ι) :
    ∀ i', P ((s.set i t).threads i') :=
  (Function.forall_update_iff s.threads fun _ t => P t).mpr ⟨ht, fun i' _ => h i'⟩

lemma Ok.set (h : Ok s) (ht : ThreadOk s.count t) (i : ι) : Ok (s.set i t) where
  era := h.era
  threads := Sys.forall_set h.threads ht i
  returned := h.returned
  served := h.served

omit [DecidableEq ι] in
lemma ok_start : Ok (Sys.start ι) where
  era := rfl
  threads i := ⟨⟨Nat.zero_le _, fun c hc => by cases hc⟩, fun _ => rfl, by rintro k ⟨⟩, by rintro r ⟨⟩, trivial⟩
  returned := by
    rintro j ⟨⟩
  served := by
    rintro d ⟨⟩

/-! ### Steps -/

/-- What a step can be: where the thread is, and where it goes. -/
inductive Moves (s : Sys ι) (i : ι) : Sys ι → Prop
  | draw (len : ℕ) (hat : (s.threads i).pc = .idle) :
    Moves s i (s.set i { s.threads i with pc := .drawing len s.returned })
  | keep (len : ℕ) (need : List ℕ) (hat : (s.threads i).pc = .drawing len need)
    (hera : (s.threads i).state.pool.era = s.era) :
    Moves s i (s.set i { s.threads i with pc := .serving len need s.count })
  | stale (len : ℕ) (need : List ℕ) (hat : (s.threads i).pc = .drawing len need) :
    Moves s i (s.set i { s.threads i with pc := .seeding len need s.era s.count })
  | key (len : ℕ) (need : List ℕ) (era : UInt32) (k : ℕ) (bytes : Mem UInt8)
    (hat : (s.threads i).pc = .seeding len need era k) :
    Moves s i (s.set i { s.threads i with pc := .seeded len need era k ⟨bytes, s.count⟩ })
  | seed (len : ℕ) (need : List ℕ) (era : UInt32) (k : ℕ) (key : Key)
    (hat : (s.threads i).pc = .seeded len need era k key) :
    Moves s i (s.set i { s.threads i with
      state := { (s.threads i).state with pool := (poolSeed (s.threads i).state.pool era (.ok key)).2 }
      pc := .serving len need k
      recorded := some k })
  | serve (len : ℕ) (need : List ℕ) (k : ℕ) (out : List Cell) (state : State)
    (hat : (s.threads i).pc = .serving len need k)
    (hserve : poolServe (s.threads i).state len = .ok (out, state)) :
    Moves s i ({ s with
      served := ⟨need, (s.threads i).state.pool.chacha.origins, out⟩ :: s.served }.set i
        { s.threads i with state := state, pc := .idle, read := some k })
  | reseed (hat : (s.threads i).pc = .idle) :
    Moves s i (s.set i { s.threads i with pc := .reseeding })
  | era (hat : (s.threads i).pc = .reseeding) :
    Moves s i ({ s with era := s.era + 2, count := s.count + 1 }.set i
      { s.threads i with pc := .fetching (s.era + 2) (s.count + 1) })
  | rekey (era : UInt32) (k : ℕ) (bytes : Mem UInt8) (hat : (s.threads i).pc = .fetching era k) :
    Moves s i (s.set i { s.threads i with pc := .fetched era k ⟨bytes, s.count⟩ })
  | fail (era : UInt32) (k : ℕ) (hat : (s.threads i).pc = .fetching era k) :
    Moves s i (s.set i { s.threads i with pc := .returning k })
  | reseeded (era : UInt32) (k : ℕ) (key : Key) (hat : (s.threads i).pc = .fetched era k key) :
    Moves s i (s.set i { s.threads i with
      state := { (s.threads i).state with pool := (poolSeed (s.threads i).state.pool era (.ok key)).2 }
      pc := .returning k
      recorded := some k })
  | done (k : ℕ) (hat : (s.threads i).pc = .returning k) :
    Moves s i ({ s with returned := k :: s.returned }.set i { s.threads i with pc := .idle })
  | abort : Moves s i { s with aborted := true }

lemma moves_of_goStep (hs : goStep s i = some s') : Moves s i s' := by
  unfold goStep at hs
  dsimp only at hs
  split at hs
  next len need hat =>
    split_ifs at hs with hera <;> cases hs
    · exact .keep len need hat hera
    · exact .stale len need hat
  next len need era k key hat => cases hs; exact .seed len need era k key hat
  next len need k hat =>
    split at hs <;> cases hs
    · exact .abort
    · next out state hserve => exact .serve len need k out state hat hserve
  next hat => cases hs; exact .era hat
  next era k key hat => cases hs; exact .reseeded era k key hat
  next k hat => cases hs; exact .done k hat
  next => cases hs

lemma moves_of_fetchStep {result : Except ℕ+ (Mem UInt8)} (hs : fetchStep s i result = some s') :
    Moves s i s' := by
  unfold fetchStep at hs
  dsimp only at hs
  split at hs
  next => cases hs; exact .abort
  next len need era k bytes hat => cases hs; exact .key len need era k bytes hat
  next era k err hat => cases hs; exact .fail era k hat
  next era k bytes hat => cases hs; exact .rekey era k bytes hat
  next => cases hs

/-- Every step is the move of one thread, and it is a thread on its own that reads the era. -/
lemma moves_of_sysStep (hs : sysStep s a = some s') :
    ∃ i, Moves s i s' ∧ ∀ len need, (s.threads i).pc = .drawing len need → a = .go i := by
  unfold sysStep at hs
  split_ifs at hs
  cases a with
  | draw i len =>
    dsimp only at hs
    split at hs
    next hat =>
      cases hs
      exact ⟨i, .draw len hat, fun _ _ hat' => by rw [hat] at hat'; cases hat'⟩
    next => cases hs
  | reseed i =>
    dsimp only at hs
    split at hs
    next hat =>
      cases hs
      exact ⟨i, .reseed hat, fun _ _ hat' => by rw [hat] at hat'; cases hat'⟩
    next => cases hs
  | fetch i result =>
    refine ⟨i, moves_of_fetchStep hs, fun len need hat => ?_⟩
    simp [fetchStep, hat] at hs
  | go i => exact ⟨i, moves_of_goStep hs, fun _ _ _ => rfl⟩

/-- **Every step keeps the invariant.** -/
lemma ok_step (h : Ok s) (hs : sysStep s a = some s') : Ok s' := by
  obtain ⟨i, hmove, -⟩ := moves_of_sysStep hs
  have ht := h.threads i
  have hpc := ht.pc
  cases hmove with
  | draw len hat => exact h.set (ht.goto (.drawing len s.returned) h.returned) i
  | keep len need hat hera =>
    rw [hat] at hpc
    refine h.set (ht.goto (.serving len need s.count) ⟨le_rfl, hpc, fun hnone => ?_⟩) i
    -- a pool without a key has the era `0`
    rw [ht.unseeded hnone, h.era] at hera
    exact eraOf_ne_zero _ hera.symm
  | stale len need hat =>
    rw [hat] at hpc
    exact h.set (ht.goto (.seeding len need s.era s.count) ⟨h.era, le_rfl, ht.read, hpc⟩) i
  | key len need era k bytes hat =>
    rw [hat] at hpc
    obtain ⟨hera, hk, hread, hneed⟩ := hpc
    exact h.set (ht.goto (.seeded len need era k ⟨bytes, s.count⟩) ⟨hera, hk, hread, hneed, hk⟩) i
  | seed len need era k key hat =>
    rw [hat] at hpc
    obtain ⟨rfl, hk, -, hneed, hkey⟩ := hpc
    exact h.set (ht.seed hk hkey (.serving len need k) ⟨hk, hneed, by rintro ⟨⟩⟩) i
  | serve len need k out state hat hserve =>
    rw [hat] at hpc
    obtain ⟨hk, -, hsome⟩ := hpc
    obtain ⟨out', state', hrun, hserves, -⟩ := poolServe_serves ht.sound len
    cases hserve.symm.trans hrun
    obtain ⟨k', hk'⟩ := Option.ne_none_iff_exists'.mp hsome
    obtain ⟨-, -, τ, hτ, -⟩ := ht.recorded k' hk'
    have hnext : Ok { s with
        served := ⟨need, (s.threads i).state.pool.chacha.origins, out⟩ :: s.served } := by
      refine ⟨h.era, h.threads, h.returned, fun d hd => ?_⟩
      rcases List.mem_cons.mp hd with rfl | hd
      · exact ⟨τ, hτ, fun c hc => hτ ▸ hserves.isFrom c hc⟩
      · exact h.served d hd
    exact hnext.set (ht.serve hserves hk) i
  | reseed hat => exact h.set (ht.goto .reseeding trivial) i
  | era hat =>
    have hnext : Ok { s with era := s.era + 2, count := s.count + 1 } := by
      refine ⟨?_, fun i => (h.threads i).mono (Nat.le_succ _), fun j hj => ?_, h.served⟩
      · change s.era + 2 = eraOf (s.count + 1)
        rw [h.era, eraOf_succ]
      · exact (h.returned j hj).trans (Nat.le_succ _)
    have hti := hnext.threads i
    exact hnext.set (hti.goto (.fetching (s.era + 2) (s.count + 1)) ⟨hnext.era, le_rfl, hti.read⟩) i
  | rekey era k bytes hat =>
    rw [hat] at hpc
    obtain ⟨hera, hk, hread⟩ := hpc
    exact h.set (ht.goto (.fetched era k ⟨bytes, s.count⟩) ⟨hera, hk, hread, hk⟩) i
  | fail era k hat =>
    rw [hat] at hpc
    exact h.set (ht.goto (.returning k) hpc.2.1) i
  | reseeded era k key hat =>
    rw [hat] at hpc
    obtain ⟨rfl, hk, -, hkey⟩ := hpc
    exact h.set (ht.seed hk hkey (.returning k) hk) i
  | done k hat =>
    rw [hat] at hpc
    have hnext : Ok { s with returned := k :: s.returned } := by
      refine ⟨h.era, h.threads, fun j hj => ?_, h.served⟩
      rcases List.mem_cons.mp hj with rfl | hj
      · exact hpc
      · exact h.returned j hj
    exact hnext.set (ht.goto .idle trivial) i
  | abort => exact ⟨h.era, h.threads, h.returned, h.served⟩

/-! ### A thread on its own -/

/-- What `rand_fetch` does when `n` reseeds have begun. -/
def fetchOf (n : ℕ) (result : Except ℕ+ (Mem UInt8)) : Fetch := result.map fun bytes => ⟨bytes, n⟩

/-- The end of a draw. -/
lemma reach_served {s₀ : Sys ι} {len : ℕ} {need : List ℕ} {out : List Cell} {state : State}
    (hr : Reach sysStep anyStep s₀ (s.set i { t with pc := .serving len need k }))
    (hlive : s.aborted = false) (hserve : poolServe t.state len = .ok (out, state)) :
    ∃ s' origins, Reach sysStep anyStep s₀ s' ∧ s'.served = ⟨need, origins, out⟩ :: s.served ∧
      (s'.threads i).state = state ∧ (s'.threads i).pc = .idle := by
  obtain ⟨d, hd⟩ : ∃ d : Served, d = ⟨need, t.state.pool.chacha.origins, out⟩ := ⟨_, rfl⟩
  have hlast : sysStep (s.set i { t with pc := .serving len need k }) (.go i) =
      some ({ s with served := d :: s.served }.set i
        { t with state := state, pc := .idle, read := some k }) := by
    simp [sysStep, goStep, hlive, Sys.set, hserve, hd]
  refine ⟨_, t.state.pool.chacha.origins, hr.tail trivial hlast, ?_, ?_, ?_⟩
  · rw [← hd]
    rfl
  all_goals simp [Sys.set]

/-- **A draw that no other thread interrupts** is `pool_rand`. -/
theorem reach_poolRand {len : ℕ} {result : Except ℕ+ (Mem UInt8)} {out : List Cell} {state : State}
    (hlive : s.aborted = false) (hidle : (s.threads i).pc = .idle)
    (hrun : poolRand (s.threads i).state s.era (fetchOf s.count result) len = .ok (out, state)) :
    ∃ s' origins, Reach sysStep anyStep s s' ∧ s'.served = ⟨s.returned, origins, out⟩ :: s.served ∧
      (s'.threads i).state = state ∧ (s'.threads i).pc = .idle := by
  obtain ⟨t, ht⟩ : ∃ t, t = s.threads i := ⟨_, rfl⟩
  rw [← ht] at hrun hidle
  have h₁ : sysStep s (.draw i len) = some (s.set i { t with pc := .drawing len s.returned }) := by
    simp [sysStep, hlive, ← ht, hidle]
  have hr₁ : Reach sysStep anyStep s _ := Reach.refl.tail trivial h₁
  unfold poolRand at hrun
  by_cases hera : t.state.pool.era = s.era
  · rw [poolSeedIfNeeded_same hera] at hrun
    have h₂ : sysStep (s.set i { t with pc := .drawing len s.returned }) (.go i) =
        some (s.set i { t with pc := .serving len s.returned s.count }) := by
      simp [sysStep, goStep, hlive, Sys.set, hera]
    exact reach_served (hr₁.tail trivial h₂) hlive hrun
  · have h₂ : sysStep (s.set i { t with pc := .drawing len s.returned }) (.go i) =
        some (s.set i { t with pc := .seeding len s.returned s.era s.count }) := by
      simp [sysStep, goStep, hlive, Sys.set, hera]
    cases result with
    | error err =>
      change ((poolSeedIfNeeded t.state.pool s.era (.error err)) >>= _) = _ at hrun
      rw [poolSeedIfNeeded_error hera] at hrun
      cases hrun
    | ok bytes =>
      change ((poolSeedIfNeeded t.state.pool s.era (.ok ⟨bytes, s.count⟩)) >>= _) = _ at hrun
      rw [poolSeedIfNeeded_ok hera] at hrun
      obtain ⟨seeded, hseeded⟩ : ∃ seeded : Thread, seeded = { t with
        state := { t.state with pool := (poolSeed t.state.pool s.era (.ok ⟨bytes, s.count⟩)).2 }
        recorded := some s.count } := ⟨_, rfl⟩
      have h₃ : sysStep (s.set i { t with pc := .seeding len s.returned s.era s.count })
          (.fetch i (.ok bytes)) =
            some (s.set i { t with pc := .seeded len s.returned s.era s.count ⟨bytes, s.count⟩ }) := by
        simp [sysStep, fetchStep, hlive, Sys.set]
      have h₄ : sysStep
          (s.set i { t with pc := .seeded len s.returned s.era s.count ⟨bytes, s.count⟩ }) (.go i) =
            some (s.set i { seeded with pc := .serving len s.returned s.count }) := by
        simp [sysStep, goStep, hlive, Sys.set, hseeded]
      have hserve : poolServe seeded.state len = .ok (out, state) := hseeded ▸ hrun
      exact reach_served (((hr₁.tail trivial h₂).tail trivial h₃).tail trivial h₄) hlive hserve

/-! ### Keys that are new enough -/

/-- The pool records no older era than the one that the last draw read. -/
structure ThreadFresh (t : Thread) : Prop where
  read : ∀ r, t.read = some r → ∃ k, t.recorded = some k ∧ r ≤ k
  serving : ∀ len need k, t.pc = .serving len need k → ∃ k', t.recorded = some k' ∧ k ≤ k'

structure Fresh (s : Sys ι) : Prop where
  threads : ∀ i, ThreadFresh (s.threads i)
  served : ∀ d ∈ s.served, ∀ j ∈ d.need, ∀ τ ∈ d.origins, j ≤ τ

omit [DecidableEq ι] in
lemma fresh_start : Fresh (Sys.start ι) where
  threads i := ⟨by rintro r ⟨⟩, by rintro _ _ _ ⟨⟩⟩
  served := by
    rintro d ⟨⟩

/-- A thread goes somewhere else, not to serve a draw. -/
lemma ThreadFresh.goto (h : ThreadFresh t) (hpc : ∀ len need k, pc ≠ .serving len need k) :
    ThreadFresh { t with pc := pc } := ⟨h.read, fun len need k hat => absurd hat (hpc len need k)⟩

lemma Fresh.set (h : Fresh s) (ht : ThreadFresh t) (i : ι) : Fresh (s.set i t) where
  threads := Sys.forall_set h.threads ht i
  served := h.served

omit [DecidableEq ι] in
/-- **A draw that finds its era unchanged** has a key of that era. -/
lemma recorded_eq_count (h : Ok s) (hf : Fresh s) (hnear : SinceSeed s (.go i)) {len : ℕ}
    {need : List ℕ} (hat : (s.threads i).pc = .drawing len need)
    (hera : (s.threads i).state.pool.era = s.era) : (s.threads i).recorded = some s.count := by
  have ht := h.threads i
  rcases hrec : (s.threads i).recorded with _ | k
  · rw [ht.unseeded hrec, h.era] at hera
    exact absurd hera.symm (eraOf_ne_zero _)
  · obtain ⟨hk, hkera, -⟩ := ht.recorded k hrec
    rw [hkera, h.era] at hera
    have hlt : s.count - k < 2 ^ 31 := by
      rcases hread : (s.threads i).read with _ | r
      · exact hnear.2 i len need rfl hat hread k hrec
      · obtain ⟨k', hk', hr⟩ := (hf.threads i).read r hread
        obtain rfl : k = k' := Option.some.inj (hrec.symm.trans hk')
        have := hnear.1 i len need rfl hat r hread
        omega
    rw [eq_of_eraOf_eq hera hk hlt]

/-- A pool is seeded with a key of an era that no draw came after. -/
lemma fresh_seed {state : State} (h : ∀ r, t.read = some r → r ≤ k)
    (hpc : ∀ len need k', pc = .serving len need k' → k' ≤ k) :
    ThreadFresh { t with state := state, pc := pc, recorded := some k } :=
  ⟨fun r hr => ⟨k, rfl, h r hr⟩, fun len need k' hat => ⟨k, rfl, hpc len need k' hat⟩⟩

/-- **Every step keeps keys new enough**, if draws are not too far apart. -/
lemma fresh_step (h : Ok s) (hf : Fresh s) (hnear : SinceSeed s a) (hs : sysStep s a = some s') :
    Fresh s' := by
  obtain ⟨i, hmove, hgo⟩ := moves_of_sysStep hs
  have ht := h.threads i
  have hpc := ht.pc
  have hfi := hf.threads i
  cases hmove with
  | keep len need hat hera =>
    rw [hgo len need hat] at hnear
    have hrec := recorded_eq_count h hf hnear hat hera
    have hnext : ThreadFresh { s.threads i with pc := .serving len need s.count } := by
      refine ⟨hfi.read, ?_⟩
      rintro _ _ _ ⟨⟩
      exact ⟨s.count, hrec, le_rfl⟩
    exact hf.set hnext i
  | seed len need era k key hat =>
    rw [hat] at hpc
    refine hf.set (fresh_seed hpc.2.2.1 ?_) i
    rintro _ _ _ ⟨⟩
    exact le_rfl
  | serve len need k out state hat hserve =>
    rw [hat] at hpc
    obtain ⟨k', hk', hle⟩ := hfi.serving len need k hat
    obtain ⟨-, -, τ, hτ, hkτ⟩ := ht.recorded k' hk'
    have hnext : Fresh { s with
        served := ⟨need, (s.threads i).state.pool.chacha.origins, out⟩ :: s.served } := by
      refine ⟨hf.threads, fun d hd => ?_⟩
      rcases List.mem_cons.mp hd with rfl | hd
      · intro j hj τ' hτ'
        rw [hτ, Finset.mem_singleton] at hτ'
        subst hτ'
        exact ((hpc.2.1 j hj).trans hle).trans hkτ
      · exact hf.served d hd
    refine hnext.set ⟨?_, by rintro _ _ _ ⟨⟩⟩ i
    rintro r ⟨⟩
    exact ⟨k', hk', hle⟩
  | reseeded era k key hat =>
    rw [hat] at hpc
    exact hf.set (fresh_seed hpc.2.2.1 (by rintro _ _ _ ⟨⟩)) i
  | era hat =>
    have hnext : Fresh { s with era := s.era + 2, count := s.count + 1 } := ⟨hf.threads, hf.served⟩
    exact hnext.set (hfi.goto (by rintro _ _ _ ⟨⟩)) i
  | done k hat =>
    have hnext : Fresh { s with returned := k :: s.returned } := ⟨hf.threads, hf.served⟩
    exact hnext.set (hfi.goto (by rintro _ _ _ ⟨⟩)) i
  | abort => exact ⟨hf.threads, hf.served⟩
  | draw | stale | key | reseed | rekey | fail =>
    exact hf.set (hfi.goto (by rintro _ _ _ ⟨⟩)) i

/-- **Reseeds reach every thread.**  No draw is served from a pool that was never seeded, and a draw is
served from a key that was fetched after each reseed that had returned when the draw started, if it
comes less than `2 ^ 31` reseeds after the thread's last draw, or, when it is the first, after the
thread's own last reseed. -/
theorem reseed_reaches :
    (∀ s : Sys ι, Reach sysStep anyStep (.start ι) s →
      ∀ d ∈ s.served, ∃ τ, d.origins = {τ} ∧ ∀ c ∈ d.out, c.IsFrom {τ}) ∧
    ∀ s : Sys ι, Reach sysStep SinceSeed (.start ι) s →
      ∀ d ∈ s.served, ∀ j ∈ d.need, ∀ τ ∈ d.origins, j ≤ τ := by
  constructor
  · intro s hr
    exact (hr.invariant ok_start fun _ _ _ h _ hs => ok_step h hs).served
  · intro s hr
    have hinv : Ok s ∧ Fresh s :=
      hr.invariant (I := fun s => Ok s ∧ Fresh s) ⟨ok_start, fresh_start⟩
        fun _ _ _ h hnear hs => ⟨ok_step h.1 hs, fresh_step h.1 h.2 hnear hs⟩
    exact hinv.2.served

/-! ### A first draw that comes too late -/

omit [DecidableEq ι] in
lemma sinceDraw_of_unread (h : ∀ i, (s.threads i).read = none) (a : Act ι) : SinceDraw s a := by
  intro i len need _ _ r hr
  rw [h i] at hr
  cases hr

/-- The system once a reseed has failed. -/
def reseeded (s : Sys ι) : Sys ι :=
  { s with era := s.era + 2, count := s.count + 1, returned := (s.count + 1) :: s.returned }

/-- No thread has drawn yet. -/
def Unread (s : Sys ι) : Prop := ∀ i, (s.threads i).read = none

lemma Unread.set (h : Unread s) (ht : t.read = none) (i : ι) : Unread (s.set i t) :=
  Sys.forall_set (P := fun t => t.read = none) h ht i

/-- A thread whose reseed fails is where it was. -/
lemma reach_reseeded (hidle : (s.threads i).pc = .idle) (hlive : s.aborted = false)
    (hread : Unread s) : Reach sysStep SinceDraw s (reseeded s) := by
  obtain ⟨t, ht⟩ : ∃ t, t = s.threads i := ⟨_, rfl⟩
  have htread : t.read = none := ht ▸ hread i
  have hback : { t with pc := .idle } = s.threads i := by rw [← hidle, ht]
  obtain ⟨s₂, hs₂⟩ : ∃ s₂ : Sys ι, s₂ = { s with era := s.era + 2, count := s.count + 1 } :=
    ⟨_, rfl⟩
  have hread₂ : Unread s₂ := hs₂ ▸ hread
  have h₁ : sysStep s (.reseed i) = some (s.set i { t with pc := .reseeding }) := by
    simp [sysStep, hlive, hidle, ht]
  have h₂ : sysStep (s.set i { t with pc := .reseeding }) (.go i) =
      some (s₂.set i { t with pc := .fetching s₂.era s₂.count }) := by
    simp [sysStep, goStep, hlive, Sys.set, hs₂]
  have h₃ : sysStep (s₂.set i { t with pc := .fetching s₂.era s₂.count }) (.fetch i (.error 1)) =
      some (s₂.set i { t with pc := .returning s₂.count }) := by
    simp [sysStep, fetchStep, hlive, Sys.set, hs₂]
  have h₄ : sysStep (s₂.set i { t with pc := .returning s₂.count }) (.go i) = some (reseeded s) := by
    simp [sysStep, goStep, hlive, Sys.set, hs₂, hback, reseeded]
  have hset : ∀ pc : Pc, Unread (s.set i { t with pc := pc }) := fun pc =>
    hread.set (t := { t with pc := pc }) htread i
  have hset₂ : ∀ pc : Pc, Unread (s₂.set i { t with pc := pc }) := fun pc =>
    hread₂.set (t := { t with pc := pc }) htread i
  exact (((Reach.refl.tail (sinceDraw_of_unread hread _) h₁).tail
    (sinceDraw_of_unread (hset _) _) h₂).tail (sinceDraw_of_unread (hset₂ _) _) h₃).tail
    (sinceDraw_of_unread (hset₂ _) _) h₄

/-- Any number of reseeds may fail. -/
lemma reach_reseeded_iterate (hidle : (s.threads i).pc = .idle) (hlive : s.aborted = false)
    (hread : Unread s) (m : ℕ) :
    ∃ s', Reach sysStep SinceDraw s s' ∧ s'.threads = s.threads ∧ s'.aborted = false ∧
      s'.count = s.count + m ∧ s'.served = s.served ∧ (0 < m → s'.count ∈ s'.returned) := by
  induction m with
  | zero => exact ⟨s, .refl, rfl, hlive, rfl, rfl, fun h => absurd h (lt_irrefl _)⟩
  | succ m ih =>
    obtain ⟨s', hr, hthreads, hlive', hcount, hserved, -⟩ := ih
    have hread' : Unread s' := by
      intro i'
      rw [hthreads]
      exact hread i'
    rw [← hthreads] at hidle
    refine ⟨reseeded s', hr.trans (reach_reseeded hidle hlive' hread'), hthreads, hlive', ?_, hserved,
      fun _ => List.mem_cons_self⟩
    change s'.count + 1 = _
    rw [hcount, Nat.add_assoc]

/-- A thread that has reseeded its pool, as the only one so far. -/
def reseededThread : Thread :=
  ⟨{ zeroPool with pool := (poolReseed zeroPool.pool (eraOf 1) (.ok ⟨fun _ => 0, 1⟩)).2 }, .idle, none,
    some 1⟩

lemma reach_reseededThread :
    ∃ s : Sys Bool, Reach sysStep SinceDraw (.start Bool) s ∧ s.threads false = reseededThread ∧
      s.threads true = ⟨zeroPool, .idle, none, none⟩ ∧ s.aborted = false ∧ s.count = 1 ∧
      s.served = [] := by
  obtain ⟨s₂, hs₂⟩ : ∃ s₂ : Sys Bool, s₂ = { Sys.start Bool with era := eraOf 0 + 2, count := 1 } :=
    ⟨_, rfl⟩
  have hstart : Unread (Sys.start Bool) := fun _ => rfl
  have hread₂ : Unread s₂ := hs₂ ▸ hstart
  have hset : ∀ pc : Pc, Unread ((Sys.start Bool).set false ⟨zeroPool, pc, none, none⟩) :=
    fun pc => hstart.set rfl false
  have hset₂ : ∀ pc : Pc, Unread (s₂.set false ⟨zeroPool, pc, none, none⟩) :=
    fun pc => hread₂.set rfl false
  have h₁ : sysStep (.start Bool) (.reseed false) =
      some ((Sys.start Bool).set false ⟨zeroPool, .reseeding, none, none⟩) := rfl
  have h₂ : sysStep ((Sys.start Bool).set false ⟨zeroPool, .reseeding, none, none⟩) (.go false) =
      some (s₂.set false ⟨zeroPool, .fetching (eraOf 0 + 2) 1, none, none⟩) := by
    simp [sysStep, goStep, Sys.set, Sys.start, hs₂]
  have h₃ : sysStep (s₂.set false ⟨zeroPool, .fetching (eraOf 0 + 2) 1, none, none⟩)
      (.fetch false (.ok fun _ => 0)) =
        some (s₂.set false ⟨zeroPool, .fetched (eraOf 0 + 2) 1 ⟨fun _ => 0, 1⟩, none, none⟩) := by
    simp [sysStep, fetchStep, Sys.set, Sys.start, hs₂]
  have h₄ : sysStep (s₂.set false ⟨zeroPool, .fetched (eraOf 0 + 2) 1 ⟨fun _ => 0, 1⟩, none, none⟩)
      (.go false) = some (s₂.set false { reseededThread with pc := .returning 1 }) := by
    simp [sysStep, goStep, Sys.set, Sys.start, hs₂, reseededThread, eraOf_succ]
  have h₅ : sysStep (s₂.set false { reseededThread with pc := .returning 1 }) (.go false) =
      some ({ s₂ with returned := [1] }.set false reseededThread) := by
    simp [sysStep, goStep, Sys.set, Sys.start, hs₂, reseededThread]
  have hlast : Unread (s₂.set false { reseededThread with pc := .returning 1 }) := hread₂.set rfl false
  refine ⟨_, ((((Reach.refl.tail (sinceDraw_of_unread hstart _) h₁).tail
    (sinceDraw_of_unread (hset _) _) h₂).tail (sinceDraw_of_unread (hset₂ _) _) h₃).tail
    (sinceDraw_of_unread (hset₂ _) _) h₄).tail (sinceDraw_of_unread hlast _) h₅, rfl, ?_, ?_, ?_, ?_⟩
  all_goals
    subst hs₂
    rfl

/-- **A first draw after `2 ^ 31` reseeds** of another thread is served from a key that was fetched
before them. -/
theorem firstDraw_stale :
    ¬ ∀ s : Sys Bool, Reach sysStep SinceDraw (.start Bool) s →
      ∀ d ∈ s.served, ∀ j ∈ d.need, ∀ τ ∈ d.origins, j ≤ τ := by
  intro h
  obtain ⟨s₁, hr₁, hfalse₁, htrue₁, hlive₁, hcount₁, hserved₁⟩ := reach_reseededThread
  have hread₁ : Unread s₁ := by
    rintro (_ | _)
    · rw [hfalse₁]
      rfl
    · rw [htrue₁]
  obtain ⟨s, hr, hthreads, hlive, hcount, hserved, hreturned⟩ :=
    reach_reseeded_iterate (i := true) (by rw [htrue₁]) hlive₁ hread₁ (2 ^ 31)
  have hread : Unread s := by
    intro i
    rw [hthreads]
    exact hread₁ i
  have hreach := hr₁.trans hr
  have hok : Ok s := hreach.invariant ok_start fun _ _ _ h _ hs => ok_step h hs
  obtain ⟨t, ht⟩ : ∃ t, t = reseededThread := ⟨_, rfl⟩
  have hthread : s.threads false = t := by rw [hthreads, hfalse₁, ht]
  have hera : t.state.pool.era = s.era := by
    rw [hok.era, hcount, hcount₁, ht]
    refine UInt32.toNat_inj.mp ?_
    change (eraOf 1).toNat = _
    rw [toNat_eraOf, toNat_eraOf]
    rfl
  have hsound : t.state.pool.Sound := hthread ▸ (hok.threads false).sound
  obtain ⟨out, state, hrun, -, -⟩ := poolServe_serves hsound 1
  have h₁ : sysStep s (.draw false 1) = some (s.set false { t with pc := .drawing 1 s.returned }) := by
    simp [sysStep, hlive, hthread, ht, reseededThread]
  have h₂ : sysStep (s.set false { t with pc := .drawing 1 s.returned }) (.go false) =
      some (s.set false { t with pc := .serving 1 s.returned s.count }) := by
    simp [sysStep, goStep, hlive, Sys.set, hera]
  obtain ⟨d, hd⟩ : ∃ d : Served, d = ⟨s.returned, t.state.pool.chacha.origins, out⟩ := ⟨_, rfl⟩
  have h₃ : sysStep (s.set false { t with pc := .serving 1 s.returned s.count }) (.go false) =
      some ({ s with served := d :: s.served }.set false
        { t with state := state, pc := .idle, read := some s.count }) := by
    simp [sysStep, goStep, hlive, Sys.set, hrun, hd]
  have hset : ∀ pc : Pc, Unread (s.set false { t with pc := pc }) := fun pc =>
    hread.set (t := { t with pc := pc }) (by rw [ht]; rfl) false
  have hlate := h _ (((hreach.tail (sinceDraw_of_unread hread _) h₁).tail
    (sinceDraw_of_unread (hset _) _) h₂).tail (sinceDraw_of_unread (hset _) _) h₃) d
    List.mem_cons_self s.count (hd ▸ hreturned (by omega)) 1
  have horigin : 1 ∈ d.origins := by
    have hone : t.state.pool.chacha.origins = {1} := by
      rw [ht]
      exact origins_chachaInit fun i _ => rfl
    rw [hd]
    exact hone ▸ Finset.mem_singleton_self 1
  have := hlate horigin
  omega

end Futils.Random
