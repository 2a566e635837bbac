import Futils.Dynmbox.Shared

/-!
# The calls of any number of threads as those of one

Every answer is fixed under the lock.  In the order in which they are, the calls that did not time out are what
one thread alone could call, with the same answers, and the ring holds what it would then hold.
-/

namespace Futils.Dynmbox.Shared

open Futils.Lib

/-! ### Where the threads are -/

def Pc.holds : Pc → Bool
  | pushLocked _ | enqueued | peekLocked _ _ | popping _ _ | dequeuing _ _ | signalling _ | unlocking _ => true
  | _ => false

def Pc.waits : Pc → Bool
  | blocked _ => true
  | _ => false

/-- Between the test for emptiness and `do_peek`. -/
def Pc.found : Pc → Bool
  | popping _ _ | dequeuing _ _ => true
  | _ => false

attribute [local simp] Pc.holds Pc.waits Pc.found Pc.pending Pc.fixed

/-- What is known of the place of a thread. -/
def Pc.Ok (maxMsgSize : ℕ) (q : List Msg) : Pc → Prop
  | pushLocking call | pushLocked call => Legal maxMsgSize call.msg call.msgSize
  | blocked call => Legal maxMsgSize call.msg call.msgSize ∧ call.block = true
  | woken call res =>
    Legal maxMsgSize call.msg call.msgSize ∧ call.block = true ∧
      (res = 0 ∨ res = -ETIMEDOUT ∧ call.timed = true)
  | popping _ _ | dequeuing _ _ => q ≠ []
  | _ => True

/-- An answer that is not one of the queue is that of a wait that timed out, and one that waits is never told
that there is no room. -/
def Answer.Ok (e : Answer) : Prop :=
  match e.req with
  | .push call =>
    (e.res.ret = -ETIMEDOUT → call.block = true ∧ call.timed = true) ∧
      (call.block = true → e.res.ret ≠ -EAGAIN)
  | .peek _ _ => e.res.ret ≠ -ETIMEDOUT

variable {ι : Type} [DecidableEq ι]

/-- Of the places, only those at which the lock is held depend on the queue. -/
lemma Pc.Ok.of_not_holds {maxMsgSize : ℕ} {q q' : List Msg} {pc : Pc} (h : pc.Ok maxMsgSize q) (hpc : pc.holds = false) : pc.Ok maxMsgSize q' := by
  cases pc with
  | popping hdr₀ msg => simp at hpc
  | dequeuing hdr₀ msg => simp at hpc
  | _ => exact h

/-! ### What a step does -/

/-- The places between which a thread takes the lock. -/
inductive Locks : Pc → Pc → Prop
  | push {call} : Locks (.pushLocking call) (.pushLocked call)
  | again {call} : Locks (.woken call 0) (.pushLocked call)
  | peek {hdr₀ msg} : Locks (.peekLocking hdr₀ msg) (.peekLocked hdr₀ msg)

/-- Where a call starts that is not refused. -/
inductive Starts (maxMsgSize : ℕ) : Request → Pc → Prop
  | push {call} : Legal maxMsgSize call.msg call.msgSize → Starts maxMsgSize (.push call) (.pushLocking call)
  | peek {hdr₀ msg} : Starts maxMsgSize (.peek hdr₀ (some msg)) (.peekLocking hdr₀ msg)

/-- All that a step can do, and the queue after it. -/
inductive Does (pipeCap : Option ℕ) (maxMsgSize : ℕ) (s : Sys ι) (q : List Msg) :
    Act ι → Sys ι → List Msg → Prop
  | refused {i req res} : s.threads.pc i = .idle → absStep maxMsgSize q req.call = (q, res) →
      res.ret = -EINVAL →
      Does pipeCap maxMsgSize s q (.call i req)
        (({ s with called := s.called ++ [(i, req)] }.fix i req res).finish i res) q
  | starts {i req pc} : s.threads.pc i = .idle → Starts maxMsgSize req pc →
      Does pipeCap maxMsgSize s q (.call i req) ({ s with called := s.called ++ [(i, req)] }.goto i pc) q
  | locks {i pc} : s.threads.lock = none → Locks (s.threads.pc i) pc →
      Does pipeCap maxMsgSize s q (.go i) { s with threads := s.threads.acquire i pc } q
  | expires {i call res} : s.threads.lock = none → s.threads.pc i = .woken call res → res ≠ 0 →
      Does pipeCap maxMsgSize s q (.go i)
        { s.fix i (.push call) (.pushed res) with
          threads := s.threads.acquire i (.unlocking (.pushed res)) } q
  | awaits {i call} : s.threads.pc i = .pushLocked call → call.block = true →
      ALLOCATED_LEN < BoundedFifo.weight cost q + (HDR_LEN + call.msgSize) →
      Does pipeCap maxMsgSize s q (.go i) { s with threads := s.threads.await i (.blocked call) } q
  | enqueues {i call box} : s.threads.pc i = .pushLocked call →
      BoundedFifo.weight cost q + (HDR_LEN + call.msgSize) ≤ ALLOCATED_LEN →
      Represents box (q ++ [msgOf call.msg call.msgSize]) → box.maxMsgSize = maxMsgSize →
      Does pipeCap maxMsgSize s q (.go i)
        (({ s with box := box }.fix i (.push call) (.pushed 0)).goto i .enqueued)
        (q ++ [msgOf call.msg call.msgSize])
  | full {i call} : s.threads.pc i = .pushLocked call → call.block = false →
      ALLOCATED_LEN < BoundedFifo.weight cost q + (HDR_LEN + call.msgSize) →
      Does pipeCap maxMsgSize s q (.go i)
        ((s.fix i (.push call) (.pushed (-EAGAIN))).goto i (.unlocking (.pushed (-EAGAIN)))) q
  | unlocks {i} : s.threads.pc i = .enqueued →
      Does pipeCap maxMsgSize s q (.go i) { s with threads := s.threads.release i .notifying } q
  | notifies {i} : s.threads.pc i = .notifying →
      Does pipeCap maxMsgSize s q (.go i) ({ s with pipe := s.pipe + 1 }.finish i (.pushed 0)) q
  | loses {i n} : s.threads.pc i = .notifying → pipeCap = some n → n ≤ s.pipe →
      Does pipeCap maxMsgSize s q (.go i) (s.finish i (.pushed 0)) q
  | empty {i hdr₀ msg} : s.threads.pc i = .peekLocked hdr₀ msg → q = [] →
      Does pipeCap maxMsgSize s q (.go i)
        ((s.fix i (.peek hdr₀ (some msg)) (.peeked (-EAGAIN) (some msg))).goto i
          (.unlocking (.peeked (-EAGAIN) (some msg)))) q
  | finds {i hdr₀ msg} : s.threads.pc i = .peekLocked hdr₀ msg → q ≠ [] →
      Does pipeCap maxMsgSize s q (.go i) (s.goto i (.popping hdr₀ msg)) q
  | pops {i hdr₀ msg} : s.threads.pc i = .popping hdr₀ msg →
      Does pipeCap maxMsgSize s q (.go i) ({ s with pipe := s.pipe - 1 }.goto i (.dequeuing hdr₀ msg)) q
  | dequeues {i hdr₀ msg m q' box} : s.threads.pc i = .dequeuing hdr₀ msg → q = m :: q' →
      Represents box q' → box.maxMsgSize = maxMsgSize →
      Does pipeCap maxMsgSize s q (.go i)
        (({ s with box := box }.fix i (.peek hdr₀ (some msg)) (.peeked m.length (some (msg.store 0 m)))).goto i
          (.signalling (.peeked m.length (some (msg.store 0 m))))) q'
  | signalsNone {i res} : s.threads.pc i = .signalling res → s.threads.waiters = [] →
      Does pipeCap maxMsgSize s q (.signal i none) (s.goto i (.unlocking res)) q
  | signals {i j res call} : s.threads.pc i = .signalling res → s.threads.pc j = .blocked call →
      Does pipeCap maxMsgSize s q (.signal i (some j))
        ({ s with threads := s.threads.leave j (.woken call 0) }.goto i (.unlocking res)) q
  | returns {i res} : s.threads.pc i = .unlocking res →
      Does pipeCap maxMsgSize s q (.go i) { s.finish i res with threads := s.threads.release i .idle } q
  | timesOut {i call} : s.threads.pc i = .blocked call → call.timed = true →
      Does pipeCap maxMsgSize s q (.timeout i)
        { s with threads := s.threads.leave i (.woken call (-ETIMEDOUT)) } q
  | misses {i call} : s.threads.pc i = .woken call 0 → call.timed = true →
      Does pipeCap maxMsgSize s q (.late i) (s.goto i (.woken call (-ETIMEDOUT))) q
  | wakes {i call} : s.threads.pc i = .blocked call →
      Does pipeCap maxMsgSize s q (.spurious i) { s with threads := s.threads.leave i (.woken call 0) } q

/-- **The invariant of the threads**, for the queue that the ring represents. -/
structure Inv (maxMsgSize : ℕ) (s : Sys ι) (q : List Msg) : Prop where
  represents : Represents s.box q
  size : s.box.maxMsgSize = maxMsgSize
  sound : s.threads.Sound Pc.holds Pc.waits
  ok : ∀ i, (s.threads.pc i).Ok maxMsgSize q

variable {pipeCap : Option ℕ} {maxMsgSize : ℕ} {s s' : Sys ι} {q q' : List Msg} {a : Act ι} {i j : ι}

omit [DecidableEq ι] in
lemma inv_start {calloc : Bool} {malloc : Option (Mem UInt8)} {initNotifyChannel : ℤ} {box : DynMbox}
    (hnew : dynmboxNew maxMsgSize calloc malloc initNotifyChannel = some box) :
    Inv maxMsgSize (.start ι box) [] := by
  obtain ⟨hbox, hmax⟩ := represents_new hnew
  exact ⟨hbox, hmax, Monitor.sound_start rfl rfl, fun _ => trivial⟩

/-! #### The calls -/

lemma does_call {req : Request} (h : Inv maxMsgSize s q) (hpc : s.threads.pc i = .idle) :
    Does pipeCap maxMsgSize s q (.call i req) (callStep s i req) q := by
  cases req with
  | push call =>
    have hbad : badMsg s.box call.msg call.msgSize = true ↔ ¬ Legal maxMsgSize call.msg call.msgSize := by
      rw [← h.size]
      exact badMsg_iff call.msg call.msgSize
    unfold callStep
    dsimp only
    split_ifs with hcall
    · refine .refused hpc ?_ rfl
      unfold absStep Request.call
      exact if_neg (hbad.mp hcall)
    · exact .starts hpc (.push (not_not.mp (mt hbad.mpr hcall)))
  | peek hdr₀ msg =>
    cases msg with
    | none => exact .refused hpc rfl rfl
    | some msg => exact .starts hpc .peek

lemma rbufSpaceLeft_lt_iff {box : DynMbox} (h : Represents box q) (n : ℕ) :
    rbufSpaceLeft box < n + HDR_LEN ↔ ALLOCATED_LEN < BoundedFifo.weight cost q + (HDR_LEN + n) := by
  have hused := h.used_eq
  have hle := h.holds.used_le
  unfold rbufSpaceLeft
  omega

/-- The test for the free space, and `do_push`. -/
lemma does_pushLocked {call : PushCall} (h : Inv maxMsgSize s q) (hpc : s.threads.pc i = .pushLocked call) :
    ∃ s' q', goStep pipeCap s i = some s' ∧ Does pipeCap maxMsgSize s q (.go i) s' q' := by
  have hlegal := h.ok i
  rw [hpc] at hlegal
  have hleft := rbufSpaceLeft_lt_iff h.represents call.msgSize
  unfold goStep
  simp only [hpc]
  by_cases hroom : BoundedFifo.weight cost q + (HDR_LEN + call.msgSize) ≤ ALLOCATED_LEN
  · obtain ⟨box, hpush, hbox, hmax⟩ := doPush_of_room h.represents (call.msg.getD fun _ => 0)
      (h.size ▸ hlegal.1) hroom
    rw [if_neg fun hwait => (not_lt.mpr hroom) (hleft.mp hwait.2), hpush]
    exact ⟨_, _, rfl, .enqueues hpc hroom hbox (hmax.trans h.size)⟩
  · rw [not_le] at hroom
    cases hblock : call.block with
    | true =>
      rw [if_pos ⟨rfl, hleft.mpr hroom⟩]
      exact ⟨_, _, rfl, .awaits hpc hblock hroom⟩
    | false =>
      rw [if_neg nofun, doPush_of_full h.represents _ hroom]
      exact ⟨_, _, rfl, .full hpc hblock hroom⟩

/-- The test for emptiness. -/
lemma does_peekLocked {hdr₀ msg : Mem UInt8} (h : Inv maxMsgSize s q)
    (hpc : s.threads.pc i = .peekLocked hdr₀ msg) :
    ∃ s' q', goStep pipeCap s i = some s' ∧ Does pipeCap maxMsgSize s q (.go i) s' q' := by
  have hempty := h.represents.rbufIsEmpty_iff
  unfold goStep
  simp only [hpc]
  split_ifs with he
  · exact ⟨_, _, rfl, .empty hpc (hempty.mp he)⟩
  · exact ⟨_, _, rfl, .finds hpc (mt hempty.mpr he)⟩

/-- `do_peek`, which finds a message. -/
lemma does_dequeuing {hdr₀ msg : Mem UInt8} (h : Inv maxMsgSize s q)
    (hpc : s.threads.pc i = .dequeuing hdr₀ msg) :
    ∃ s' q', goStep pipeCap s i = some s' ∧ Does pipeCap maxMsgSize s q (.go i) s' q' := by
  have hfound := h.ok i
  rw [hpc] at hfound
  obtain ⟨m, q', rfl⟩ := List.exists_cons_of_ne_nil hfound
  obtain ⟨box, hpeek, hbox, hmax⟩ := doPeek_of_cons h.represents hdr₀ msg
  unfold goStep
  simp only [hpc, hpeek]
  rw [if_neg (by omega)]
  exact ⟨_, _, rfl, .dequeues hpc rfl hbox (hmax.trans h.size)⟩

/-- The notification, which a full pipe refuses. -/
lemma does_notifying (hpc : s.threads.pc i = .notifying) :
    ∃ s' q', goStep pipeCap s i = some s' ∧ Does pipeCap maxMsgSize s q (.go i) s' q' := by
  unfold goStep
  simp only [hpc]
  cases pipeCap with
  | none => exact ⟨_, _, rfl, .notifies hpc⟩
  | some n =>
    dsimp only
    split_ifs with hroom
    · exact ⟨_, _, rfl, .notifies hpc⟩
    · exact ⟨_, _, rfl, .loses hpc rfl (not_lt.mp hroom)⟩

/-- A thread that needs the lock to go on. -/
def Pc.needsLock : Pc → Bool
  | pushLocking _ | woken _ _ | peekLocking _ _ => true
  | _ => false

/-- **A thread goes on** unless it is outside of the functions, it waits, it is to signal, or the lock that it
needs is taken: no assertion fails. -/
lemma does_go (pipeCap : Option ℕ) (h : Inv maxMsgSize s q) (hidle : s.threads.pc i ≠ .idle)
    (hwaits : (s.threads.pc i).waits = false) (hsignal : ∀ res, s.threads.pc i ≠ .signalling res)
    (hfree : (s.threads.pc i).needsLock = true → s.threads.lock = none) :
    ∃ s' q', goStep pipeCap s i = some s' ∧ Does pipeCap maxMsgSize s q (.go i) s' q' := by
  cases hpc : s.threads.pc i with
  | idle => exact absurd hpc hidle
  | blocked call => simp [hpc] at hwaits
  | signalling res => exact absurd hpc (hsignal res)
  | pushLocked call => exact does_pushLocked h hpc
  | peekLocked hdr₀ msg => exact does_peekLocked h hpc
  | dequeuing hdr₀ msg => exact does_dequeuing h hpc
  | notifying => exact does_notifying hpc
  | pushLocking call =>
    have hlock := hfree (by rw [hpc]; rfl)
    refine ⟨_, _, ?_, .locks hlock (by rw [hpc]; exact .push)⟩
    unfold goStep
    simp only [hpc, if_pos hlock]
  | peekLocking hdr₀ msg =>
    have hlock := hfree (by rw [hpc]; rfl)
    refine ⟨_, _, ?_, .locks hlock (by rw [hpc]; exact .peek)⟩
    unfold goStep
    simp only [hpc, if_pos hlock]
  | woken call res =>
    have hlock := hfree (by rw [hpc]; rfl)
    by_cases hres : res = 0
    · subst hres
      refine ⟨_, _, ?_, .locks hlock (by rw [hpc]; exact .again)⟩
      unfold goStep
      simp only [hpc, if_pos hlock, if_true]
    · refine ⟨_, _, ?_, .expires hlock hpc hres⟩
      unfold goStep
      simp only [hpc, if_pos hlock, if_neg hres]
      rfl
  | enqueued =>
    refine ⟨_, _, ?_, .unlocks hpc⟩
    unfold goStep
    simp only [hpc]
  | popping hdr₀ msg =>
    refine ⟨_, _, ?_, .pops hpc⟩
    unfold goStep
    simp only [hpc]
  | unlocking res =>
    refine ⟨_, _, ?_, .returns hpc⟩
    unfold goStep
    simp only [hpc]

lemma does_of_go (h : Inv maxMsgSize s q) (hs : goStep pipeCap s i = some s') :
    ∃ q', Does pipeCap maxMsgSize s q (.go i) s' q' := by
  have hcan : s.threads.pc i ≠ .idle ∧ (s.threads.pc i).waits = false ∧
      (∀ res, s.threads.pc i ≠ .signalling res) ∧
      ((s.threads.pc i).needsLock = true → s.threads.lock = none) := by
    unfold goStep at hs
    cases hpc : s.threads.pc i with
    | idle => simp [hpc] at hs
    | blocked call => simp [hpc] at hs
    | signalling res => simp [hpc] at hs
    | pushLocking call =>
      simp only [hpc] at hs
      split_ifs at hs with hlock
      exact ⟨nofun, rfl, nofun, fun _ => hlock⟩
    | peekLocking hdr₀ msg =>
      simp only [hpc] at hs
      split_ifs at hs with hlock
      exact ⟨nofun, rfl, nofun, fun _ => hlock⟩
    | woken call res =>
      simp only [hpc] at hs
      split_ifs at hs with hlock
      · exact ⟨nofun, rfl, nofun, fun _ => hlock⟩
      · exact ⟨nofun, rfl, nofun, fun _ => hlock⟩
    | _ => exact ⟨nofun, rfl, nofun, nofun⟩
  obtain ⟨hidle, hwaits, hsignal, hfree⟩ := hcan
  obtain ⟨s₁, q', hgo, hdoes⟩ := does_go pipeCap h hidle hwaits hsignal hfree
  obtain rfl := Option.some.inj (hs.symm.trans hgo)
  exact ⟨q', hdoes⟩

lemma does_signal {woken : Option ι} (hs : signalStep s i woken = some s') :
    Does pipeCap maxMsgSize s q (.signal i woken) s' q := by
  unfold signalStep at hs
  split at hs
  · split_ifs at hs with hnone
    obtain rfl := Option.some.inj hs
    exact .signalsNone ‹_› hnone
  · split at hs
    · obtain rfl := Option.some.inj hs
      exact .signals ‹_› ‹_›
    · cases hs
  · cases hs

/-- **What a step does.** -/
theorem does_of_step (h : Inv maxMsgSize s q) (hs : step pipeCap s a = some s') :
    ∃ q', Does pipeCap maxMsgSize s q a s' q' := by
  cases a with
  | go i => exact does_of_go h hs
  | signal i woken => exact ⟨q, does_signal hs⟩
  | call i req =>
    unfold step at hs
    dsimp only at hs
    split at hs
    · obtain rfl := Option.some.inj hs
      exact ⟨q, does_call h ‹_›⟩
    · cases hs
  | timeout i =>
    unfold step at hs
    dsimp only at hs
    split at hs
    · split_ifs at hs with htimed
      obtain rfl := Option.some.inj hs
      exact ⟨q, .timesOut ‹_› htimed⟩
    · cases hs
  | late i =>
    unfold step at hs
    dsimp only at hs
    split at hs
    · split_ifs at hs with hlate
      obtain rfl := Option.some.inj hs
      obtain ⟨htimed, rfl⟩ := hlate
      exact ⟨q, .misses ‹_› htimed⟩
    · cases hs
  | spurious i =>
    unfold step at hs
    dsimp only at hs
    split at hs
    · obtain rfl := Option.some.inj hs
      exact ⟨q, .wakes ‹_›⟩
    · cases hs

/-! ### The invariant -/

omit [DecidableEq ι] in
/-- The threads move, and the ring stays as it is. -/
lemma Inv.moves {threads : Monitor ι Pc} {pipe : ℕ} {called : List (ι × Request)} {log : List (ι × Answer)}
    {returned : List (ι × Res)} (h : Inv maxMsgSize s q) (hsound : threads.Sound Pc.holds Pc.waits)
    (hok : ∀ j, (threads.pc j).Ok maxMsgSize q) :
    Inv maxMsgSize ⟨s.box, pipe, threads, called, log, returned⟩ q := ⟨h.represents, h.size, hsound, hok⟩

lemma Inv.ok_goto {pc : Pc} (h : Inv maxMsgSize s q) (hok : pc.Ok maxMsgSize q) (j : ι) :
    ((s.threads.goto i pc).pc j).Ok maxMsgSize q :=
  Monitor.forall_goto (Q := fun _ pc => Pc.Ok maxMsgSize q pc) h.ok hok j

/-- A thread moves with the lock or without it. -/
lemma Inv.goto {pc pc₀ : Pc} {pipe : ℕ} {called : List (ι × Request)} {log : List (ι × Answer)}
    {returned : List (ι × Res)} (h : Inv maxMsgSize s q) (hpc : s.threads.pc i = pc₀)
    (hholds : pc.holds = pc₀.holds) (hwaits : pc.waits = pc₀.waits) (hok : pc.Ok maxMsgSize q) :
    Inv maxMsgSize ⟨s.box, pipe, s.threads.goto i pc, called, log, returned⟩ q :=
  h.moves (h.sound.goto hpc hholds hwaits) (h.ok_goto hok)

/-- A thread that holds the lock moves, and the ring changes. -/
lemma Inv.work {pc pc₀ : Pc} {box : DynMbox} {called : List (ι × Request)} {log : List (ι × Answer)}
    {returned : List (ι × Res)} (h : Inv maxMsgSize s q) (hpc : s.threads.pc i = pc₀)
    (hbox : Represents box q') (hsize : box.maxMsgSize = maxMsgSize) (hheld : pc₀.holds = true)
    (hholds : pc.holds = true) (hwaits : pc.waits = pc₀.waits) (hok : pc.Ok maxMsgSize q') :
    Inv maxMsgSize ⟨box, s.pipe, s.threads.goto i pc, called, log, returned⟩ q' := by
  refine ⟨hbox, hsize, h.sound.goto hpc (hholds.trans hheld.symm) hwaits, fun j => ?_⟩
  change ((s.threads.goto i pc).pc j).Ok maxMsgSize q'
  by_cases hj : j = i
  · rw [hj, Monitor.pc_goto_self]
    exact hok
  · rw [Monitor.pc_goto_of_ne hj]
    refine (h.ok j).of_not_holds ?_
    rw [← Bool.not_eq_true]
    exact fun hholds => hj (h.sound.eq (hpc ▸ hheld) hholds)

omit [DecidableEq ι] in
/-- What is known of the place of one thread. -/
lemma Inv.ok_of {pc : Pc} (h : Inv maxMsgSize s q) (hpc : s.threads.pc i = pc) : pc.Ok maxMsgSize q :=
  hpc ▸ h.ok i

omit [DecidableEq ι] in
/-- A thread does not signal while it waits. -/
lemma ne_of_signals {res : Res} {call : PushCall} (hi : s.threads.pc i = .signalling res)
    (hj : s.threads.pc j = .blocked call) : i ≠ j := by
  rintro rfl
  rw [hi] at hj
  cases hj

theorem Inv.step (h : Inv maxMsgSize s q) (hdoes : Does pipeCap maxMsgSize s q a s' q') :
    Inv maxMsgSize s' q' := by
  cases hdoes with
  | refused hpc hreq hret => exact h.goto hpc rfl rfl trivial
  | starts hpc hstarts =>
    cases hstarts with
    | push hlegal => exact h.goto hpc rfl rfl hlegal
    | peek => exact h.goto hpc rfl rfl trivial
  | @locks i pc hfree hlocks =>
    generalize hpc : s.threads.pc i = pc₀ at hlocks
    have hi := h.ok_of hpc
    cases hlocks with
    | push => exact h.moves (h.sound.acquire hfree hpc rfl rfl) (h.ok_goto hi)
    | again => exact h.moves (h.sound.acquire hfree hpc rfl rfl) (h.ok_goto hi.1)
    | peek => exact h.moves (h.sound.acquire hfree hpc rfl rfl) (h.ok_goto trivial)
  | expires hfree hpc hres => exact h.moves (h.sound.acquire hfree hpc rfl rfl) (h.ok_goto trivial)
  | awaits hpc hblock hfull =>
    exact h.moves (h.sound.await hpc rfl rfl rfl rfl) (h.ok_goto ⟨h.ok_of hpc, hblock⟩)
  | enqueues hpc hroom hbox hsize => exact h.work hpc hbox hsize rfl rfl rfl trivial
  | full hpc hblock hfull => exact h.goto hpc rfl rfl trivial
  | unlocks hpc => exact h.moves (h.sound.release hpc rfl rfl rfl) (h.ok_goto trivial)
  | notifies hpc => exact h.goto hpc rfl rfl trivial
  | loses hpc hcap hfull => exact h.goto hpc rfl rfl trivial
  | empty hpc hq => exact h.goto hpc rfl rfl trivial
  | finds hpc hq => exact h.goto hpc rfl rfl hq
  | pops hpc =>
    have hi := h.ok_of hpc
    exact h.goto hpc rfl rfl hi
  | dequeues hpc hq hbox hsize => exact h.work hpc hbox hsize rfl rfl rfl trivial
  | signalsNone hpc hnone => exact h.goto hpc rfl rfl trivial
  | @signals i j res call hpc hj =>
    have hij := ne_of_signals hpc hj
    have hwait := h.ok_of hj
    have hwoken : Inv maxMsgSize { s with threads := s.threads.leave j (.woken call 0) } q :=
      h.moves (h.sound.leave hj rfl rfl) (h.ok_goto ⟨hwait.1, hwait.2, .inl rfl⟩)
    exact hwoken.goto ((Monitor.pc_goto_of_ne hij).trans hpc) rfl rfl trivial
  | returns hpc => exact h.moves (h.sound.release hpc rfl rfl rfl) (h.ok_goto trivial)
  | timesOut hpc htimed =>
    have hi := h.ok_of hpc
    exact h.moves (h.sound.leave hpc rfl rfl) (h.ok_goto ⟨hi.1, hi.2, .inr ⟨rfl, htimed⟩⟩)
  | misses hpc htimed =>
    have hi := h.ok_of hpc
    exact h.goto hpc rfl rfl ⟨hi.1, hi.2.1, .inr ⟨rfl, htimed⟩⟩
  | wakes hpc =>
    have hi := h.ok_of hpc
    exact h.moves (h.sound.leave hpc rfl rfl) (h.ok_goto ⟨hi.1, hi.2, .inl rfl⟩)

/-! ### The order of the answers -/

omit [DecidableEq ι] in
lemma served_snoc (log : List (ι × Answer)) (e : ι × Answer) :
    served (log ++ [e]) = served log ++ if e.2.res.ret ≠ -ETIMEDOUT then [e.2] else [] := by
  unfold served
  rw [List.map_append, List.filter_append]
  congr 1
  by_cases he : e.2.res.ret = -ETIMEDOUT
  · simp [he]
  · simp [he]

/-- One call more. -/
lemma absRun_snoc (maxMsgSize : ℕ) (q : List Msg) (cs : List Call) (c : Call) :
    absRun maxMsgSize q (cs ++ [c]) =
      ((absStep maxMsgSize (absRun maxMsgSize q cs).1 c).1,
        (absRun maxMsgSize q cs).2 ++ [(absStep maxMsgSize (absRun maxMsgSize q cs).1 c).2]) := by
  induction cs generalizing q with
  | nil => rfl
  | cons c' cs ih =>
    rw [List.cons_append]
    unfold absRun
    dsimp only
    rw [ih]
    rfl

/-- What one call takes in and gives out. -/
lemma absStep_fifo {req : Request} {res : Res} (h : absStep maxMsgSize q req.call = (q', res)) :
    q ++ (Answer.accepted ⟨req, res⟩).toList = (Answer.received ⟨req, res⟩).toList ++ q' := by
  cases req with
  | push call =>
    unfold absStep Request.call BoundedFifo.push at h
    dsimp only at h
    split_ifs at h with hlegal hroom
    all_goals
      obtain ⟨rfl, rfl⟩ := Prod.mk.inj h
      simp [Answer.accepted, Answer.received, Res.ret, EAGAIN, EINVAL]
  | peek hdr₀ msg =>
    cases msg with
    | none =>
      obtain ⟨rfl, rfl⟩ := Prod.mk.inj h
      simp [Answer.accepted, Answer.received]
    | some buf =>
      cases q with
      | nil =>
        obtain ⟨rfl, rfl⟩ := Prod.mk.inj h
        simp [Answer.accepted, Answer.received, EAGAIN]
      | cons m q =>
        obtain ⟨rfl, rfl⟩ := Prod.mk.inj h
        have hload : (buf.store 0 m).load 0 m.length = m := Mem.load_store buf 0 m
        simp [Answer.accepted, Answer.received, hload]

/-- The answers so far are those of a queue, which now holds `q`. -/
structure History (maxMsgSize : ℕ) (log : List (ι × Answer)) (q : List Msg) : Prop where
  run : absRun maxMsgSize [] ((served log).map (·.req.call)) = (q, (served log).map (·.res))
  fifo : log.filterMap (·.2.accepted) = log.filterMap (·.2.received) ++ q
  ok : ∀ e ∈ log, e.2.Ok

omit [DecidableEq ι] in
lemma history_nil : History maxMsgSize ([] : List (ι × Answer)) [] := ⟨rfl, rfl, nofun⟩

omit [DecidableEq ι] in
lemma History.ok_snoc {log : List (ι × Answer)} {e : ι × Answer} (h : History maxMsgSize log q) (he : e.2.Ok) :
    ∀ e' ∈ log ++ [e], e'.2.Ok := by
  intro e' he'
  rcases List.mem_append.mp he' with he' | he'
  · exact h.ok e' he'
  · rwa [List.mem_singleton.mp he']

omit [DecidableEq ι] in
/-- One answer more. -/
lemma History.snoc {log : List (ι × Answer)} {req : Request} {res : Res} (h : History maxMsgSize log q) (i : ι)
    (hstep : absStep maxMsgSize q req.call = (q', res)) (hret : res.ret ≠ -ETIMEDOUT)
    (hok : Answer.Ok ⟨req, res⟩) : History maxMsgSize (log ++ [(i, ⟨req, res⟩)]) q' := by
  refine ⟨?_, ?_, h.ok_snoc hok⟩
  · rw [served_snoc, if_pos hret, List.map_append, List.map_append, List.map_singleton, List.map_singleton,
      absRun_snoc, h.run, hstep]
  · have hfifo := absStep_fifo hstep
    rw [List.filterMap_append, List.filterMap_append, h.fifo, List.append_assoc, List.append_assoc]
    exact congrArg (log.filterMap (·.2.received) ++ ·) hfifo

omit [DecidableEq ι] in
/-- A wait that timed out. -/
lemma History.expired {log : List (ι × Answer)} {call : PushCall} (h : History maxMsgSize log q) (i : ι)
    (hblock : call.block = true) (htimed : call.timed = true) :
    History maxMsgSize (log ++ [(i, ⟨.push call, .pushed (-ETIMEDOUT)⟩)]) q := by
  have hagain : (-ETIMEDOUT : ℤ) ≠ -EAGAIN := by decide
  refine ⟨?_, ?_, h.ok_snoc ⟨fun _ => ⟨hblock, htimed⟩, fun _ => hagain⟩⟩
  · have hsame : served (log ++ [(i, ⟨.push call, .pushed (-ETIMEDOUT)⟩)]) = served log := by
      rw [served_snoc]
      exact List.append_nil _
    rw [hsame]
    exact h.run
  · have hout : List.filterMap (·.2.received) [(i, (⟨.push call, .pushed (-ETIMEDOUT)⟩ : Answer))] = [] := rfl
    rw [List.filterMap_append, List.filterMap_append, h.fifo, hout, List.append_nil]
    exact List.append_nil _

lemma absStep_push_of_room {call : PushCall} (hlegal : Legal maxMsgSize call.msg call.msgSize)
    (hroom : BoundedFifo.weight cost q + (HDR_LEN + call.msgSize) ≤ ALLOCATED_LEN) :
    absStep maxMsgSize q (Request.push call).call = (q ++ [msgOf call.msg call.msgSize], .pushed 0) := by
  have hpush : BoundedFifo.push cost ALLOCATED_LEN q (msgOf call.msg call.msgSize) =
      some (q ++ [msgOf call.msg call.msgSize]) := by
    unfold BoundedFifo.push
    exact if_pos (by simpa [cost] using hroom)
  unfold absStep Request.call
  dsimp only
  rw [if_pos hlegal, hpush]

lemma absStep_push_of_full {call : PushCall} (hlegal : Legal maxMsgSize call.msg call.msgSize)
    (hfull : ALLOCATED_LEN < BoundedFifo.weight cost q + (HDR_LEN + call.msgSize)) :
    absStep maxMsgSize q (Request.push call).call = (q, .pushed (-EAGAIN)) := by
  have hpush : BoundedFifo.push cost ALLOCATED_LEN q (msgOf call.msg call.msgSize) = none := by
    unfold BoundedFifo.push
    exact if_neg (by simpa [cost] using hfull)
  unfold absStep Request.call
  dsimp only
  rw [if_pos hlegal, hpush]

theorem History.step (h : History maxMsgSize s.log q) (hinv : Inv maxMsgSize s q)
    (hdoes : Does pipeCap maxMsgSize s q a s' q') : History maxMsgSize s'.log q' := by
  have hzero : (0 : ℤ) ≠ -ETIMEDOUT := by decide
  have hagain : (-EAGAIN : ℤ) ≠ -ETIMEDOUT := by decide
  cases hdoes with
  | @refused i req res hpc hreq hret =>
    have hinval : res.ret ≠ -ETIMEDOUT ∧ res.ret ≠ -EAGAIN := by
      rw [hret]
      decide
    refine h.snoc i hreq hinval.1 ?_
    cases req with
    | push call => exact ⟨fun htimed => absurd htimed hinval.1, fun _ => hinval.2⟩
    | peek hdr₀ msg => exact hinval.1
  | @expires i call res hfree hpc hres =>
    obtain ⟨-, hblock, hsignal | ⟨rfl, htimed⟩⟩ := hinv.ok_of hpc
    · exact absurd hsignal hres
    · exact h.expired i hblock htimed
  | @enqueues i call box hpc hroom hbox hsize =>
    have hroom' : (0 : ℤ) ≠ -EAGAIN := by decide
    exact h.snoc i (absStep_push_of_room (hinv.ok_of hpc) hroom) hzero
      ⟨fun htimed => absurd htimed hzero, fun _ => hroom'⟩
  | @full i call hpc hblock hfull =>
    refine h.snoc i (absStep_push_of_full (hinv.ok_of hpc) hfull) hagain
      ⟨fun htimed => absurd htimed hagain, fun hblock' => ?_⟩
    rw [hblock] at hblock'
    cases hblock'
  | @empty i hdr₀ msg hpc hq =>
    refine h.snoc i ?_ hagain hagain
    rw [hq]
    rfl
  | @dequeues i hdr₀ msg m q' box hpc hq hbox hsize =>
    subst hq
    have hret : (m.length : ℤ) ≠ -ETIMEDOUT := by
      unfold ETIMEDOUT
      omega
    exact h.snoc i rfl hret hret
  | _ => exact h

/-! ### What each thread is told -/

lemma ofThread_snoc_self {α : Type} (l : List (ι × α)) (i : ι) (e : α) :
    ofThread i (l ++ [(i, e)]) = ofThread i l ++ [e] := by
  unfold ofThread
  rw [List.filterMap_append]
  simp

lemma ofThread_snoc_of_ne {α : Type} (l : List (ι × α)) (h : i ≠ j) (e : α) :
    ofThread j (l ++ [(i, e)]) = ofThread j l := by
  unfold ofThread
  rw [List.filterMap_append]
  simp [h]

/-- The calls that a thread made are those whose answers are fixed and the one that it is in; and it returned
with these answers, but for the one with which it is to return. -/
structure Account (called : List Request) (log : List Answer) (returned : List Res) (pc : Pc) : Prop where
  called : called = log.map (·.req) ++ pc.pending.toList
  returned : log.map (·.res) = returned ++ pc.fixed.toList

/-- The accounts of all threads. -/
def Sys.Accounts (s : Sys ι) : Prop :=
  ∀ i, Account (ofThread i s.called) (ofThread i s.log) (ofThread i s.returned) (s.threads.pc i)

lemma accounts_start (box : DynMbox) : (Sys.start ι box).Accounts := fun _ => ⟨rfl, rfl⟩

section Account

variable {called : List Request} {log : List Answer} {returned : List Res} {pc pc₀ : Pc} {req : Request} {res : Res}

lemma Account.goto (h : Account called log returned pc₀) (hpending : pc.pending = pc₀.pending)
    (hfixed : pc.fixed = pc₀.fixed) : Account called log returned pc := by
  refine ⟨?_, ?_⟩
  · rw [hpending]
    exact h.called
  · rw [hfixed]
    exact h.returned

lemma Account.call (h : Account called log returned .idle) (hpending : pc.pending = some req)
    (hfixed : pc.fixed = none) : Account (called ++ [req]) log returned pc := by
  refine ⟨?_, ?_⟩
  · rw [hpending, h.called]
    simp
  · rw [hfixed, h.returned]
    simp

lemma Account.fix (h : Account called log returned pc₀) (hpending₀ : pc₀.pending = some req)
    (hfixed₀ : pc₀.fixed = none) (hpending : pc.pending = none) (hfixed : pc.fixed = some res) :
    Account called (log ++ [⟨req, res⟩]) returned pc := by
  refine ⟨?_, ?_⟩
  · rw [hpending, h.called, hpending₀]
    simp
  · rw [hfixed, List.map_append, h.returned, hfixed₀]
    simp

lemma Account.finish (h : Account called log returned pc) (hpending : pc.pending = none)
    (hfixed : pc.fixed = some res) : Account called log (returned ++ [res]) .idle := by
  refine ⟨?_, ?_⟩
  · rw [h.called, hpending]
    rfl
  · rw [h.returned, hfixed]
    simp

end Account

section Accounts

variable {box : DynMbox} {pipe : ℕ} {threads : Monitor ι Pc} {pc pc₀ : Pc} {req : Request} {res : Res}

/-- The thread `i` moves, and what the logs say of the others stays as it is. -/
lemma Sys.Accounts.update {called : List (ι × Request)} {log : List (ι × Answer)} {returned : List (ι × Res)}
    (h : s.Accounts) (hpc : threads.pc = (s.threads.goto i pc).pc)
    (hothers : ∀ j, i ≠ j → ofThread j called = ofThread j s.called ∧ ofThread j log = ofThread j s.log ∧
      ofThread j returned = ofThread j s.returned)
    (hi : Account (ofThread i called) (ofThread i log) (ofThread i returned) pc) :
    (⟨box, pipe, threads, called, log, returned⟩ : Sys ι).Accounts := by
  intro j
  change Account (ofThread j called) (ofThread j log) (ofThread j returned) (threads.pc j)
  rw [hpc]
  by_cases hj : j = i
  · rw [hj, Monitor.pc_goto_self]
    exact hi
  · obtain ⟨hcalled, hlog, hreturned⟩ := hothers j (Ne.symm hj)
    rw [Monitor.pc_goto_of_ne hj, hcalled, hlog, hreturned]
    exact h j

/-- It moves within its call. -/
lemma Sys.Accounts.goto (h : s.Accounts) (hi : s.threads.pc i = pc₀)
    (hpc : threads.pc = (s.threads.goto i pc).pc) (hpending : pc.pending = pc₀.pending)
    (hfixed : pc.fixed = pc₀.fixed) :
    (⟨box, pipe, threads, s.called, s.log, s.returned⟩ : Sys ι).Accounts := by
  have hself := h i
  rw [hi] at hself
  exact h.update hpc (fun _ _ => ⟨rfl, rfl, rfl⟩) (hself.goto hpending hfixed)

/-- Its answer is fixed. -/
lemma Sys.Accounts.fix (h : s.Accounts) (hi : s.threads.pc i = pc₀)
    (hpc : threads.pc = (s.threads.goto i pc).pc) (hpending₀ : pc₀.pending = some req)
    (hfixed₀ : pc₀.fixed = none) (hpending : pc.pending = none) (hfixed : pc.fixed = some res) :
    (⟨box, pipe, threads, s.called, s.log ++ [(i, ⟨req, res⟩)], s.returned⟩ : Sys ι).Accounts := by
  have hself := h i
  rw [hi] at hself
  refine h.update hpc (fun j hj => ⟨rfl, ofThread_snoc_of_ne _ hj _, rfl⟩) ?_
  rw [ofThread_snoc_self]
  exact hself.fix hpending₀ hfixed₀ hpending hfixed

/-- It returns. -/
lemma Sys.Accounts.finish (h : s.Accounts) (hi : s.threads.pc i = pc)
    (hpc : threads.pc = (s.threads.goto i .idle).pc) (hpending : pc.pending = none)
    (hfixed : pc.fixed = some res) :
    (⟨box, pipe, threads, s.called, s.log, s.returned ++ [(i, res)]⟩ : Sys ι).Accounts := by
  have hself := h i
  rw [hi] at hself
  refine h.update hpc (fun j hj => ⟨rfl, rfl, ofThread_snoc_of_ne _ hj _⟩) ?_
  rw [ofThread_snoc_self]
  exact hself.finish hpending hfixed

/-- It makes a call. -/
lemma Sys.Accounts.call (h : s.Accounts) (hi : s.threads.pc i = .idle) (hpending : pc.pending = some req)
    (hfixed : pc.fixed = none) : ({ s with called := s.called ++ [(i, req)] }.goto i pc).Accounts := by
  have hself := h i
  rw [hi] at hself
  refine h.update rfl (fun j hj => ⟨ofThread_snoc_of_ne _ hj _, rfl, rfl⟩) ?_
  rw [ofThread_snoc_self]
  exact hself.call hpending hfixed

/-- It makes a call that is refused. -/
lemma Sys.Accounts.refuse (h : s.Accounts) (hi : s.threads.pc i = .idle) (req : Request) (res : Res) :
    (⟨s.box, s.pipe, s.threads.goto i .idle, s.called ++ [(i, req)], s.log ++ [(i, ⟨req, res⟩)],
      s.returned ++ [(i, res)]⟩ : Sys ι).Accounts := by
  have hself := h i
  rw [hi] at hself
  refine h.update rfl (fun j hj => ⟨ofThread_snoc_of_ne _ hj _, ofThread_snoc_of_ne _ hj _,
    ofThread_snoc_of_ne _ hj _⟩) ?_
  rw [ofThread_snoc_self, ofThread_snoc_self, ofThread_snoc_self]
  refine ⟨?_, ?_⟩
  · rw [hself.called]
    simp
  · rw [List.map_append, hself.returned]
    simp

end Accounts

theorem Sys.Accounts.step (h : s.Accounts) (hdoes : Does pipeCap maxMsgSize s q a s' q') : s'.Accounts := by
  cases hdoes with
  | @refused i req res hpc hreq hret => exact h.refuse hpc req res
  | starts hpc hstarts =>
    cases hstarts with
    | push hlegal => exact h.call hpc rfl rfl
    | peek => exact h.call hpc rfl rfl
  | @locks i pc hfree hlocks =>
    generalize hpc : s.threads.pc i = pc₀ at hlocks
    cases hlocks with
    | push => exact h.goto hpc rfl rfl rfl
    | again => exact h.goto hpc rfl rfl rfl
    | peek => exact h.goto hpc rfl rfl rfl
  | expires hfree hpc hres => exact h.fix hpc rfl rfl rfl rfl rfl
  | awaits hpc hblock hfull => exact h.goto hpc rfl rfl rfl
  | enqueues hpc hroom hbox hsize => exact h.fix hpc rfl rfl rfl rfl rfl
  | full hpc hblock hfull => exact h.fix hpc rfl rfl rfl rfl rfl
  | unlocks hpc => exact h.goto hpc rfl rfl rfl
  | notifies hpc => exact h.finish hpc rfl rfl rfl
  | loses hpc hcap hfull => exact h.finish hpc rfl rfl rfl
  | empty hpc hq => exact h.fix hpc rfl rfl rfl rfl rfl
  | finds hpc hq => exact h.goto hpc rfl rfl rfl
  | pops hpc => exact h.goto hpc rfl rfl rfl
  | dequeues hpc hq hbox hsize => exact h.fix hpc rfl rfl rfl rfl rfl
  | signalsNone hpc hnone => exact h.goto hpc rfl rfl rfl
  | @signals i j res call hpc hj =>
    have hij := ne_of_signals hpc hj
    have hwoken : Sys.Accounts { s with threads := s.threads.leave j (.woken call 0) } := h.goto hj rfl rfl rfl
    exact hwoken.goto ((Monitor.pc_goto_of_ne hij).trans hpc) rfl rfl rfl
  | returns hpc => exact h.finish hpc rfl rfl rfl
  | timesOut hpc htimed => exact h.goto hpc rfl rfl rfl
  | misses hpc htimed => exact h.goto hpc rfl rfl rfl
  | wakes hpc => exact h.goto hpc rfl rfl rfl

/-! ### Every run -/

/-- The calls that did not time out, in the order in which their answers were fixed, are a run of one thread
alone, from the mailbox `box` to `box'`; `unread` are the messages that are left. -/
structure Linear (box : DynMbox) (s : Sys ι) (box' : DynMbox) (unread : List Msg) : Prop where
  run : run box ((served s.log).map (·.req.call)) = some (box', (served s.log).map (·.res))
  alone : Represents box' unread
  together : Represents s.box unread
  /-- Each message that was accepted is received once, in the same order, or left. -/
  fifo : s.log.filterMap (·.2.accepted) = s.log.filterMap (·.2.received) ++ unread
  ok : ∀ e ∈ s.log, e.2.Ok
  accounts : s.Accounts

section Runs

variable {calloc : Bool} {malloc : Option (Mem UInt8)} {initNotifyChannel : ℤ} {box : DynMbox}

lemma inv_of_reach {okay : Sys ι → Act ι → Prop}
    (hnew : dynmboxNew maxMsgSize calloc malloc initNotifyChannel = some box)
    (hr : Reach (step pipeCap) okay (.start ι box) s) :
    ∃ q, Inv maxMsgSize s q ∧ History maxMsgSize s.log q ∧ s.Accounts := by
  refine hr.invariant (I := fun s => ∃ q, Inv maxMsgSize s q ∧ History maxMsgSize s.log q ∧ s.Accounts)
    ⟨[], inv_start hnew, history_nil, accounts_start box⟩ ?_
  rintro s a s' ⟨q, hinv, hhistory, haccounts⟩ - hs
  obtain ⟨q', hdoes⟩ := does_of_step hinv hs
  exact ⟨q', hinv.step hdoes, hhistory.step hinv hdoes, haccounts.step hdoes⟩

/-- **The calls of any number of threads are those of one**, in whatever order the threads take their steps. -/
theorem linear_of_reach (hnew : dynmboxNew maxMsgSize calloc malloc initNotifyChannel = some box)
    (hr : Reach (step pipeCap) anyStep (.start ι box) s) : ∃ box' unread, Linear box s box' unread := by
  obtain ⟨q, hinv, hhistory, haccounts⟩ := inv_of_reach hnew hr
  obtain ⟨hbox, hmax⟩ := represents_new hnew
  obtain ⟨box', hrun, hbox', -⟩ := run_refines hbox ((served s.log).map (·.req.call))
  rw [hmax, hhistory.run] at hrun hbox'
  exact ⟨box', q, hrun, hbox', hinv.represents, hhistory.fifo, hhistory.ok, haccounts⟩

/-- Two threads wait for the whole ring until a third one peeks: the first is woken up and pushes, and the deadline
of the second passes. -/
def waited : List (Act ℕ) :=
  [.call 0 (.push ⟨false, false, none, 0⟩), .go 0, .go 0, .go 0, .go 0,
    .call 0 (.push ⟨true, false, some fun _ => 7, 65532⟩), .go 0, .go 0,
    .call 1 (.push ⟨true, true, some fun _ => 9, 65532⟩), .go 1, .go 1,
    .call 2 (.peek (fun _ => 0) (some fun _ => 0)), .go 2, .go 2, .go 2, .go 2, .signal 2 (some 0), .go 2,
    .timeout 1, .go 0, .go 0, .go 0, .go 1, .go 1]

theorem linear_of_reach_waited :
    ∃ s box' unread, exec (step (some 65536)) anyStep (.start ℕ ⟨65532, fun _ => 0, 0, 0, 0⟩) waited = some s ∧
      s.log.map (fun e => (e.1, e.2.res.ret)) = [(0, 0), (2, 0), (0, 0), (1, -ETIMEDOUT)] ∧
      Linear ⟨65532, fun _ => 0, 0, 0, 0⟩ s box' unread := by
  have hrun : (exec (step (some 65536)) anyStep (.start ℕ ⟨65532, fun _ => 0, 0, 0, 0⟩) waited).map
      (fun s => s.log.map fun e => (e.1, e.2.res.ret)) = some [(0, 0), (2, 0), (0, 0), (1, -ETIMEDOUT)] := by
    decide +kernel
  obtain ⟨s, hexec, hlog⟩ := Option.map_eq_some_iff.mp hrun
  have hnew : dynmboxNew 65532 true (some fun _ => 0) 0 = some ⟨65532, fun _ => 0, 0, 0, 0⟩ := rfl
  obtain ⟨box', unread, hlinear⟩ := linear_of_reach hnew (reach_of_exec hexec)
  exact ⟨s, box', unread, hexec, hlog, hlinear⟩

end Runs

end Futils.Dynmbox.Shared
