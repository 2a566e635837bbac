import Futils.Dynmbox.Linear

/-!
# Any number of threads come to rest

On their own the threads together make at most ten times as many steps as there are threads in the functions: one
that is woken makes steps of those that signal.  A thread that waits then does so while there is a message,
which the descriptor announces: it is not forgotten when the signal of a peek went to another one, which pushes,
or waits again for want of room.  But that fails when the signal goes to a thread whose deadline passes.
-/

namespace Futils.Dynmbox.Shared

open Futils.Lib

/-- How many steps a thread is from the end of its call, or from a wait.  A signal wakes another thread up. -/
def Pc.rank : Pc → ℕ
  | idle | blocked _ => 0
  | notifying | unlocking _ => 1
  | enqueued => 2
  | pushLocked _ => 3
  | pushLocking _ | woken _ _ => 4
  | signalling _ => 6
  | dequeuing _ _ => 7
  | popping _ _ => 8
  | peekLocked _ _ => 9
  | peekLocking _ _ => 10

/-- Between the enqueue and the pipe write of a push. -/
def Pc.pushing : Pc → Bool
  | enqueued | notifying => true
  | _ => false

/-- Between the pipe read and `do_peek`. -/
def Pc.taken : Pc → ℕ
  | dequeuing _ _ => 1
  | _ => 0

/-- The thread is about to signal, or to test for itself whether there is room. -/
def Pc.attends : Pc → Bool
  | signalling _ => true
  | woken _ res => res == 0
  | pushLocked call => call.block
  | _ => false

section Steps

variable {ι : Type} [DecidableEq ι] {cap : ℕ} {pipeCap : Option ℕ} {maxMsgSize : ℕ} {s s' : Sys ι}
  {q q' : List Msg} {a : Act ι} {i j : ι} {F : Finset ι} {threads : Monitor ι Pc} {pc pc₀ : Pc}

/-! ### The number of steps -/

/-- A step by which a thread goes on. -/
def GoesOn (_ : Sys ι) : Act ι → Prop
  | .go _ | .signal _ _ => True
  | _ => False

instance (s : Sys ι) : DecidablePred (GoesOn s)
  | .go _ => .isTrue trivial
  | .signal _ _ => .isTrue trivial
  | .call _ _ => .isFalse id
  | .timeout _ => .isFalse id
  | .late _ => .isFalse id
  | .spurious _ => .isFalse id

/-- The threads other than those of `F` are outside of the functions. -/
def Within (F : Finset ι) (t : Monitor ι Pc) : Prop := ∀ i, i ∉ F → t.pc i = .idle

lemma Within.mem {t : Monitor ι Pc} (h : Within F t) (hpc : t.pc i = pc) (hne : pc ≠ .idle) : i ∈ F := by
  by_contra hi
  exact hne (hpc.symm.trans (h i hi))

/-- What a move of a thread does to the rank. -/
lemma Within.move {t : Monitor ι Pc} (h : Within F t) (hpc : t.pc i = pc₀) (hi : i ∈ F)
    (hthreads : threads.pc = (t.goto i pc).pc) :
    Within F threads ∧ threads.total Pc.rank F + pc₀.rank = t.total Pc.rank F + pc.rank := by
  have hsum := Monitor.total_goto (t := t) (p := pc) Pc.rank hi
  have hsame : threads.total Pc.rank F = (t.goto i pc).total Pc.rank F := by
    unfold Monitor.total
    rw [hthreads]
  rw [hpc, ← hsame] at hsum
  refine ⟨fun j hj => ?_, hsum⟩
  have hji : j ≠ i := by
    rintro rfl
    exact hj hi
  rw [hthreads, Monitor.pc_goto_of_ne hji]
  exact h j hj

/-- A thread goes on, and lowers the rank. -/
lemma Within.lower {t : Monitor ι Pc} (h : Within F t) (hpc : t.pc i = pc₀)
    (hthreads : threads.pc = (t.goto i pc).pc) (hlt : pc.rank < pc₀.rank) :
    Within F threads ∧ threads.total Pc.rank F < t.total Pc.rank F := by
  have hne : pc₀ ≠ .idle := by
    rintro rfl
    exact Nat.not_lt_zero _ hlt
  obtain ⟨hwithin, hsum⟩ := h.move hpc (h.mem hpc hne) hthreads
  exact ⟨hwithin, by omega⟩

theorem Within.step (h : Within F s.threads) (hgo : GoesOn s a)
    (hdoes : Does pipeCap maxMsgSize s q a s' q') :
    Within F s'.threads ∧ s'.threads.total Pc.rank F < s.threads.total Pc.rank F := by
  cases hdoes with
  | refused => cases hgo
  | starts => cases hgo
  | timesOut => cases hgo
  | misses => cases hgo
  | wakes => cases hgo
  | @locks i pc hfree hlocks =>
    generalize hpc : s.threads.pc i = pc₀ at hlocks
    cases hlocks with
    | push => exact h.lower hpc rfl (by simp [Pc.rank])
    | again => exact h.lower hpc rfl (by simp [Pc.rank])
    | peek => exact h.lower hpc rfl (by simp [Pc.rank])
  | expires hfree hpc hres => exact h.lower hpc rfl (by simp [Pc.rank])
  | awaits hpc hblock hfull => exact h.lower hpc rfl (by simp [Pc.rank])
  | enqueues hpc hroom hbox hsize => exact h.lower hpc rfl (by simp [Pc.rank])
  | full hpc hblock hfull => exact h.lower hpc rfl (by simp [Pc.rank])
  | unlocks hpc => exact h.lower hpc rfl (by simp [Pc.rank])
  | notifies hpc => exact h.lower hpc rfl (by simp [Pc.rank])
  | loses hpc hcap hfull => exact h.lower hpc rfl (by simp [Pc.rank])
  | empty hpc hq => exact h.lower hpc rfl (by simp [Pc.rank])
  | finds hpc hq => exact h.lower hpc rfl (by simp [Pc.rank])
  | pops hpc => exact h.lower hpc rfl (by simp [Pc.rank])
  | dequeues hpc hq hbox hsize => exact h.lower hpc rfl (by simp [Pc.rank])
  | signalsNone hpc hnone => exact h.lower hpc rfl (by simp [Pc.rank])
  | returns hpc => exact h.lower hpc rfl (by simp [Pc.rank])
  | @signals i j res call hpc hj =>
    have hij := ne_of_signals hpc hj
    -- the thread that wakes up has four steps to go, and the signal was worth five
    have hwoken : Within F (s.threads.leave j (.woken call 0)) ∧ _ := h.move hj (h.mem hj nofun) rfl
    have hpc' : (s.threads.leave j (.woken call 0)).pc i = .signalling res :=
      (Monitor.pc_goto_of_ne hij).trans hpc
    have hdone : Within F ((s.threads.leave j (.woken call 0)).goto i (.unlocking res)) ∧ _ :=
      hwoken.1.move hpc' (hwoken.1.mem hpc' nofun) rfl
    have hup := hwoken.2
    have hdown := hdone.2
    refine ⟨hdone.1, ?_⟩
    change ((s.threads.leave j (.woken call 0)).goto i (.unlocking res)).total Pc.rank F < _
    simp only [Pc.rank] at hup hdown
    omega

/-! ### The notifications -/

/-- The holder of the lock is between its pipe read and `do_peek`. -/
def taken (t : Monitor ι Pc) : ℕ := t.lock.elim 0 fun i => (t.pc i).taken

/-- There is a notification for every message: in the pipe, to be written by one of the threads of `P`, or taken
by the thread that is about to take the message. -/
def Covered (s : Sys ι) (q : List Msg) : Prop :=
  ∃ P : Finset ι, (∀ i, i ∈ P ↔ (s.threads.pc i).pushing = true) ∧
    q.length ≤ s.pipe + P.card + taken s.threads

omit [DecidableEq ι] in
lemma taken_of_holds {t : Monitor ι Pc} (h : t.Sound Pc.holds Pc.waits) (hpc : t.pc i = pc)
    (hholds : pc.holds = true) : taken t = pc.taken := by
  have hlock := (h.lock i).mp (hpc ▸ hholds)
  unfold taken
  rw [hlock, ← hpc]
  rfl

omit [DecidableEq ι] in
lemma taken_of_free {t : Monitor ι Pc} (h : t.lock = none) : taken t = 0 := by
  unfold taken
  rw [h]
  rfl

lemma taken_goto {t : Monitor ι Pc} (hpc : t.pc i = pc₀) (heq : pc.taken = pc₀.taken) :
    taken (t.goto i pc) = taken t := by
  unfold taken
  change t.lock.elim 0 (fun j => ((t.goto i pc).pc j).taken) = _
  congr 1
  funext j
  by_cases hj : j = i
  · rw [hj, Monitor.pc_goto_self, hpc, heq]
  · rw [Monitor.pc_goto_of_ne hj]

lemma le_taken_goto {t : Monitor ι Pc} (n : ℕ) (hpc : t.pc i = pc₀) (heq : pc.taken = pc₀.taken) :
    n + taken t ≤ n + taken (t.goto i pc) := by
  rw [taken_goto hpc heq]

section Covered

variable {box : DynMbox} {pipe : ℕ} {called : List (ι × Request)} {log : List (ι × Answer)}
  {returned : List (ι × Res)}

/-- A thread moves, and is not in a push before or after, or in one before and after. -/
lemma Covered.move (h : Covered s q) (hpc : s.threads.pc i = pc₀)
    (hthreads : threads.pc = (s.threads.goto i pc).pc) (hpushing : pc.pushing = pc₀.pushing)
    (hle : q'.length + s.pipe + taken s.threads ≤ q.length + pipe + taken threads) :
    Covered (⟨box, pipe, threads, called, log, returned⟩ : Sys ι) q' := by
  obtain ⟨P, hP, hcover⟩ := h
  refine ⟨P, fun j => ?_, ?_⟩
  · change j ∈ P ↔ (threads.pc j).pushing = true
    rw [hthreads]
    refine Monitor.forall_goto (Q := fun j pc => j ∈ P ↔ Pc.pushing pc = true) hP ?_ j
    rw [hpushing, ← hpc]
    exact hP i
  · change q'.length ≤ pipe + P.card + taken threads
    omega

/-- A thread begins to push. -/
lemma Covered.enqueue (h : Covered s q) (hpc : s.threads.pc i = pc₀)
    (hthreads : threads.pc = (s.threads.goto i pc).pc) (hnot : pc₀.pushing = false) (hpushing : pc.pushing = true)
    (htaken : taken threads = taken s.threads) (m : Msg) :
    Covered (⟨box, s.pipe, threads, called, log, returned⟩ : Sys ι) (q ++ [m]) := by
  obtain ⟨P, hP, hcover⟩ := h
  have hi : i ∉ P := by
    rw [hP i, hpc, hnot]
    nofun
  refine ⟨insert i P, fun j => ?_, ?_⟩
  · change j ∈ insert i P ↔ (threads.pc j).pushing = true
    rw [hthreads, Finset.mem_insert]
    by_cases hj : j = i
    · rw [hj, Monitor.pc_goto_self]
      exact iff_of_true (.inl rfl) hpushing
    · rw [Monitor.pc_goto_of_ne hj, ← hP j]
      exact or_iff_right hj
  · change (q ++ [m]).length ≤ s.pipe + (insert i P).card + taken threads
    rw [List.length_append, List.length_singleton, Finset.card_insert_of_notMem hi]
    omega

/-- It ends with a notification, or the pipe holds one for every message. -/
lemma Covered.notify (h : Covered s q) (hpc : s.threads.pc i = pc₀)
    (hthreads : threads.pc = (s.threads.goto i pc).pc) (hpushing : pc₀.pushing = true) (hnot : pc.pushing = false)
    (htaken : taken threads = taken s.threads) (hpipe : pipe = s.pipe + 1 ∨ q.length ≤ pipe) :
    Covered (⟨box, pipe, threads, called, log, returned⟩ : Sys ι) q := by
  obtain ⟨P, hP, hcover⟩ := h
  have hi : i ∈ P := by rwa [hP i, hpc]
  refine ⟨P.erase i, fun j => ?_, ?_⟩
  · change j ∈ P.erase i ↔ (threads.pc j).pushing = true
    rw [hthreads, Finset.mem_erase]
    by_cases hj : j = i
    · rw [hj, Monitor.pc_goto_self, hnot]
      exact iff_of_false (fun hne => hne.1 rfl) nofun
    · rw [Monitor.pc_goto_of_ne hj, ← hP j]
      exact and_iff_right hj
  · have hcard := Finset.card_erase_add_one hi
    change q.length ≤ pipe + (P.erase i).card + taken threads
    omega

end Covered

/-- **There is a notification for every message**, when the pipe has room for as many as there can be. -/
theorem Covered.step (h : Covered s q) (hcap : 16384 ≤ cap) (hinv : Inv maxMsgSize s q)
    (hdoes : Does (some cap) maxMsgSize s q a s' q') : Covered s' q' := by
  have hsound := hinv.sound
  have hfrom {threads : Monitor ι Pc} (hzero : taken s.threads = 0) :
      q.length + s.pipe + taken s.threads ≤ q.length + s.pipe + taken threads := by omega
  cases hdoes with
  | refused hpc hreq hret => exact h.move hpc rfl rfl (le_taken_goto _ hpc rfl)
  | starts hpc hstarts =>
    cases hstarts with
    | push hlegal => exact h.move hpc rfl rfl (le_taken_goto _ hpc rfl)
    | peek => exact h.move hpc rfl rfl (le_taken_goto _ hpc rfl)
  | @locks i pc hfree hlocks =>
    generalize hpc : s.threads.pc i = pc₀ at hlocks
    have hzero := taken_of_free hfree
    cases hlocks with
    | push => exact h.move hpc rfl rfl (hfrom hzero)
    | again => exact h.move hpc rfl rfl (hfrom hzero)
    | peek => exact h.move hpc rfl rfl (hfrom hzero)
  | expires hfree hpc hres => exact h.move hpc rfl rfl (hfrom (taken_of_free hfree))
  | awaits hpc hblock hfull => exact h.move hpc rfl rfl (hfrom (taken_of_holds hsound hpc rfl))
  | enqueues hpc hroom hbox hsize =>
    refine h.enqueue hpc rfl rfl rfl ?_ _
    exact taken_goto hpc rfl
  | full hpc hblock hfull => exact h.move hpc rfl rfl (le_taken_goto _ hpc rfl)
  | unlocks hpc => exact h.move hpc rfl rfl (hfrom (taken_of_holds hsound hpc rfl))
  | notifies hpc => exact h.notify hpc rfl rfl rfl (taken_goto hpc rfl) (.inl rfl)
  | @loses i n hpc hcap' hfull =>
    obtain rfl := Option.some.inj hcap'
    have hle : 4 * q.length ≤ 65536 := hinv.represents.length_le
    have hcover : q.length ≤ s.pipe := by omega
    exact h.notify hpc rfl rfl rfl (taken_goto hpc rfl) (.inr hcover)
  | empty hpc hq => exact h.move hpc rfl rfl (le_taken_goto _ hpc rfl)
  | finds hpc hq => exact h.move hpc rfl rfl (le_taken_goto _ hpc rfl)
  | @pops i hdr₀ msg hpc =>
    have hbefore := taken_of_holds hsound hpc rfl
    have hafter := taken_of_holds (hsound.goto (p := .dequeuing hdr₀ msg) hpc rfl rfl) (Monitor.pc_goto_self ..) rfl
    refine h.move hpc rfl rfl ?_
    change q.length + s.pipe + taken s.threads ≤
      q.length + (s.pipe - 1) + taken (s.threads.goto i (.dequeuing hdr₀ msg))
    simp only [Pc.taken] at hbefore hafter
    omega
  | @dequeues i hdr₀ msg m q' box hpc hq hbox hsize =>
    have hbefore := taken_of_holds hsound hpc rfl
    refine h.move hpc rfl rfl ?_
    change q'.length + s.pipe + taken s.threads ≤ q.length + s.pipe + taken (s.threads.goto i _)
    rw [hq, List.length_cons]
    simp only [Pc.taken] at hbefore
    omega
  | signalsNone hpc hnone => exact h.move hpc rfl rfl (le_taken_goto _ hpc rfl)
  | @signals i j res call hpc hj =>
    have hij := ne_of_signals hpc hj
    have hwoken : Covered { s with threads := s.threads.leave j (.woken call 0) } q :=
      h.move hj rfl rfl (le_taken_goto _ hj rfl)
    have hpc' : (s.threads.leave j (.woken call 0)).pc i = .signalling res :=
      (Monitor.pc_goto_of_ne hij).trans hpc
    exact hwoken.move hpc' rfl rfl (le_taken_goto _ hpc' rfl)
  | returns hpc => exact h.move hpc rfl rfl (hfrom (taken_of_holds hsound hpc rfl))
  | timesOut hpc htimed => exact h.move hpc rfl rfl (le_taken_goto _ hpc rfl)
  | misses hpc htimed => exact h.move hpc rfl rfl (le_taken_goto _ hpc rfl)
  | wakes hpc => exact h.move hpc rfl rfl (le_taken_goto _ hpc rfl)

/-! ### The threads that wait -/

/-- A thread that waits does so while there is a message, or while another thread is about to signal or to test
for itself. -/
def Attended (s : Sys ι) (q : List Msg) : Prop :=
  s.threads.waiters = [] ∨ q ≠ [] ∨ ∃ i, (s.threads.pc i).attends = true

section Attended

variable {box : DynMbox} {pipe : ℕ} {called : List (ι × Request)} {log : List (ι × Answer)}
  {returned : List (ι × Res)}

/-- A thread moves, and still attends if it did. -/
lemma Attended.move (h : Attended s q) (hpc : s.threads.pc i = pc₀)
    (hthreads : threads.pc = (s.threads.goto i pc).pc)
    (hwaiters : s.threads.waiters = [] → threads.waiters = []) (hattends : pc₀.attends = true → pc.attends = true) :
    Attended (⟨box, pipe, threads, called, log, returned⟩ : Sys ι) q := by
  refine h.imp hwaiters (Or.imp_right ?_)
  rintro ⟨j, hj⟩
  refine ⟨j, ?_⟩
  change (threads.pc j).attends = true
  rw [hthreads]
  by_cases hji : j = i
  · rw [hji, hpc] at hj
    rw [hji, Monitor.pc_goto_self]
    exact hattends hj
  · rwa [Monitor.pc_goto_of_ne hji]

/-- A thread attends. -/
lemma attended_of_attends (hthreads : threads.pc = (s.threads.goto i pc).pc) (hattends : pc.attends = true) :
    Attended (⟨box, pipe, threads, called, log, returned⟩ : Sys ι) q := by
  refine .inr (.inr ⟨i, ?_⟩)
  change (threads.pc i).attends = true
  rwa [hthreads, Monitor.pc_goto_self]

end Attended

/-- A message that does not fit waits for another. -/
lemma ne_nil_of_full {n : ℕ} (hsize : n ≤ maxMsgSize) (hmax : maxMsgSize ≤ DYNMBOX_MAX_SIZE)
    (hfull : ALLOCATED_LEN < BoundedFifo.weight cost q + (HDR_LEN + n)) : q ≠ [] := by
  rintro rfl
  rw [BoundedFifo.weight_nil] at hfull
  have halloc : ALLOCATED_LEN = DYNMBOX_MAX_SIZE + HDR_LEN := rfl
  omega

omit [DecidableEq ι] in
lemma Inv.maxMsgSize_le (h : Inv maxMsgSize s q) : maxMsgSize ≤ DYNMBOX_MAX_SIZE := by
  rw [← h.size]
  exact h.represents.maxMsgSize_le

/-- No signal goes to a thread whose deadline passes. -/
def Timely (_ : Sys ι) : Act ι → Prop
  | .late _ => False
  | _ => True

instance (s : Sys ι) : DecidablePred (Timely s)
  | .late _ => .isFalse id
  | .call _ _ => .isTrue trivial
  | .go _ => .isTrue trivial
  | .signal _ _ => .isTrue trivial
  | .timeout _ => .isTrue trivial
  | .spurious _ => .isTrue trivial

/-- **No thread is forgotten**, as long as no signal is lost. -/
theorem Attended.step (h : Attended s q) (hinv : Inv maxMsgSize s q) (htimely : Timely s a)
    (hdoes : Does pipeCap maxMsgSize s q a s' q') : Attended s' q' := by
  cases hdoes with
  | refused hpc hreq hret => exact h.move hpc rfl id nofun
  | starts hpc hstarts => exact h.move hpc rfl id nofun
  | @locks i pc hfree hlocks =>
    generalize hpc : s.threads.pc i = pc₀ at hlocks
    have hok := hinv.ok_of hpc
    cases hlocks with
    | push => exact h.move hpc rfl id nofun
    | again => exact h.move hpc rfl id fun _ => hok.2.1
    | peek => exact h.move hpc rfl id nofun
  | expires hfree hpc hres => exact h.move hpc rfl id fun hzero => absurd (eq_of_beq hzero) hres
  | awaits hpc hblock hfull =>
    exact .inr (.inl (ne_nil_of_full (hinv.ok_of hpc).1 hinv.maxMsgSize_le hfull))
  | enqueues hpc hroom hbox hsize => exact .inr (.inl (List.append_ne_nil_of_right_ne_nil _ (List.cons_ne_nil _ _)))
  | full hpc hblock hfull => exact h.move hpc rfl id fun hattends => absurd (hblock.symm.trans hattends) nofun
  | unlocks hpc => exact h.move hpc rfl id nofun
  | notifies hpc => exact h.move hpc rfl id nofun
  | loses hpc hcap hfull => exact h.move hpc rfl id nofun
  | empty hpc hq => exact h.move hpc rfl id nofun
  | finds hpc hq => exact h.move hpc rfl id nofun
  | pops hpc => exact h.move hpc rfl id nofun
  | dequeues hpc hq hbox hsize => exact attended_of_attends rfl rfl
  | signalsNone hpc hnone => exact .inl hnone
  | @signals i j res call hpc hj =>
    refine .inr (.inr ⟨j, ?_⟩)
    change (((s.threads.goto j (.woken call 0)).goto i (.unlocking res)).pc j).attends = true
    rw [Monitor.pc_goto_of_ne (ne_of_signals hpc hj).symm, Monitor.pc_goto_self]
    rfl
  | returns hpc => exact h.move hpc rfl id nofun
  | @timesOut i call hpc htimed =>
    refine h.move hpc rfl (fun hnone => ?_) nofun
    change s.threads.waiters.erase i = []
    rw [hnone]
    rfl
  | misses => cases htimely
  | wakes hpc => exact attended_of_attends rfl rfl

/-! ### At rest -/

/-- **A thread goes on**, unless it is outside of the functions, it waits, or it needs the lock, which is taken. -/
lemma Inv.stops (h : Inv maxMsgSize s q) (hstop : ∀ a, GoesOn s a → Shared.step pipeCap s a = none)
    (i : ι) :
    s.threads.pc i = .idle ∨ (∃ call, s.threads.pc i = .blocked call) ∨
      (s.threads.pc i).needsLock = true ∧ s.threads.lock ≠ none := by
  by_contra hgoes
  obtain ⟨hidle, hwaits, hlock⟩ : s.threads.pc i ≠ .idle ∧ (∀ call, s.threads.pc i ≠ .blocked call) ∧
      ((s.threads.pc i).needsLock = true → s.threads.lock = none) := by
    refine ⟨fun hidle => hgoes (.inl hidle), fun call hcall => hgoes (.inr (.inl ⟨call, hcall⟩)), fun hneeds => ?_⟩
    by_contra htaken
    exact hgoes (.inr (.inr ⟨hneeds, htaken⟩))
  by_cases hsignal : ∃ res, s.threads.pc i = .signalling res
  · obtain ⟨res, hres⟩ := hsignal
    -- the signal finds a thread that waits, or none
    cases hwaiters : s.threads.waiters with
    | nil =>
      have hnone := hstop (.signal i none) trivial
      unfold Shared.step signalStep at hnone
      simp [hres, hwaiters] at hnone
    | cons j l =>
      have hj : (s.threads.pc j).waits = true := by
        rw [← h.sound.waiters j, hwaiters]
        exact List.mem_cons_self
      have hsome := hstop (.signal i (some j)) trivial
      unfold Shared.step signalStep at hsome
      cases hpc : s.threads.pc j with
      | blocked call => simp [hres, hpc] at hsome
      | _ => simp [hpc, Pc.waits] at hj
  · have hnot : (s.threads.pc i).waits = false := by
      cases hpc : s.threads.pc i with
      | blocked call => exact absurd hpc (hwaits call)
      | _ => rfl
    obtain ⟨s', q', hgo, -⟩ := does_go pipeCap h hidle hnot (fun res hres => hsignal ⟨res, hres⟩) hlock
    have hnone : goStep pipeCap s i = none := hstop (.go i) trivial
    rw [hnone] at hgo
    cases hgo

/-- The threads at rest: each is outside of the functions, or waits.  Then a notification is in the pipe for every
message, and while a thread waits, a peek is announced and returns a message. -/
structure AtRest (s : Sys ι) : Prop where
  lock : s.threads.lock = none
  places : ∀ i, s.threads.pc i = .idle ∨ ∃ call, s.threads.pc i = .blocked call
  covered : ∃ q, Represents s.box q ∧ q.length ≤ s.pipe
  announced : ∀ i call, s.threads.pc i = .blocked call →
    0 < s.pipe ∧ ∀ hdr₀ msg, ∃ msglen box msg', dynmboxPeek s.box hdr₀ (some msg) = some (msglen, box, msg') ∧
      0 ≤ msglen

/-- **The lock is free** when nothing moves. -/
lemma Inv.lock_free (h : Inv maxMsgSize s q) (hstop : ∀ a, GoesOn s a → Shared.step pipeCap s a = none) :
    s.threads.lock = none := by
  cases hlock : s.threads.lock with
  | none => rfl
  | some i =>
    have hholds := (h.sound.lock i).mpr hlock
    rcases h.stops hstop i with hidle | ⟨call, hcall⟩ | ⟨hneeds, -⟩
    · rw [hidle] at hholds
      cases hholds
    · rw [hcall] at hholds
      cases hholds
    · cases hpc : s.threads.pc i with
      | _ => simp_all [Pc.holds, Pc.needsLock]

lemma Inv.atRest (h : Inv maxMsgSize s q) (hcover : Covered s q) (hattend : Attended s q)
    (hstop : ∀ a, GoesOn s a → Shared.step pipeCap s a = none) : AtRest s := by
  have hfree := h.lock_free hstop
  have hplaces : ∀ i, s.threads.pc i = .idle ∨ ∃ call, s.threads.pc i = .blocked call := fun i =>
    (h.stops hstop i).imp_right fun hi => hi.resolve_right fun hlocked => hlocked.2 hfree
  have hle : q.length ≤ s.pipe := by
    obtain ⟨P, hP, hlen⟩ := hcover
    have hempty : P = ∅ := by
      refine Finset.eq_empty_of_forall_notMem fun i hi => ?_
      have hpushing := (hP i).mp hi
      rcases hplaces i with hidle | ⟨call, hcall⟩
      · rw [hidle] at hpushing
        cases hpushing
      · rw [hcall] at hpushing
        cases hpushing
    rw [hempty, Finset.card_empty, taken_of_free hfree] at hlen
    exact hlen
  refine ⟨hfree, hplaces, ⟨q, h.represents, hle⟩, fun i call hcall => ?_⟩
  have hne : q ≠ [] := by
    rcases hattend with hnone | hne | ⟨j, hj⟩
    · have hi := (h.sound.waiters i).mpr (by rw [hcall]; rfl)
      rw [hnone] at hi
      cases hi
    · exact hne
    · rcases hplaces j with hidle | ⟨call', hcall'⟩
      · rw [hidle] at hj
        cases hj
      · rw [hcall'] at hj
        cases hj
  obtain ⟨m, q', rfl⟩ := List.exists_cons_of_ne_nil hne
  rw [List.length_cons] at hle
  refine ⟨by omega, fun hdr₀ msg => ?_⟩
  obtain ⟨box, hpeek⟩ := h.represents.serves.peek_of_cons m q' rfl hdr₀ msg
  unfold Dynmbox.step at hpeek
  obtain ⟨⟨msglen, box', msg'⟩, hcall, heq⟩ := Option.map_eq_some_iff.mp hpeek
  obtain ⟨-, hres⟩ := Prod.mk.inj heq
  obtain ⟨rfl, -⟩ := Res.peeked.inj hres
  exact ⟨m.length, box', msg', hcall, Int.natCast_nonneg _⟩

end Steps

section Runs

variable {ι : Type} [DecidableEq ι] {cap maxMsgSize : ℕ} {calloc : Bool} {malloc : Option (Mem UInt8)}
  {initNotifyChannel : ℤ} {box : DynMbox} {s s' : Sys ι} {F : Finset ι} {acts : List (Act ι)}

lemma attended_of_reach (hcap : 16384 ≤ cap)
    (hnew : dynmboxNew maxMsgSize calloc malloc initNotifyChannel = some box)
    (hr : Reach (step (some cap)) Timely (.start ι box) s) :
    ∃ q, Inv maxMsgSize s q ∧ Covered s q ∧ Attended s q := by
  refine hr.invariant (I := fun s => ∃ q, Inv maxMsgSize s q ∧ Covered s q ∧ Attended s q)
    ⟨[], inv_start hnew, ⟨∅, fun i => ?_, Nat.zero_le _⟩, .inl rfl⟩ ?_
  · exact iff_of_false (Finset.notMem_empty i) nofun
  · rintro s a s' ⟨q, hinv, hcover, hattend⟩ htimely hs
    obtain ⟨q', hdoes⟩ := does_of_step hinv hs
    exact ⟨q', hinv.step hdoes, hcover.step hcap hinv hdoes, hattend.step hinv htimely hdoes⟩

omit [DecidableEq ι] in
lemma GoesOn.timely {a : Act ι} (h : GoesOn s a) : Timely s a := by
  cases a with
  | late i => cases h
  | _ => trivial

/-- **Any number of threads come to rest, and none is forgotten.**  From every state reached without a lost
signal, the threads, of which `F` has those inside the functions, together make at most ten times as many steps on
their own as `F` has threads, in any order; and when none can go on, they are at rest. -/
theorem rests_of_reach (hcap : 16384 ≤ cap)
    (hnew : dynmboxNew maxMsgSize calloc malloc initNotifyChannel = some box)
    (hr : Reach (step (some cap)) Timely (.start ι box) s) (hF : ∀ i, i ∉ F → s.threads.pc i = .idle)
    (hexec : exec (step (some cap)) GoesOn s acts = some s') :
    acts.length ≤ 10 * F.card ∧ ((∀ a, GoesOn s' a → step (some cap) s' a = none) → AtRest s') := by
  constructor
  · have hinv : ∃ q, Inv maxMsgSize s q := by
      obtain ⟨q, hinv, -⟩ := attended_of_reach hcap hnew hr
      exact ⟨q, hinv⟩
    have hsteps : acts.length + s'.threads.total Pc.rank F ≤ s.threads.total Pc.rank F := by
      refine length_add_rank_le_of_invariant (fun s : Sys ι => s.threads.total Pc.rank F)
        (fun s => (∃ q, Inv maxMsgSize s q) ∧ Within F s.threads) ?_ ⟨hinv, hF⟩ hexec
      rintro s a s' ⟨⟨q, hinv⟩, hwithin⟩ hgo hs
      obtain ⟨q', hdoes⟩ := does_of_step hinv hs
      obtain ⟨hwithin', hlt⟩ := hwithin.step hgo hdoes
      exact ⟨⟨⟨q', hinv.step hdoes⟩, hwithin'⟩, hlt⟩
    have hrank : ∀ pc : Pc, pc.rank ≤ 10 := by
      intro pc
      cases pc with
      | _ => simp [Pc.rank]
    have htotal := Monitor.total_le (t := s.threads) hrank F
    omega
  · intro hstop
    have hgo : Reach (step (some cap)) Timely s s' := (reach_of_exec hexec).mono fun _ _ => GoesOn.timely
    obtain ⟨q, hinv, hcover, hattend⟩ := attended_of_reach hcap hnew (hr.trans hgo)
    exact hinv.atRest hcover hattend hstop

/-- Two threads wait for the whole ring, and a third one is to peek. -/
def crowded : List (Act (Fin 3)) :=
  [.call 0 (.push ⟨false, false, none, 0⟩), .go 0, .go 0, .go 0, .go 0,
    .call 0 (.push ⟨true, true, some fun _ => 7, 65532⟩), .go 0, .go 0,
    .call 1 (.push ⟨true, false, some fun _ => 9, 65532⟩), .go 1, .go 1,
    .call 2 (.peek (fun _ => 0) (some fun _ => 0))]

/-- The peek, which wakes the thread 0 up; that one pushes, and the thread 1 still waits. -/
def handedOn : List (Act (Fin 3)) :=
  [.go 2, .go 2, .go 2, .go 2, .signal 2 (some 0), .go 2, .go 0, .go 0, .go 0, .go 0]

/-- No thread goes on. -/
def stuck (pipeCap : Option ℕ) (s : Sys (Fin 3)) : Bool :=
  decide (∀ i, (goStep pipeCap s i).isNone ∧ (signalStep s i none).isNone ∧
    ∀ j, (signalStep s i (some j)).isNone)

lemma stuck_eq_true {pipeCap : Option ℕ} {s : Sys (Fin 3)} (h : stuck pipeCap s = true) {a : Act (Fin 3)}
    (ha : GoesOn s a) : step pipeCap s a = none := by
  have hnone := of_decide_eq_true h
  cases a with
  | go i => exact Option.isNone_iff_eq_none.mp (hnone i).1
  | signal i woken =>
    cases woken with
    | none => exact Option.isNone_iff_eq_none.mp (hnone i).2.1
    | some j => exact Option.isNone_iff_eq_none.mp ((hnone i).2.2 j)
  | _ => cases ha

theorem rests_of_reach_crowded :
    ∃ s s' : Sys (Fin 3), exec (step (some 65536)) Timely (.start _ ⟨65532, fun _ => 0, 0, 0, 0⟩) crowded = some s ∧
      exec (step (some 65536)) GoesOn s handedOn = some s' ∧ (s'.threads.pc 1).waits = true ∧
      handedOn.length ≤ 10 * 3 ∧ AtRest s' := by
  have hrun : ((exec (step (some 65536)) Timely (.start (Fin 3) ⟨65532, fun _ => 0, 0, 0, 0⟩) crowded).bind
      fun s => (exec (step (some 65536)) GoesOn s handedOn).map fun s' =>
        ((s'.threads.pc 1).waits, stuck (some 65536) s')) = some (true, true) := by
    decide +kernel
  obtain ⟨s, hs, hrest⟩ := Option.bind_eq_some_iff.mp hrun
  obtain ⟨s', hexec, hends⟩ := Option.map_eq_some_iff.mp hrest
  obtain ⟨hwaits, hstuck⟩ := Prod.mk.inj hends
  have hnew : dynmboxNew 65532 true (some fun _ => 0) 0 = some ⟨65532, fun _ => 0, 0, 0, 0⟩ := rfl
  have hall : ∀ i : Fin 3, i ∈ ({0, 1, 2} : Finset (Fin 3)) := by decide
  obtain ⟨hlen, hrest⟩ := rests_of_reach (by decide : 16384 ≤ 65536) hnew (reach_of_exec hs)
    (fun i hi => absurd (hall i) hi) hexec
  exact ⟨s, s', hs, hexec, hwaits, hlen, hrest fun _ => stuck_eq_true hstuck⟩

/-- When the signal goes to the thread 0 and its deadline passes, the thread 1 waits for a peek of an empty mailbox. -/
example : ((exec (step (some 65536)) anyStep (.start (Fin 3) ⟨65532, fun _ => 0, 0, 0, 0⟩)
    (crowded ++ [.go 2, .go 2, .go 2, .go 2, .signal 2 (some 0), .late 0, .go 2, .go 0, .go 0])).map
      fun s => ((s.threads.pc 1).waits, stuck (some 65536) s, rbufIsEmpty s.box)) = some (true, true, true) := by
  decide +kernel

end Runs

end Futils.Dynmbox.Shared
