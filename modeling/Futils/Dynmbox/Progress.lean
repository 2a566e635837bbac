import Futils.Dynmbox.Wakeup

/-!
# The threads come to rest

As long as no function is called, no deadline passes and no wait ends by itself, the threads make at most
`rank` steps, in whatever order they come.  No assertion fails on the way, so that a thread that cannot go on is
outside of the functions, or waits: then it waits for room, and the mailbox announces a message to the consumer.
-/

namespace Futils.Dynmbox

open Futils.Lib Futils.Lib.Notify

/-- How many steps the producer is from the end of its call, or from a wait. -/
def ProducerPc.rank : ProducerPc → ℕ
  | idle | blocked _ => 0
  | notifying | failing => 1
  | enqueued => 2
  | locked _ => 3
  | locking _ | woken _ _ => 4

def ConsumerPc.rank : ConsumerPc → ℕ
  | idle => 0
  | unlocking => 1
  | signalling => 2
  | dequeuing _ _ => 3
  | popping _ _ => 4
  | locked _ _ => 5
  | locking _ _ => 6

/-- The producer waits. -/
def ProducerPc.waits : ProducerPc → Bool
  | blocked _ => true
  | _ => false

/-- A step of the consumer may wake the producer up, which then has four steps to go. -/
def State.rank (s : State) : ℕ := 5 * s.consumer.rank + s.producer.rank

section Progress

variable {pipeCap : Option ℕ} {s s' : State} {q : List Msg} {a : Act}

lemma State.rank_le (s : State) : s.rank ≤ 34 := by
  have hp : s.producer.rank ≤ 4 := by cases s.producer <;> simp [ProducerPc.rank]
  have hc : s.consumer.rank ≤ 6 := by cases s.consumer <;> simp [ConsumerPc.rank]
  unfold rank
  omega

lemma producerStep_rank (hs : producerStep pipeCap s = some s') : s'.rank < s.rank := by
  unfold producerStep at hs
  unfold State.rank
  cases hpc : s.producer with
  | idle => simp [hpc] at hs
  | blocked call => simp [hpc] at hs
  | locked call =>
    simp only [hpc] at hs
    split at hs
    · obtain rfl := Option.some.inj hs
      simp [ProducerPc.rank]
    split at hs
    · cases hs
    split_ifs at hs
    all_goals
      obtain rfl := Option.some.inj hs
      simp [ProducerPc.rank]
  | notifying =>
    simp only [hpc] at hs
    split at hs
    · obtain rfl := Option.some.inj hs
      simp [ProducerPc.rank]
    split_ifs at hs
    all_goals
      obtain rfl := Option.some.inj hs
      simp [ProducerPc.rank]
  | _ =>
    simp only [hpc] at hs
    try split_ifs at hs
    all_goals
      obtain rfl := Option.some.inj hs
      simp [ProducerPc.rank]

lemma consumerStep_rank (hs : consumerStep s = some s') : s'.rank < s.rank := by
  unfold consumerStep at hs
  unfold State.rank
  cases hpc : s.consumer with
  | idle => simp [hpc] at hs
  | signalling =>
    simp only [hpc] at hs
    cases hprod : s.producer with
    | _ =>
      simp only [hprod] at hs
      obtain rfl := Option.some.inj hs
      simp [ConsumerPc.rank, ProducerPc.rank]
  | dequeuing hdr₀ msg =>
    simp only [hpc] at hs
    split at hs
    · cases hs
    split_ifs at hs
    all_goals
      obtain rfl := Option.some.inj hs
      simp [ConsumerPc.rank]
  | _ =>
    simp only [hpc] at hs
    try split_ifs at hs
    all_goals
      obtain rfl := Option.some.inj hs
      simp [ConsumerPc.rank]

/-- A step by which a thread goes on. -/
def GoesOn (_ : State) : Act → Prop
  | .producer | .consumer => True
  | _ => False

instance (s : State) : DecidablePred (GoesOn s)
  | .producer => .isTrue trivial
  | .consumer => .isTrue trivial
  | .push _ => .isFalse id
  | .timeout => .isFalse id
  | .spurious => .isFalse id
  | .peek _ _ => .isFalse id

lemma goesOn_rank (hgo : GoesOn s a) (hs : threadStep pipeCap s a = some s') : s'.rank < s.rank := by
  cases a with
  | producer => exact producerStep_rank hs
  | consumer => exact consumerStep_rank hs
  | _ => cases hgo

/-! ### Where a thread can stop -/

/-- **The producer goes on**, unless it is outside of the functions, it waits, or the lock is taken: no
assertion fails. -/
lemma Safe.producer_stops (h : Safe s q) (hs : producerStep pipeCap s = none) :
    s.producer = .idle ∨ (∃ call, s.producer = .blocked call) ∨
      s.producer.hasLock = false ∧ s.lock ≠ none := by
  cases hpc : s.producer with
  | idle => exact .inl rfl
  | blocked call => exact .inr (.inl ⟨call, rfl⟩)
  | locking call =>
    unfold producerStep at hs
    simp only [hpc] at hs
    split_ifs at hs with hfree
    exact .inr (.inr ⟨rfl, hfree⟩)
  | woken call res =>
    unfold producerStep at hs
    simp only [hpc] at hs
    split_ifs at hs with hfree
    exact .inr (.inr ⟨rfl, hfree⟩)
  | locked call =>
    unfold producerStep at hs
    simp only [hpc] at hs
    split at hs
    · cases hs
    rename_i hroom
    have hsize := h.legal call (by rw [hpc]; rfl)
    have hused := h.represents.used_eq
    have hle := h.represents.holds.used_le
    by_cases hfits : BoundedFifo.weight cost q + (HDR_LEN + call.msgSize) ≤ ALLOCATED_LEN
    · obtain ⟨box, hpush, -⟩ := doPush_of_room h.represents (call.msg.getD fun _ => 0) hsize hfits
      rw [hpush] at hs
      cases hs
    · have hnot : call.block = false := by
        rw [← Bool.not_eq_true]
        intro hblock
        refine hroom ⟨hblock, ?_⟩
        unfold rbufSpaceLeft
        omega
      rw [doPush_of_full h.represents _ (by omega)] at hs
      simp [hnot] at hs
  | notifying =>
    unfold producerStep at hs
    simp only [hpc] at hs
    split at hs
    · cases hs
    · split_ifs at hs
  | enqueued =>
    unfold producerStep at hs
    simp [hpc] at hs
  | failing =>
    unfold producerStep at hs
    simp [hpc] at hs

/-- **The consumer goes on**, unless it is outside of the function or the lock is taken. -/
lemma Safe.consumer_stops (h : Safe s q) (hs : consumerStep s = none) :
    s.consumer = .idle ∨ s.consumer.hasLock = false ∧ s.lock ≠ none := by
  unfold consumerStep at hs
  cases hpc : s.consumer with
  | idle => exact .inl rfl
  | locking hdr₀ msg =>
    simp only [hpc] at hs
    split_ifs at hs with hfree
    exact .inr ⟨rfl, hfree⟩
  | dequeuing hdr₀ msg =>
    obtain ⟨m, q', rfl⟩ := List.exists_cons_of_ne_nil (h.found (by rw [hpc]; rfl))
    obtain ⟨box, hpeek, -⟩ := doPeek_of_cons h.represents hdr₀ msg
    simp only [hpc, hpeek] at hs
    split_ifs at hs
  | locked hdr₀ msg =>
    simp only [hpc] at hs
    split_ifs at hs
  | popping hdr₀ msg => simp [hpc] at hs
  | unlocking => simp [hpc] at hs
  | signalling =>
    simp only [hpc] at hs
    split at hs <;> cases hs

/-- Nothing moves: the consumer is outside of the function, and the producer is too or waits. -/
lemma Safe.at_rest (h : Safe s q) (hp : producerStep pipeCap s = none) (hc : consumerStep s = none) :
    s.lock = none ∧ s.consumer = .idle ∧ (s.producer = .idle ∨ ∃ call, s.producer = .blocked call) := by
  have hfree : s.lock = none := by
    rcases hlock : s.lock with _ | _ | _
    · rfl
    · have hhas := h.producer_lock.mpr hlock
      rcases h.producer_stops hp with hidle | ⟨call, hblocked⟩ | ⟨hnot, -⟩
      · rw [hidle] at hhas
        cases hhas
      · rw [hblocked] at hhas
        cases hhas
      · rw [hnot] at hhas
        cases hhas
    · have hhas := h.consumer_lock.mpr hlock
      rcases h.consumer_stops hc with hidle | ⟨hnot, -⟩
      · rw [hidle] at hhas
        cases hhas
      · rw [hnot] at hhas
        cases hhas
  refine ⟨hfree, ?_, ?_⟩
  · exact (h.consumer_stops hc).resolve_right fun hlocked => hlocked.2 hfree
  · rcases h.producer_stops hp with hidle | hblocked | ⟨-, htaken⟩
    · exact .inl hidle
    · exact .inr hblocked
    · exact absurd hfree htaken

end Progress

/-! ### The two threads together -/

/-- A producer that waits does so for a consumer to peek: the descriptor is readable, and the peek returns a
message. -/
structure AtRest (s : State) : Prop where
  lock : s.lock = none
  consumer : s.consumer = .idle
  producer : s.producer = .idle ∨ (∃ call, s.producer = .blocked call) ∧ 0 < s.pipe ∧
    ∀ hdr₀ msg, ∃ msglen box msg', dynmboxPeek s.box hdr₀ (some msg) = some (msglen, box, msg') ∧ 0 ≤ msglen

/-- A waiting producer has no room, so that there is a message. -/
lemma Safe.ne_nil_of_blocked {s : State} {q : List Msg} {call : PushCall} (h : Safe s q)
    (hblocked : s.producer = .blocked call) (hidle : s.consumer = .idle) : q ≠ [] := by
  rintro rfl
  have hleft := h.blocked call hblocked (by rw [hidle]; rfl)
  have hsize := h.legal call (by rw [hblocked]; rfl)
  have hmax : s.box.maxMsgSize ≤ 65532 := h.represents.maxMsgSize_le
  have hused : s.box.used = 0 := h.represents.used_eq
  have hspace : rbufSpaceLeft s.box = 65536 := by
    unfold rbufSpaceLeft
    rw [hused]
    rfl
  have hhdr : HDR_LEN = 4 := rfl
  omega

lemma Safe.atRest {s : State} {q : List Msg} {cap : ℕ} (h : Safe s q) (hcov : Notify.Covered (counters s q))
    (hp : producerStep (some cap) s = none) (hc : consumerStep s = none) : AtRest s := by
  obtain ⟨hlock, hidle, hprod⟩ := h.at_rest hp hc
  refine ⟨hlock, hidle, hprod.imp_right ?_⟩
  rintro ⟨call, hblocked⟩
  obtain ⟨m, q', rfl⟩ := List.exists_cons_of_ne_nil (h.ne_nil_of_blocked hblocked hidle)
  refine ⟨⟨call, hblocked⟩, ?_, fun hdr₀ msg => ?_⟩
  · unfold Notify.Covered counters at hcov
    rw [hblocked, hidle] at hcov
    simp only [List.length_cons, ProducerPc.pending, ConsumerPc.taken] at hcov
    omega
  · obtain ⟨box, hpeek, -⟩ := doPeek_of_cons h.represents hdr₀ msg
    have hne : rbufIsEmpty s.box = false := by
      rw [← Bool.not_eq_true, h.represents.rbufIsEmpty_iff]
      exact List.cons_ne_nil m q'
    refine ⟨m.length, box, some (msg.store 0 m), ?_, Int.natCast_nonneg _⟩
    simp only [dynmboxPeek, hne, Bool.false_eq_true, if_false, hpeek]

/-- There is a notification for every message, in every state reached. -/
lemma exists_covered {maxMsgSize cap : ℕ} {calloc : Bool} {malloc : Option (Mem UInt8)} {initNotifyChannel : ℤ}
    {box : DynMbox} {s : State} (hcap : 16384 ≤ cap)
    (hnew : dynmboxNew maxMsgSize calloc malloc initNotifyChannel = some box)
    (hr : Reach (threadStep (some cap)) anyStep (.init box) s) :
    ∃ q, Safe s q ∧ Notify.Covered (counters s q) := by
  refine hr.invariant (I := fun s => ∃ q, Safe s q ∧ Notify.Covered (counters s q))
    ⟨[], safe_init hnew, Nat.le_refl 0⟩ ?_
  rintro s a s' ⟨q, hsafe, hcov⟩ - hs
  obtain ⟨q', k, hsafe', hk, -⟩ := threadStep_safe hsafe hs
  refine ⟨q', hsafe', hk.covered ?_ hcov⟩
  rintro _ ⟨⟩
  have hle : 4 * q.length ≤ 65536 := hsafe.represents.length_le
  simp only [counters]
  omega

/-- **The threads do not get stuck.**  From every state reached they make at most 34 steps on their own, in any
order; and when none can go on, the calls have returned, or the producer waits for a peek that the descriptor
announces and that succeeds. -/
theorem comes_to_rest {maxMsgSize cap : ℕ} {calloc : Bool} {malloc : Option (Mem UInt8)}
    {initNotifyChannel : ℤ} {box : DynMbox} {s s' : State} {acts : List Act} (hcap : 16384 ≤ cap)
    (hnew : dynmboxNew maxMsgSize calloc malloc initNotifyChannel = some box)
    (hr : Reach (threadStep (some cap)) anyStep (.init box) s)
    (hexec : exec (threadStep (some cap)) GoesOn s acts = some s') :
    acts.length ≤ 34 ∧ (producerStep (some cap) s' = none → consumerStep s' = none → AtRest s') := by
  constructor
  · have hle := length_add_rank_le (fun _ _ _ => goesOn_rank) hexec
    have hrank := s.rank_le
    omega
  · intro hp hc
    have hgo : Reach (threadStep (some cap)) anyStep s s' := (reach_of_exec hexec).mono fun _ _ _ => trivial
    obtain ⟨q, hsafe, hcov⟩ := exists_covered hcap hnew (hr.trans hgo)
    exact hsafe.atRest hcov hp hc

/-- A message of no bytes, and the call of a push that needs the whole ring. -/
def fullCall : List Act :=
  [.push ⟨false, false, none, 0⟩, .producer, .producer, .producer, .producer,
    .push ⟨true, false, some fun _ => 7, 65532⟩]

/-- The producer takes two steps and waits. -/
theorem comes_to_rest_fullCall :
    ∃ s s', exec (threadStep (some 65536)) anyStep (.init ⟨65532, fun _ => 0, 0, 0, 0⟩) fullCall = some s ∧
      exec (threadStep (some 65536)) GoesOn s [.producer, .producer] = some s' ∧ s'.producer ≠ .idle ∧
      AtRest s' := by
  have hrun : ((exec (threadStep (some 65536)) anyStep (.init ⟨65532, fun _ => 0, 0, 0, 0⟩) fullCall).bind
      fun s => (exec (threadStep (some 65536)) GoesOn s [.producer, .producer]).map fun s' =>
        (s'.producer.waits, (producerStep (some 65536) s').isNone, (consumerStep s').isNone)) =
      some (true, true, true) := by decide +kernel
  obtain ⟨s, hs, hrest⟩ := Option.bind_eq_some_iff.mp hrun
  obtain ⟨s', hexec, hends⟩ := Option.map_eq_some_iff.mp hrest
  simp only [Prod.mk.injEq, Option.isNone_iff_eq_none] at hends
  obtain ⟨hwaits, hp, hc⟩ := hends
  have hnew : dynmboxNew 65532 true (some fun _ => 0) 0 = some ⟨65532, fun _ => 0, 0, 0, 0⟩ := rfl
  refine ⟨s, s', hs, hexec, ?_, (comes_to_rest (by decide) hnew (reach_of_exec hs) hexec).2 hp hc⟩
  intro hidle
  rw [hidle] at hwaits
  cases hwaits

end Futils.Dynmbox
