import Futils.Dynmbox.Refine
import Futils.Dynmbox.Threads
import Futils.Lib.Notify

/-!
# Notifications and wake-ups

`Safe` is what holds in every state of the two threads, for the queue that the ring represents:
who has the lock, that a peek that passed the test for emptiness finds a message, and that a
blocked producer has no room unless its signal is due.  Every step keeps it and is a step of the
notification counters (`threadStep_safe`); the claims about the pipe are then those of the
counters.
-/

namespace Futils.Dynmbox

open Futils.Lib Futils.Lib.Notify

/-! ### Where the threads are -/

def ProducerPc.hasLock : ProducerPc → Bool
  | locked _ | enqueued | failing => true
  | _ => false

/-- The call that the producer is in, as long as its message matters. -/
def ProducerPc.call? : ProducerPc → Option PushCall
  | locking call | locked call | blocked call | woken call _ => some call
  | _ => none

def ConsumerPc.hasLock : ConsumerPc → Bool
  | idle | locking _ _ => false
  | _ => true

/-- At `pop_notify`. -/
def ConsumerPc.readsPipe : ConsumerPc → Bool
  | popping _ _ => true
  | _ => false

def Act.isConsumer : Act → Bool
  | consumer => true
  | _ => false

/-- Between the test for emptiness and `do_peek`. -/
def ConsumerPc.foundMsg : ConsumerPc → Bool
  | popping _ _ | dequeuing _ _ => true
  | _ => false

/-- Between the pipe read and `do_peek`. -/
def ConsumerPc.taken : ConsumerPc → ℕ
  | dequeuing _ _ => 1
  | _ => 0

/-- Between `do_peek` and `pthread_cond_signal`. -/
def ConsumerPc.signalDue : ConsumerPc → Bool
  | signalling => true
  | _ => false

attribute [local simp] ProducerPc.pending ProducerPc.hasLock ProducerPc.call? ConsumerPc.taken
  ConsumerPc.hasLock ConsumerPc.foundMsg ConsumerPc.signalDue

def counters (s : State) (q : List Msg) : Counters :=
  ⟨q.length, s.pipe, s.producer.pending, s.consumer.taken⟩

/-- **The invariant of the two threads.** -/
structure Safe (s : State) (q : List Msg) : Prop where
  represents : Represents s.box q
  producer_lock : s.producer.hasLock = true ↔ s.lock = some .producer
  consumer_lock : s.consumer.hasLock = true ↔ s.lock = some .consumer
  found : s.consumer.foundMsg = true → q ≠ []
  legal : ∀ call, s.producer.call? = some call → call.msgSize ≤ s.box.maxMsgSize
  blocked : ∀ call, s.producer = .blocked call → s.consumer.signalDue = false →
    rbufSpaceLeft s.box < call.msgSize + HDR_LEN

lemma safe_init {maxMsgSize : ℕ} {calloc : Bool} {malloc : Option (Mem UInt8)}
    {initNotifyChannel : ℤ} {box : DynMbox}
    (h : dynmboxNew maxMsgSize calloc malloc initNotifyChannel = some box) :
    Safe (.init box) [] where
  represents := (represents_new h).1
  producer_lock := by simp [State.init]
  consumer_lock := by simp [State.init]
  found := by simp [State.init]
  legal := by simp [State.init]
  blocked := by simp [State.init]

/-- The consumer reads the pipe while it is empty: the notification of the message that it found is
not written yet. -/
def Races (s : State) (a : Act) : Prop :=
  a.isConsumer = true ∧ s.consumer.readsPipe = true ∧ s.pipe = 0

instance (s : State) (a : Act) : Decidable (Races s a) := inferInstanceAs (Decidable (_ ∧ _))

section Steps

variable {pipeCap : Option ℕ} {s s' : State} {q : List Msg} {a : Act}

/-- What a step leads to: the invariant holds again, and the counters took a step, which is a miss
only if the step was a race. -/
def Leads (pipeCap : Option ℕ) (s : State) (a : Act) (s' : State) (q : List Msg) : Prop :=
  ∃ q' k, Safe s' q' ∧ Notify.Step pipeCap k (counters s q) (counters s' q') ∧ (k = .miss → Races s a)

/-- The producer moves on and touches neither the ring nor the pipe. -/
lemma Safe.moveProducer (h : Safe s q) {lock : Option Thread} {pc : ProducerPc}
    (hpend : pc.pending = s.producer.pending)
    (hp : pc.hasLock = true ↔ lock = some .producer)
    (hc : s.lock = some .consumer ↔ lock = some .consumer)
    (hl : ∀ call, pc.call? = some call → call.msgSize ≤ s.box.maxMsgSize)
    (hb : ∀ call, pc = .blocked call → rbufSpaceLeft s.box < call.msgSize + HDR_LEN) :
    Leads pipeCap s a { s with lock := lock, producer := pc } q := by
  refine ⟨q, .idle, ⟨h.represents, hp, h.consumer_lock.trans hc, h.found, hl,
    fun call hcall _ => hb call hcall⟩, ?_, nofun⟩
  rw [counters, counters, hpend]
  exact .idle

/-- The consumer moves on and touches neither the ring nor the pipe. -/
lemma Safe.moveConsumer (h : Safe s q) {lock : Option Thread} {pc : ConsumerPc}
    (htaken : pc.taken = s.consumer.taken)
    (hc : pc.hasLock = true ↔ lock = some .consumer)
    (hp : s.lock = some .producer ↔ lock = some .producer)
    (hf : pc.foundMsg = true → q ≠ []) (hd : s.consumer.signalDue = false) :
    Leads pipeCap s a { s with lock := lock, consumer := pc } q := by
  refine ⟨q, .idle, ⟨h.represents, h.producer_lock.trans hp, hc, hf, h.legal,
    fun call hcall _ => h.blocked call hcall hd⟩, ?_, nofun⟩
  rw [counters, counters, htaken]
  exact .idle

/-! ### The producer -/

/-- **The enqueue**: there is room for the message and it is queued, or the ring stays as it is. -/
lemma Safe.doPush {call : PushCall} (h : Safe s q) (hpc : s.producer = .locked call)
    {res : ℤ} {box : DynMbox}
    (hs : doPush s.box (call.msg.getD fun _ => 0) call.msgSize = some (res, box)) :
    (res = 0 ∧ ∃ m, Safe { s with box := box, producer := .enqueued } (q ++ [m])) ∨
      (res ≠ 0 ∧ box = s.box) := by
  have hlock : s.producer.hasLock = true := by rw [hpc]; rfl
  have hsize : call.msgSize ≤ s.box.maxMsgSize := h.legal call (by rw [hpc]; rfl)
  by_cases hroom : BoundedFifo.weight cost q + (HDR_LEN + call.msgSize) ≤ ALLOCATED_LEN
  · obtain ⟨box', h₁, h₂, -⟩ := doPush_of_room h.represents (call.msg.getD fun _ => 0) hsize hroom
    obtain ⟨rfl, rfl⟩ := Prod.mk.inj (Option.some.inj (hs.symm.trans h₁))
    refine .inl ⟨rfl, _, h₂, ?_, h.consumer_lock, ?_, ?_, ?_⟩
    · exact iff_of_true rfl (h.producer_lock.mp hlock)
    · simp
    · simp
    · simp
  · rw [doPush_of_full h.represents _ (by omega)] at hs
    obtain ⟨rfl, rfl⟩ := Prod.mk.inj (Option.some.inj hs)
    exact .inr ⟨by decide, rfl⟩

/-- **The notification** is written, or lost to a full pipe. -/
lemma Safe.pushNotify (h : Safe s q) (hpc : s.producer = .notifying)
    (hs : producerStep pipeCap s = some s') : Leads pipeCap s a s' q := by
  have hfree := h.producer_lock
  have hsafe : ∀ pipe, Safe ⟨s.box, s.lock, pipe, .idle, s.consumer⟩ q := fun pipe =>
    ⟨h.represents, by rw [← hfree, hpc]; simp, h.consumer_lock, h.found, by simp, by simp⟩
  simp only [producerStep, hpc] at hs
  cases hcap : pipeCap with
  | none =>
    simp only [hcap] at hs
    obtain rfl := Option.some.inj hs
    refine ⟨q, .notify, hsafe _, ?_, nofun⟩
    rw [counters, counters, hpc]
    exact .notify
  | some n =>
    simp only [hcap] at hs
    split_ifs at hs with hroom
    · obtain rfl := Option.some.inj hs
      refine ⟨q, .notify, hsafe _, ?_, nofun⟩
      rw [counters, counters, hpc]
      exact .notify
    · obtain rfl := Option.some.inj hs
      refine ⟨q, .drop, hsafe _, ?_, nofun⟩
      rw [counters, counters, hpc]
      exact .drop ⟨n, rfl, Nat.not_lt.mp hroom⟩

theorem producerStep_safe (h : Safe s q) (hs : producerStep pipeCap s = some s') :
    Leads pipeCap s a s' q := by
  have hpl := h.producer_lock
  have hlegal := h.legal
  cases hpc : s.producer with
  | notifying => exact h.pushNotify hpc hs
  | idle => simp [producerStep, hpc] at hs
  | blocked call => simp [producerStep, hpc] at hs
  | locking call =>
    simp only [producerStep, hpc] at hs hlegal
    split_ifs at hs with hfree
    obtain rfl := Option.some.inj hs
    exact h.moveProducer (by simp [hpc]) (by simp)
      (by simp [hfree]) hlegal (by simp)
  | locked call =>
    have hlock : s.lock = some .producer := hpl.mp (by rw [hpc]; rfl)
    simp only [producerStep, hpc] at hs hlegal
    split at hs
    case isTrue hfull =>
      obtain rfl := Option.some.inj hs
      refine h.moveProducer (by simp [hpc]) (by simp)
        (by simp [hlock]) hlegal ?_
      rintro _ ⟨⟩
      exact hfull.2
    case isFalse =>
      cases hpush : doPush s.box (call.msg.getD fun _ => 0) call.msgSize with
      | none => simp [hpush] at hs
      | some r =>
        obtain ⟨res, box⟩ := r
        simp only [hpush] at hs
        rcases h.doPush hpc hpush with ⟨rfl, m, hsafe⟩ | ⟨hres, rfl⟩
        · obtain rfl := Option.some.inj hs
          refine ⟨q ++ [m], .enqueue, hsafe, ?_, nofun⟩
          rw [counters, counters, hpc, List.length_append]
          exact .enqueue
        · rw [if_neg hres] at hs
          split at hs
          case isTrue => cases hs
          case isFalse =>
            obtain rfl := Option.some.inj hs
            exact h.moveProducer (by simp [hpc]) (by simp [hlock]) Iff.rfl (by simp) (by simp)
  | woken call res =>
    simp only [producerStep, hpc] at hs hlegal
    split_ifs at hs with hfree hres
    all_goals obtain rfl := Option.some.inj hs
    · exact h.moveProducer (by simp [hpc]) (by simp)
        (by simp [hfree]) hlegal (by simp)
    · exact h.moveProducer (by simp [hpc]) (by simp) (by simp [hfree]) (by simp) (by simp)
  | enqueued =>
    have hlock : s.lock = some .producer := hpl.mp (by rw [hpc]; rfl)
    simp only [producerStep, hpc] at hs
    obtain rfl := Option.some.inj hs
    exact h.moveProducer (by simp [hpc]) (by simp) (by simp [hlock]) (by simp) (by simp)
  | failing =>
    have hlock : s.lock = some .producer := hpl.mp (by rw [hpc]; rfl)
    simp only [producerStep, hpc] at hs
    obtain rfl := Option.some.inj hs
    exact h.moveProducer (by simp [hpc]) (by simp) (by simp [hlock]) (by simp) (by simp)

/-! ### The consumer -/

/-- **The dequeue**: after the test for emptiness `do_peek` finds a message. -/
lemma Safe.doPeek (h : Safe s q) {hdr₀ msg : Mem UInt8} (hpc : s.consumer = .dequeuing hdr₀ msg)
    (hs : consumerStep s = some s') : Leads pipeCap s a s' q := by
  have hlock := h.consumer_lock.mp (by rw [hpc]; rfl)
  obtain ⟨m, q', rfl⟩ := List.exists_cons_of_ne_nil (h.found (by rw [hpc]; rfl))
  obtain ⟨box, h₁, h₂, hmax⟩ := doPeek_of_cons h.represents hdr₀ msg
  simp only [consumerStep, hpc, h₁] at hs
  rw [if_neg (by omega)] at hs
  obtain rfl := Option.some.inj hs
  refine ⟨q', .dequeue, ⟨h₂, h.producer_lock, ?_, ?_, ?_, ?_⟩, ?_, nofun⟩
  · exact iff_of_true rfl hlock
  · simp
  · intro call hcall
    simp only [hmax]
    exact h.legal call hcall
  · simp
  · rw [counters, counters, hpc, List.length_cons]
    exact .dequeue

/-- **The read of the pipe** takes a notification, or is a race. -/
lemma Safe.popNotify (h : Safe s q) {hdr₀ msg : Mem UInt8} (hpc : s.consumer = .popping hdr₀ msg)
    (hs : consumerStep s = some s') : Leads pipeCap s .consumer s' q := by
  have hlock := h.consumer_lock.mp (by rw [hpc]; rfl)
  have hfound := h.found (by rw [hpc]; rfl)
  simp only [consumerStep, hpc] at hs
  obtain rfl := Option.some.inj hs
  have hsafe : Safe { s with pipe := s.pipe - 1, consumer := .dequeuing hdr₀ msg } q :=
    ⟨h.represents, h.producer_lock, iff_of_true rfl hlock, fun _ => hfound, h.legal,
      fun call hcall _ => h.blocked call hcall (by rw [hpc]; rfl)⟩
  rcases Nat.eq_zero_or_pos s.pipe with hzero | hpos
  · refine ⟨q, .miss, hsafe, ?_, fun _ => ⟨rfl, by rw [hpc]; rfl, hzero⟩⟩
    rw [counters, counters, hpc, hzero]
    exact .miss
  · refine ⟨q, .take, hsafe, ?_, nofun⟩
    obtain ⟨t, ht⟩ := Nat.exists_eq_add_of_lt hpos
    rw [Nat.zero_add] at ht
    rw [counters, counters, hpc, ht]
    exact .take

/-- **The signal** wakes the producer up, if it waits. -/
lemma Safe.condSignal (h : Safe s q) (hpc : s.consumer = .signalling)
    (hs : consumerStep s = some s') : Leads pipeCap s a s' q := by
  have hlock := h.consumer_lock.mp (by rw [hpc]; rfl)
  have hpl := h.producer_lock
  have hlegal := h.legal
  -- a waiting producer moves on, any other stays where it is
  cases hprod : s.producer with
  | _ =>
    simp only [consumerStep, hpc, hprod] at hs hpl hlegal
    obtain rfl := Option.some.inj hs
    refine ⟨q, .idle, ⟨h.represents, hpl, iff_of_true rfl hlock, ?_, hlegal, by simp⟩, ?_, nofun⟩
    · simp
    · rw [counters, counters, hpc, hprod]
      exact .idle

theorem consumerStep_safe (h : Safe s q) (hs : consumerStep s = some s') :
    Leads pipeCap s .consumer s' q := by
  have hcl := h.consumer_lock
  cases hpc : s.consumer with
  | popping hdr₀ msg => exact h.popNotify hpc hs
  | dequeuing hdr₀ msg => exact h.doPeek hpc hs
  | signalling => exact h.condSignal hpc hs
  | idle => simp [consumerStep, hpc] at hs
  | locking hdr₀ msg =>
    simp only [consumerStep, hpc] at hs
    split_ifs at hs with hfree
    obtain rfl := Option.some.inj hs
    exact h.moveConsumer (by simp [hpc]) (by simp) (by simp [hfree]) (by simp) (by simp [hpc])
  | locked hdr₀ msg =>
    have hlock : s.lock = some .consumer := hcl.mp (by rw [hpc]; rfl)
    simp only [consumerStep, hpc] at hs
    split_ifs at hs with hempty
    all_goals obtain rfl := Option.some.inj hs
    · exact h.moveConsumer (by simp [hpc]) (by simp [hlock]) Iff.rfl (by simp) (by simp [hpc])
    · refine h.moveConsumer (by simp [hpc]) (by simp [hlock]) Iff.rfl (fun _ => ?_) (by simp [hpc])
      rwa [h.represents.rbufIsEmpty_iff] at hempty
  | unlocking =>
    have hlock : s.lock = some .consumer := hcl.mp (by rw [hpc]; rfl)
    simp only [consumerStep, hpc] at hs
    obtain rfl := Option.some.inj hs
    exact h.moveConsumer (by simp [hpc]) (by simp) (by simp [hlock]) (by simp) (by simp [hpc])

/-! ### The two together -/

/-- **One step of the two threads.** -/
theorem threadStep_safe (h : Safe s q) (hs : threadStep pipeCap s a = some s') :
    Leads pipeCap s a s' q := by
  have hpl := h.producer_lock
  have hcl := h.consumer_lock
  have hlegal := h.legal
  cases a with
  | producer => exact producerStep_safe h hs
  | consumer => exact consumerStep_safe h hs
  | push call =>
    cases hpc : s.producer <;> simp only [threadStep, hpc, reduceCtorEq] at hs
    split at hs
    case isTrue =>
      obtain rfl := Option.some.inj hs
      exact ⟨q, .idle, h, .idle, nofun⟩
    case isFalse hgood =>
      obtain rfl := Option.some.inj hs
      rw [badMsg_iff, not_not] at hgood
      refine h.moveProducer (by simp [hpc]) ?_ Iff.rfl ?_ (by simp)
      · rw [← hpl, hpc]
        simp
      · rintro _ ⟨⟩
        exact hgood.1
  | timeout =>
    cases hpc : s.producer <;> simp only [threadStep, hpc, reduceCtorEq] at hs hlegal
    split_ifs at hs with htimed
    obtain rfl := Option.some.inj hs
    refine h.moveProducer (by simp [hpc]) ?_ Iff.rfl hlegal (by simp)
    rw [← hpl, hpc]
    simp
  | spurious =>
    cases hpc : s.producer <;> simp only [threadStep, hpc, reduceCtorEq] at hs hlegal
    obtain rfl := Option.some.inj hs
    refine h.moveProducer (by simp [hpc]) ?_ Iff.rfl hlegal (by simp)
    rw [← hpl, hpc]
    simp
  | peek hdr₀ msg =>
    cases hpc : s.consumer <;> simp only [threadStep, hpc, reduceCtorEq] at hs
    obtain rfl := Option.some.inj hs
    refine h.moveConsumer (by simp [hpc]) ?_ Iff.rfl (by simp) (by simp [hpc])
    rw [← hcl, hpc]
    simp

end Steps

end Futils.Dynmbox
