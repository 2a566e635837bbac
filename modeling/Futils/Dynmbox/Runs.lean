import Futils.Dynmbox.Wakeup

/-!
# What the notifications promise

In a state that is settled no notification is under way.  The pipe then holds one for every
queued message, provided that it has room for as many as there can be messages; and it holds no
other, provided that no peek ever finds it empty (`Races`).  A peek that comes between an enqueue
and its notification does find it empty, and leaves a notification behind without a message.
-/

namespace Futils.Dynmbox

open Futils.Lib

/-- The call that waits and is not signalled. -/
def ProducerPc.waitsFor? : ProducerPc → Option PushCall
  | blocked call => some call
  | _ => none

lemma ProducerPc.waitsFor?_eq_some_iff {pc : ProducerPc} {call : PushCall} :
    pc.waitsFor? = some call ↔ pc = .blocked call := by
  cases pc <;> simp [waitsFor?]

lemma State.Settled.counters_eq {s : State} (h : s.Settled) (q : List Msg) :
    counters s q = ⟨q.length, s.pipe, 0, 0⟩ := by
  have htaken : s.consumer.taken = 0 := by
    cases hc : s.consumer <;> simp_all [State.Settled, ConsumerPc.isIdle, ConsumerPc.taken]
  rw [counters, h.1, htaken]

section Runs

variable {maxMsgSize : ℕ} {calloc : Bool} {malloc : Option (Mem UInt8)} {initNotifyChannel : ℤ}
variable {box : DynMbox} {s : State}

/-! ### Stale notifications -/

/-- **A readable pipe announces a message**, in every run in which no peek finds the pipe empty. -/
theorem not_empty_of_readable
    (hnew : dynmboxNew maxMsgSize calloc malloc initNotifyChannel = some box)
    (hr : Reach (threadStep none) (fun s a => ¬ Races s a) (.init box) s)
    (hsettled : s.Settled) (hpipe : 0 < s.pipe) :
    rbufIsEmpty s.box = false ∧
      ∀ hdr₀ msg, ∃ msglen box' msg', dynmboxPeek s.box hdr₀ (some msg) = some (msglen, box', msg') ∧
        0 ≤ msglen := by
  have hinv : ∃ q, Safe s q ∧ Notify.Balanced (counters s q) := by
    refine hr.invariant (I := fun s => ∃ q, Safe s q ∧ Notify.Balanced (counters s q))
      ⟨[], safe_init hnew, rfl⟩ ?_
    rintro s a s' ⟨q, hsafe, hbal⟩ hok hs
    obtain ⟨q', k, hsafe', hk, hmiss⟩ := threadStep_safe hsafe hs
    exact ⟨q', hsafe', hk.balanced (fun h => hok (hmiss h)) hbal⟩
  obtain ⟨q, hsafe, hbal⟩ := hinv
  rw [hsettled.counters_eq, Notify.Balanced] at hbal
  obtain ⟨m, q', rfl⟩ := List.exists_cons_of_length_pos (l := q) (by simp only at hbal; omega)
  have hne : rbufIsEmpty s.box = false := by
    rw [← Bool.not_eq_true, hsafe.represents.rbufIsEmpty_iff]
    exact List.cons_ne_nil m q'
  refine ⟨hne, ?_⟩
  intro hdr₀ msg
  obtain ⟨box', h₁, -⟩ := doPeek_of_cons hsafe.represents hdr₀ msg
  refine ⟨m.length, box', some (msg.store 0 m), ?_, by omega⟩
  simp only [dynmboxPeek, hne, Bool.false_eq_true, if_false, h₁]

/-- One message, pushed and notified. -/
def pushed : List Act := [.push ⟨false, false, none, 0⟩, .producer, .producer, .producer, .producer]

/-- The pipe of a mailbox with one message. -/
theorem not_empty_of_readable_pushed :
    ∃ s : State, s.pipe = 1 ∧ rbufIsEmpty s.box = false ∧
      ∀ hdr₀ msg, ∃ msglen box' msg', dynmboxPeek s.box hdr₀ (some msg) = some (msglen, box', msg') ∧
        0 ≤ msglen := by
  have hrun : ((exec (threadStep none) (fun s a => ¬ Races s a)
      (.init ⟨10, fun _ => 0, 0, 0, 0⟩) pushed).map fun s => (decide s.Settled, s.pipe)) =
      some (true, 1) := by decide +kernel
  obtain ⟨s, hexec, hs⟩ := Option.map_eq_some_iff.mp hrun
  obtain ⟨hsettled, hpipe⟩ := Prod.mk.inj hs
  have hnew : dynmboxNew 10 true (some fun _ => 0) 0 = some ⟨10, fun _ => 0, 0, 0, 0⟩ := rfl
  exact ⟨s, hpipe, not_empty_of_readable hnew (reach_of_exec hexec) (of_decide_eq_true hsettled)
    (by omega)⟩

/-- A push that has not written its notification yet is overtaken by a peek. -/
def overtaken : List Act :=
  [.push ⟨false, false, some fun _ => 7, 1⟩, .producer, .producer, .producer,
    .peek (fun _ => 0) (fun _ => 0), .consumer, .consumer, .consumer, .consumer, .consumer, .consumer,
    .producer]

/-- The pipe is readable and the mailbox is empty. -/
theorem stale_notification :
    dynmboxNew 10 true (some fun _ => 0) 0 = some ⟨10, fun _ => 0, 0, 0, 0⟩ ∧
      ∃ s, Reach (threadStep none) anyStep (.init ⟨10, fun _ => 0, 0, 0, 0⟩) s ∧ s.Settled ∧
        0 < s.pipe ∧ rbufIsEmpty s.box = true ∧
        ∀ hdr₀ msg, dynmboxPeek s.box hdr₀ (some msg) = some (-EAGAIN, s.box, some msg) := by
  refine ⟨rfl, ?_⟩
  have hrun : ((exec (threadStep none) anyStep (.init ⟨10, fun _ => 0, 0, 0, 0⟩)
      overtaken).map fun s => (decide s.Settled, s.pipe, rbufIsEmpty s.box)) =
      some (true, 1, true) := by decide +kernel
  obtain ⟨s, hexec, hs⟩ := Option.map_eq_some_iff.mp hrun
  obtain ⟨hsettled, hrest⟩ := Prod.mk.inj hs
  obtain ⟨hpipe, hempty⟩ := Prod.mk.inj hrest
  refine ⟨s, reach_of_exec hexec, of_decide_eq_true hsettled, by omega, hempty, ?_⟩
  intro hdr₀ msg
  simp only [dynmboxPeek, hempty, if_true]

/-! ### Lost wake-ups -/

/-- **No wake-up is lost.**  A pipe that holds 16384 bytes holds one for every message of a settled
state; and a producer that waits has no room, unless the consumer is about to signal it. -/
theorem no_lost_wakeup {cap : ℕ} (hcap : 16384 ≤ cap)
    (hnew : dynmboxNew maxMsgSize calloc malloc initNotifyChannel = some box)
    (hr : Reach (threadStep (some cap)) anyStep (.init box) s) :
    ∃ q, Represents s.box q ∧ (s.Settled → q.length ≤ s.pipe) ∧
      (s.Settled → rbufIsEmpty s.box = false → 0 < s.pipe) ∧
      ∀ call, s.producer.waitsFor? = some call → s.consumer.signalDue = false →
        rbufSpaceLeft s.box < call.msgSize + 4 := by
  have hinv : ∃ q, Safe s q ∧ Notify.Covered (counters s q) := by
    refine hr.invariant (I := fun s => ∃ q, Safe s q ∧ Notify.Covered (counters s q))
      ⟨[], safe_init hnew, Nat.le_refl 0⟩ ?_
    rintro s a s' ⟨q, hsafe, hcov⟩ - hs
    obtain ⟨q', k, hsafe', hk, -⟩ := threadStep_safe hsafe hs
    refine ⟨q', hsafe', hk.covered ?_ hcov⟩
    rintro _ ⟨⟩
    have hle : 4 * q.length ≤ 65536 := hsafe.represents.length_le
    simp only [counters]
    omega
  obtain ⟨q, hsafe, hcov⟩ := hinv
  have hle : s.Settled → q.length ≤ s.pipe := fun hsettled => by
    rw [hsettled.counters_eq, Notify.Covered] at hcov
    simpa using hcov
  refine ⟨q, hsafe.represents, hle, fun hsettled hne => ?_, fun call hcall =>
    hsafe.blocked call (ProducerPc.waitsFor?_eq_some_iff.mp hcall)⟩
  have hq : q ≠ [] := by
    rwa [← Bool.not_eq_true, hsafe.represents.rbufIsEmpty_iff] at hne
  exact Nat.lt_of_lt_of_le (List.length_pos_of_ne_nil hq) (hle hsettled)

/-- A mailbox with one message, and a pipe of the usual size. -/
theorem no_lost_wakeup_pushed :
    ∃ s : State, s.Settled ∧ ∃ q, Represents s.box q ∧ (s.Settled → q.length ≤ s.pipe) ∧
      (s.Settled → rbufIsEmpty s.box = false → 0 < s.pipe) ∧
      ∀ call, s.producer.waitsFor? = some call → s.consumer.signalDue = false →
        rbufSpaceLeft s.box < call.msgSize + 4 := by
  have hrun : ((exec (threadStep (some 65536)) anyStep (.init ⟨10, fun _ => 0, 0, 0, 0⟩)
      pushed).map fun s => decide s.Settled) = some true := by decide +kernel
  obtain ⟨s, hexec, hsettled⟩ := Option.map_eq_some_iff.mp hrun
  have hnew : dynmboxNew 10 true (some fun _ => 0) 0 = some ⟨10, fun _ => 0, 0, 0, 0⟩ := rfl
  exact ⟨s, of_decide_eq_true hsettled,
    no_lost_wakeup (by decide : 16384 ≤ 65536) hnew (reach_of_exec hexec)⟩

/-- A peek up to the signal, with a producer that waits for the whole ring. -/
def beforeSignal : List Act :=
  [.push ⟨false, false, none, 0⟩, .producer, .producer, .producer, .producer,
    .push ⟨true, false, some fun _ => 7, 65532⟩, .producer, .producer,
    .peek (fun _ => 0) (fun _ => 0), .consumer, .consumer, .consumer, .consumer]

/-- The producer waits, is not signalled yet, and has room. -/
theorem waits_with_room :
    dynmboxNew 65532 true (some fun _ => 0) 0 = some ⟨65532, fun _ => 0, 0, 0, 0⟩ ∧
      ∃ s, Reach (threadStep (some 65536)) anyStep (.init ⟨65532, fun _ => 0, 0, 0, 0⟩) s ∧
        ∃ call, s.producer.waitsFor? = some call ∧ ¬ rbufSpaceLeft s.box < call.msgSize + 4 := by
  refine ⟨rfl, ?_⟩
  have hrun : ((exec (threadStep (some 65536)) anyStep (.init ⟨65532, fun _ => 0, 0, 0, 0⟩)
      beforeSignal).map fun s => (s.producer.waitsFor?.map PushCall.msgSize, rbufSpaceLeft s.box)) =
      some (some 65532, 65536) := by decide +kernel
  obtain ⟨s, hexec, hs⟩ := Option.map_eq_some_iff.mp hrun
  obtain ⟨hwaits, hleft⟩ := Prod.mk.inj hs
  obtain ⟨call, hcall, hsize⟩ := Option.map_eq_some_iff.mp hwaits
  exact ⟨s, reach_of_exec hexec, call, hcall, by omega⟩

end Runs

end Futils.Dynmbox
