import Futils.Mbox.Posix
import Mathlib.Tactic.Cases

/-!
# The calls on a mailbox, in any order of the threads' steps

A call takes effect in its last step: the write or the read after which it returns.  So the calls, in the
order in which they return, are those of a queue of messages, whatever the threads do between.  What `poll`
promises to `mbox_push_block` holds until the next write, which is its own when no other thread pushes.
-/

namespace Futils.Mbox.Posix

open Futils.Lib

variable {ι : Type} [DecidableEq ι] {b : MBox} {s s' : Sys ι} {a : Act ι} {p : ι}

lemma MBox.msgSize_pos (b : MBox) : 0 < b.msgSize := by
  have h := b.size
  unfold badSize at h
  omega

lemma MBox.msgSize_le (b : MBox) : b.msgSize ≤ b.limits.atomic := by
  have h := b.size
  unfold badSize at h
  omega

/-! ### What a step does -/

/-- A call that is refused before the mailbox is used. -/
inductive Invalid : Call → Prop
  | push : Invalid (.push none)
  | pushBlock {msg timeoutMs} : msg = none ∨ INT_MAX < timeoutMs.toNat → Invalid (.pushBlock msg timeoutMs)
  | peek : Invalid (.peek none)

/-- Where the functions start otherwise. -/
inductive Starts : Call → Pc → Prop
  | push {msg} : Starts (.push (some msg)) (.writing (.push (some msg)) msg)
  | pushBlock {msg timeoutMs} : timeoutMs.toNat ≤ INT_MAX →
      Starts (.pushBlock (some msg) timeoutMs) (.polling msg timeoutMs)
  | peek {msg} : Starts (.peek (some msg)) (.reading msg)

/-- All that a step can do. -/
inductive Does (b : MBox) (s : Sys ι) : Act ι → Sys ι → Prop
  | invalid {i call} : Invalid call → Does b s (.call i call) (s.finish i call (-EINVAL) [])
  | starts {i call pc} : Starts call pc → Does b s (.call i call) (s.goto i pc)
  /-- A signal interrupts `poll`, `write` or `read`. -/
  | again {act} : Does b s act s
  | pollFails {i msg timeoutMs poll ret} : s.pc i = .polling msg timeoutMs → ret < 0 → ret ≠ -EINTR →
      Answers (some msg) timeoutMs ret →
      Does b s (.poll i poll) (s.finish i (.pushBlock (some msg) timeoutMs) ret [])
  | ready {i msg timeoutMs poll pipe} : s.pc i = .polling msg timeoutMs →
      s.pipe.writable b.limits = some pipe →
      Does b s (.poll i poll) ({ s with pipe := pipe }.goto i (.writing (.pushBlock (some msg) timeoutMs) msg))
  | wrote {i call msg k pipe} : s.pc i = .writing call msg →
      s.pipe.write b.limits (msg.load 0 b.msgSize) (.moved k : Io) = some pipe →
      Does b s (.write i (.moved k)) ({ s with pipe := pipe }.finish i call 0 [])
  | writeFails {i call msg} {io : Io} : s.pc i = .writing call msg → (∀ k, io ≠ .moved k) → io.errno ≠ EINTR →
      s.pipe.write b.limits (msg.load 0 b.msgSize) io = some s.pipe →
      Does b s (.write i io) (s.finish i call (-io.errno) [])
  | took {i msg k got pipe} : s.pc i = .reading msg → 0 < k →
      s.pipe.read b.msgSize (.moved k : Io) = some (got, pipe) →
      Does b s (.read i (.moved k)) ({ s with pipe := pipe }.finish i (.peek (some msg)) 0 got)
  | readFails {i msg got} {io : Io} : s.pc i = .reading msg → (∀ k, io ≠ .moved k) → io.errno ≠ EINTR →
      s.pipe.read b.msgSize io = some (got, s.pipe) →
      Does b s (.read i io) (s.finish i (.peek (some msg)) (-io.errno) got)

/-- The three functions' checks. -/
lemma does_call (i : ι) (call : Call) : Does b s (.call i call) (callStep s i call) := by
  cases call with
  | push msg =>
    cases msg with
    | none => exact .invalid .push
    | some msg => exact .starts .push
  | pushBlock msg timeoutMs =>
    cases msg with
    | none => exact .invalid (.pushBlock (.inl rfl))
    | some msg =>
      unfold callStep
      dsimp only
      split_ifs with htimeout
      · exact .invalid (.pushBlock (.inr htimeout))
      · exact .starts (.pushBlock (not_lt.mp htimeout))
  | peek msg =>
    cases msg with
    | none => exact .invalid .peek
    | some msg => exact .starts .peek

lemma neg_errno_lt (e : Errno) : -(e.1 : ℤ) < 0 := Int.neg_neg_of_pos (Int.natCast_pos.mpr e.2.1)

lemma Io.errno_pos {io : Io} (hio : ∀ k, io ≠ .moved k) : 0 < io.errno := by
  cases io with
  | moved k => exact absurd rfl (hio k)
  | wouldBlock => decide
  | failed e => exact Int.natCast_pos.mpr e.2.1

lemma Io.ret_of_not_moved {io : Io} (hio : ∀ k, io ≠ .moved k) : io.ret = -1 := by
  cases io with
  | moved k => exact absurd rfl (hio k)
  | wouldBlock => rfl
  | failed e => rfl

/-! Each of the functions makes a call again that a signal interrupted, and returns the other errors. -/

lemma mboxPush_failed (errno : ℤ) :
    mboxPush (-1) errno = if errno = EINTR then .again else .finish (-errno) := by
  simp [mboxPush]

lemma mboxPushBlock_failed (errno : ℤ) :
    mboxPushBlock (-1) errno = if errno = EINTR then .again else .finish (-errno) := by
  simp [mboxPushBlock]

lemma mboxPeek_failed (errno : ℤ) :
    mboxPeek (-1) errno = if errno = EINTR then .again else .finish (-errno) := by
  simp [mboxPeek]

lemma mboxPush_moved (k : ℕ) : mboxPush (Io.ret (.moved k)) (Io.errno (.moved k)) = .finish 0 := by
  have hpos : ¬ (k : ℤ) < 0 := by omega
  have hne : (k : ℤ) ≠ -1 := by omega
  simp [mboxPush, Io.ret, hpos, hne]

lemma mboxPeek_moved {k : ℕ} (hk : 0 < k) :
    mboxPeek (Io.ret (.moved k)) (Io.errno (.moved k)) = .finish 0 := by
  have hpos : ¬ (k : ℤ) < 0 := by omega
  have hne : (k : ℤ) ≠ -1 := by omega
  have hzero : k ≠ 0 := by omega
  simp [mboxPeek, Io.ret, hpos, hne, hzero]

/-- `mbox_push_block` after `poll` -/
lemma does_poll {i : ι} {msg : Mem UInt8} {timeoutMs : UInt32} {poll : Poll}
    (hpc : s.pc i = .polling msg timeoutMs) (h : pollStep b s i msg timeoutMs poll = some s') :
    Does b s (.poll i poll) s' := by
  unfold pollStep at h
  obtain ⟨pipe, hpipe, rfl⟩ := Option.map_eq_some_iff.mp h
  cases poll with
  | ready => exact .ready hpc hpipe
  | timedOut =>
    dsimp only at hpipe
    split_ifs at hpipe with htimeout
    obtain rfl := Option.some.inj hpipe
    refine .pollFails hpc (by decide) (by decide) (.timedOut ?_)
    rintro rfl
    exact absurd htimeout (by decide)
  | failed e =>
    obtain rfl := Option.some.inj hpipe
    have hturn : mboxPushBlock (Poll.failed e).ret (Poll.failed e).errno = _ := mboxPushBlock_failed e.1
    rw [hturn]
    by_cases hintr : (e.1 : ℤ) = EINTR
    · rw [if_pos hintr]
      exact .again
    · rw [if_neg hintr]
      exact .pollFails hpc (neg_errno_lt e) (fun h => hintr (Int.neg_inj.mp h)) (.failed hintr)

/-- `mbox_push` after `write` -/
lemma does_write {i : ι} {call : Call} {msg : Mem UInt8} {io : Io} (hpc : s.pc i = .writing call msg)
    (h : writeStep b s i call msg io = some s') : Does b s (.write i io) s' := by
  unfold writeStep at h
  obtain ⟨pipe, hpipe, rfl⟩ := Option.map_eq_some_iff.mp h
  by_cases hio : ∃ k, io = .moved k
  · obtain ⟨k, rfl⟩ := hio
    rw [mboxPush_moved]
    exact .wrote hpc hpipe
  · have hio' : ∀ k, io ≠ .moved k := fun k hk => hio ⟨k, hk⟩
    have hret := Io.ret_of_not_moved hio'
    obtain ⟨⟨k, hk, -⟩, -⟩ | ⟨-, rfl⟩ := Pipe.write_atomic (by rw [Mem.length_load]; exact b.msgSize_le) hpipe
    · exact absurd hk (hio' k)
    rw [hret, mboxPush_failed]
    by_cases hintr : io.errno = EINTR
    · rw [if_pos hintr]
      exact .again
    · rw [if_neg hintr]
      exact .writeFails hpc hio' hintr hpipe

/-- `mbox_peek` after `read` -/
lemma does_read {i : ι} {msg : Mem UInt8} {io : Io} (hpc : s.pc i = .reading msg)
    (h : readStep b s i msg io = some s') : Does b s (.read i io) s' := by
  unfold readStep at h
  obtain ⟨⟨got, pipe⟩, hpipe, rfl⟩ := Option.map_eq_some_iff.mp h
  dsimp only
  by_cases hio : ∃ k, io = .moved k
  · obtain ⟨k, rfl⟩ := hio
    have hk : 0 < k := Pipe.read_pos hpipe
    rw [mboxPeek_moved hk]
    exact .took hpc hk hpipe
  · have hio' : ∀ k, io ≠ .moved k := fun k hk => hio ⟨k, hk⟩
    have hret := Io.ret_of_not_moved hio'
    obtain ⟨rfl, rfl⟩ := Pipe.read_not_moved hio' hpipe
    rw [hret, mboxPeek_failed]
    by_cases hintr : io.errno = EINTR
    · rw [if_pos hintr]
      exact .again
    · rw [if_neg hintr]
      exact .readFails hpc hio' hintr hpipe

theorem does_of_step (h : step b s a = some s') : Does b s a s' := by
  unfold step at h
  cases a with
  | call i call =>
    dsimp only at h
    split at h
    · obtain rfl := Option.some.inj h
      exact does_call i call
    · cases h
  | poll i poll =>
    dsimp only at h
    split at h
    · exact does_poll ‹_› h
    · cases h
  | write i io =>
    dsimp only at h
    split at h
    · exact does_write ‹_› h
    · cases h
  | read i io =>
    dsimp only at h
    split at h
    · exact does_read ‹_› h
    · cases h

/-! ### The invariant -/

/-- What a thread that is inside a call passed. -/
def Pc.Ok : Pc → Prop
  | idle => True
  | polling _ timeoutMs => timeoutMs.toNat ≤ INT_MAX
  | writing call msg =>
    call = .push (some msg) ∨ ∃ timeoutMs, timeoutMs.toNat ≤ INT_MAX ∧ call = .pushBlock (some msg) timeoutMs
  | reading _ => True

/-- The pipe holds the messages that the queue of the calls does. -/
structure Inv (b : MBox) (s : Sys ι) : Prop where
  fits : s.pipe.Fits b.limits
  history : ∃ q, History b.msgSize s.log q ∧ s.pipe.Pieces b.msgSize q
  pc : ∀ i, (s.pc i).Ok

omit [DecidableEq ι] in
lemma inv_start : Inv b (.start ι) := ⟨Pipe.fits_empty, ⟨[], .nil, Pipe.pieces_empty⟩, fun _ => trivial⟩

lemma ok_update {i : ι} {pc : Pc} (h : ∀ j, (s.pc j).Ok) (hpc : pc.Ok) (j : ι) :
    (Function.update s.pc i pc j).Ok := by
  by_cases hj : j = i
  · rw [hj, Function.update_self]
    exact hpc
  · rw [Function.update_of_ne hj]
    exact h j

lemma Pc.Ok.sent {call : Call} {msg : Mem UInt8} (h : (writing call msg).Ok) (msgSize : ℕ) :
    call.sent msgSize = some (msg.load 0 msgSize) := by
  rcases h with rfl | ⟨timeoutMs, -, rfl⟩
  · rfl
  · rfl

lemma Pc.Ok.not_peek {call : Call} {msg : Mem UInt8} (h : (writing call msg).Ok)
    (msg' : Option (Mem UInt8)) : call ≠ .peek msg' := by
  rcases h with rfl | ⟨timeoutMs, -, rfl⟩
  · nofun
  · nofun

/-- A call returns, which the queue serves; the pipe holds the messages that the queue then has. -/
lemma Inv.finish {q q' : List (List UInt8)} {pipe : Pipe UInt8} {i : ι} {call : Call} {ret : ℤ}
    {got : List UInt8} (h : Inv b s) (hq : History b.msgSize s.log q)
    (hserves : Serves b.msgSize q (⟨i, call, ret, got⟩ : Returned ι) q') (hfits : pipe.Fits b.limits)
    (hpieces : pipe.Pieces b.msgSize q') : Inv b ({ s with pipe := pipe }.finish i call ret got) :=
  ⟨hfits, ⟨q', hq.snoc hserves, hpieces⟩, ok_update h.pc trivial⟩

lemma Inv.step (h : Inv b s) (hs : step b s a = some s') : Inv b s' := by
  obtain ⟨q, hq, hpieces⟩ := h.history
  have hlen : ∀ msg : Mem UInt8, (msg.load 0 b.msgSize).length = b.msgSize := fun msg => Mem.length_load msg 0 _
  cases does_of_step hs with
  | invalid hinvalid =>
    refine h.finish hq (.refused (by decide) (by decide) ?_) h.fits hpieces
    exact fun _ _ => by decide
  | starts hstarts =>
    refine ⟨h.fits, ⟨q, hq, hpieces⟩, ok_update h.pc ?_⟩
    cases hstarts with
    | push => exact .inl rfl
    | pushBlock htimeout => exact htimeout
    | peek => trivial
  | again => exact h
  | pollFails hpc hret hintr hanswers =>
    exact h.finish hq (.refused hret hintr fun _ => nofun) h.fits hpieces
  | @ready i msg timeoutMs poll pipe hpc hpipe =>
    have hok := h.pc i
    rw [hpc] at hok
    exact ⟨h.fits.writable hpipe, ⟨q, hq, hpieces.writable hpipe⟩, ok_update h.pc (.inr ⟨_, hok, rfl⟩)⟩
  | @wrote i call msg k pipe hpc hpipe =>
    have hok := h.pc i
    rw [hpc] at hok
    obtain ⟨-, hpieces'⟩ | ⟨hmoved, -⟩ := hpieces.write (hlen msg) b.msgSize_le hpipe
    · exact h.finish hq (.pushed (hok.sent _)) (h.fits.write hpipe) hpieces'
    · exact absurd rfl (hmoved k)
  | @writeFails i call msg io hpc hio hintr hpipe =>
    have hok := h.pc i
    rw [hpc] at hok
    have hpos := Io.errno_pos hio
    refine h.finish hq (.refused (by omega) (fun h => hintr (Int.neg_inj.mp h)) ?_) h.fits hpieces
    exact fun msg' hpeek => absurd hpeek (hok.not_peek msg')
  | @took i msg k got pipe hpc hk hpipe =>
    obtain ⟨q', -, rfl, hpieces'⟩ | ⟨-, -, hmoved, -⟩ := hpieces.read b.msgSize_pos hpipe
    · exact h.finish hq .peeked (h.fits.read hpipe) hpieces'
    · exact absurd rfl (hmoved k)
  | @readFails i msg got io hpc hio hintr hpipe =>
    obtain ⟨q', hmoved, -⟩ | ⟨rfl, -, -, hempty⟩ := hpieces.read b.msgSize_pos hpipe
    · exact absurd hmoved (hio _)
    cases io with
    | moved k => exact absurd rfl (hio k)
    | wouldBlock =>
      obtain rfl := hempty rfl
      exact h.finish hq .empty h.fits hpieces
    | failed e =>
      refine h.finish hq (.refused (neg_errno_lt e) (fun h => hintr (Int.neg_inj.mp h)) ?_) h.fits hpieces
      exact fun _ _ hagain => e.2.2 (Int.neg_inj.mp hagain)

lemma inv_of_reach {ok : Sys ι → Act ι → Prop} (hr : Reach (step b) ok (.start ι) s) : Inv b s :=
  hr.invariant inv_start fun _ _ _ h _ hs => h.step hs

/-! ### The calls as those of a queue -/

omit [DecidableEq ι] in
/-- What was pushed and what was peeked, when the calls are those of a queue. -/
lemma History.accepted_eq {msgSize : ℕ} {log : List (Returned ι)} {q : List (List UInt8)}
    (h : History msgSize log q) : accepted msgSize log = received log ++ q := by
  induction h with
  | nil => rfl
  | @snoc log q q' e hlog hserves ih =>
    unfold accepted received at *
    rw [List.filterMap_append, List.filterMap_append, ih]
    cases hserves with
    | @pushed q i call m hsent =>
      cases call with
      | peek msg => cases hsent
      | _ => simp [hsent]
    | peeked => simp [Call.sent]
    | empty => simp [EAGAIN, Call.sent]
    | @refused q i call ret hret hintr hpeek =>
      have hne : ret ≠ 0 := by omega
      cases call with
      | _ => simp [hne]

/-- **The calls are those of a queue of messages**, whatever the threads do and in any order: in the order in
which they return, each is served as a queue does, and the bytes in the pipe are those of the messages that
were pushed and not peeked. -/
theorem history_of_reach (hr : Reach (step b) anyStep (.start ι) s) :
    ∃ unread, History b.msgSize s.log unread ∧ accepted b.msgSize s.log = received s.log ++ unread ∧
      s.pipe.items = unread.flatten ∧ (∀ m ∈ unread, m.length = b.msgSize) ∧
      (s.pipe.items = [] ↔ unread = []) ∧ s.pipe.items.length ≤ b.limits.capacity := by
  have hinv := inv_of_reach hr
  obtain ⟨unread, hq, hpieces⟩ := hinv.history
  exact ⟨unread, hq, hq.accepted_eq, hpieces.items, hpieces.length, hpieces.eq_nil_iff b.msgSize_pos,
    hinv.fits.length⟩

/-- A mailbox for messages of three bytes, on a pipe for eight. -/
def threeBytes : MBox := ⟨⟨4, 8, by decide⟩, 3, by unfold badSize; decide⟩

/-- The thread 1 waits for room, while the thread 0 pushes and the thread 2 peeks. -/
def interleaved : List (Act ℕ) :=
  [.call 0 (.push (some fun _ => 7)), .call 1 (.pushBlock (some fun _ => 9) 50), .write 0 (.moved 3),
    .poll 1 (.failed ⟨4, by decide⟩), .call 2 (.peek (some fun _ => 0)), .poll 1 .ready, .read 2 (.moved 3),
    .write 1 (.moved 3)]

theorem history_of_reach_interleaved :
    ∃ s, exec (step threeBytes) anyStep (.start ℕ) interleaved = some s ∧ s.pipe.items = [9, 9, 9] ∧
      accepted 3 s.log = [[7, 7, 7], [9, 9, 9]] ∧ received s.log = [[7, 7, 7]] ∧
      ∃ unread, History 3 s.log unread ∧ accepted 3 s.log = received s.log ++ unread ∧
        s.pipe.items = unread.flatten ∧ (∀ m ∈ unread, m.length = 3) ∧ (s.pipe.items = [] ↔ unread = []) ∧
        s.pipe.items.length ≤ 8 := by
  have hrun {s : Sys ℕ} (h : exec (step threeBytes) anyStep (.start ℕ) interleaved = some s) :=
    history_of_reach (reach_of_exec h)
  exact ⟨_, rfl, rfl, rfl, rfl, hrun rfl⟩

/-! ### One thread that pushes -/

/-- Of the threads, `p` alone is in a call that pushes; when `mbox_push_block` is to write, the pipe still has
the room that `poll` found; and no call of it has returned that the pipe was full. -/
structure Sole (p : ι) (s : Sys ι) : Prop where
  others : ∀ i, i ≠ p → s.pc i = .idle ∨ ∃ msg, s.pc i = .reading msg
  room : ∀ msg timeoutMs, s.pc p = .writing (.pushBlock (some msg) timeoutMs) msg → s.pipe.room = true
  answers : ∀ e ∈ s.log, ∀ msg timeoutMs, e.call = .pushBlock msg timeoutMs → Answers msg timeoutMs e.ret

omit [DecidableEq ι] in
lemma sole_start : Sole p (.start ι) := ⟨fun _ _ => .inl rfl, nofun, nofun⟩

lemma Sole.eq_of_writing {i : ι} {call : Call} {msg : Mem UInt8} (h : Sole p s)
    (hpc : s.pc i = .writing call msg) : i = p := by
  by_contra hi
  rcases h.others i hi with hidle | ⟨msg', hreading⟩
  · rw [hpc] at hidle
    cases hidle
  · rw [hpc] at hreading
    cases hreading

/-- A call returns. -/
lemma Sole.finish {pipe : Pipe UInt8} {i : ι} {call : Call} {ret : ℤ} {got : List UInt8} (h : Sole p s)
    (hpipe : i ≠ p → pipe.room = s.pipe.room)
    (hanswers : ∀ msg timeoutMs, call = .pushBlock msg timeoutMs → Answers msg timeoutMs ret) :
    Sole p ({ s with pipe := pipe }.finish i call ret got) := by
  refine ⟨fun j hj => ?_, fun msg timeoutMs hpc => ?_, fun e he => ?_⟩
  · change Function.update s.pc i .idle j = _ ∨ ∃ msg, Function.update s.pc i .idle j = _
    by_cases hji : j = i
    · rw [hji, Function.update_self]
      exact .inl rfl
    · rw [Function.update_of_ne hji]
      exact h.others j hj
  · change Function.update s.pc i .idle p = _ at hpc
    by_cases hpi : p = i
    · rw [hpi, Function.update_self] at hpc
      cases hpc
    · rw [Function.update_of_ne hpi] at hpc
      exact (hpipe (Ne.symm hpi)).trans (h.room msg timeoutMs hpc)
  · rcases List.mem_append.mp he with he | he
    · exact h.answers e he
    · rw [List.mem_singleton.mp he]
      exact hanswers

/-- A thread goes on: another one than `p` to a read only. -/
lemma Sole.goto {pipe : Pipe UInt8} {i : ι} {pc : Pc} (h : Sole p s)
    (hother : i ≠ p → pipe.room = s.pipe.room ∧ ∃ msg, pc = .reading msg)
    (hroom : ∀ msg timeoutMs, pc = .writing (.pushBlock (some msg) timeoutMs) msg → pipe.room = true) :
    Sole p ({ s with pipe := pipe }.goto i pc) := by
  refine ⟨fun j hj => ?_, fun msg timeoutMs hpc => ?_, h.answers⟩
  · change Function.update s.pc i pc j = _ ∨ ∃ msg, Function.update s.pc i pc j = _
    by_cases hji : j = i
    · rw [hji, Function.update_self]
      exact .inr (hother (hji ▸ hj)).2
    · rw [Function.update_of_ne hji]
      exact h.others j hj
  · change Function.update s.pc i pc p = _ at hpc
    by_cases hpi : p = i
    · rw [hpi, Function.update_self] at hpc
      exact hroom msg timeoutMs hpc
    · rw [Function.update_of_ne hpi] at hpc
      exact (hother (Ne.symm hpi)).1.trans (h.room msg timeoutMs hpc)

lemma Sole.step (hinv : Inv b s) (h : Sole p s) (hok : SoleProducer p s a)
    (hs : step b s a = some s') : Sole p s' := by
  cases does_of_step hs with
  | invalid hinvalid =>
    refine h.finish (fun _ => rfl) ?_
    rintro msg timeoutMs rfl
    cases hinvalid with
    | pushBlock hinvalid => exact .invalid hinvalid
  | @starts i call pc hstarts =>
    cases hstarts with
    | push =>
      obtain rfl : i = p := hok
      exact h.goto (fun hi => absurd rfl hi) nofun
    | pushBlock htimeout =>
      obtain rfl : i = p := hok
      exact h.goto (fun hi => absurd rfl hi) nofun
    | peek => exact h.goto (fun _ => ⟨rfl, _, rfl⟩) nofun
  | again => exact h
  | pollFails hpc hret hintr hanswers =>
    refine h.finish (fun _ => rfl) ?_
    rintro msg timeoutMs ⟨⟩
    exact hanswers
  | @ready i msg timeoutMs poll pipe hpc hpipe =>
    have hroom : pipe.room = true := Pipe.room_writable hpipe
    refine h.goto (fun hi => ?_) fun _ _ _ => hroom
    rcases h.others i hi with hidle | ⟨msg', hreading⟩
    · rw [hpc] at hidle
      cases hidle
    · rw [hpc] at hreading
      cases hreading
  | @wrote i call msg k pipe hpc hpipe =>
    obtain rfl := h.eq_of_writing hpc
    refine h.finish (fun hi => absurd rfl hi) ?_
    rintro msg' timeoutMs rfl
    have hok := hinv.pc i
    rw [hpc] at hok
    obtain ⟨⟨⟩⟩ | ⟨timeoutMs, htimeout, ⟨⟩⟩ := hok
    exact .pushed rfl htimeout
  | @writeFails i call msg io hpc hio hintr hpipe =>
    obtain rfl := h.eq_of_writing hpc
    refine h.finish (fun _ => rfl) ?_
    rintro msg' timeoutMs rfl
    have hok := hinv.pc i
    rw [hpc] at hok
    obtain ⟨⟨⟩⟩ | ⟨timeoutMs, htimeout, ⟨⟩⟩ := hok
    have hblock := Pipe.write_room (h.room msg timeoutMs hpc) (by rw [Mem.length_load]; exact b.msgSize_le) hpipe
    cases io with
    | moved k => exact absurd rfl (hio k)
    | wouldBlock => exact absurd rfl hblock
    | failed e => exact .failed hintr
  | took hpc hk hpipe => exact h.finish (fun _ => Pipe.room_read hpipe) nofun
  | readFails hpc hio hintr hpipe => exact h.finish (fun _ => rfl) nofun

/-- **With one thread that pushes, `mbox_push_block` is never refused for want of room**, whatever the threads
that peek do between its `poll` and its `write`: it returns an error of the arguments, of the timeout that it
was given, or of a system call. -/
theorem pushBlock_answers (hr : Reach (step b) (SoleProducer p) (.start ι) s) :
    ∀ e ∈ s.log, ∀ msg timeoutMs, e.call = .pushBlock msg timeoutMs →
      Answers msg timeoutMs e.ret ∧ e.ret ≠ -EAGAIN := by
  have hinv : Inv b s ∧ Sole p s := by
    refine hr.invariant (I := fun s => Inv b s ∧ Sole p s) ⟨inv_start, sole_start⟩ ?_
    intro s a s' h hok hs
    exact ⟨h.1.step hs, h.2.step h.1 hok hs⟩
  intro e he msg timeoutMs hcall
  have hanswers := hinv.2.answers e he msg timeoutMs hcall
  refine ⟨hanswers, ?_⟩
  generalize e.ret = ret at hanswers
  cases hanswers with
  | @failed e hintr => exact fun hagain => e.2.2 (Int.neg_inj.mp hagain)
  | _ => decide

/-- The same, when the thread 1 alone pushes. -/
def alone : List (Act ℕ) :=
  [.call 1 (.pushBlock (some fun _ => 9) 50), .poll 1 .ready, .call 2 (.peek (some fun _ => 0)),
    .read 2 .wouldBlock, .write 1 (.moved 3), .call 1 (.pushBlock none 0),
    .call 1 (.pushBlock (some fun _ => 9) 50), .poll 1 .timedOut]

theorem pushBlock_answers_alone :
    ∃ s, exec (step threeBytes) (SoleProducer 1) (.start ℕ) alone = some s ∧
      s.log.map (·.ret) = [-EAGAIN, 0, -EINVAL, -ETIMEDOUT] ∧
      ∀ e ∈ s.log, ∀ msg timeoutMs, e.call = .pushBlock msg timeoutMs →
        Answers msg timeoutMs e.ret ∧ e.ret ≠ -EAGAIN := by
  have hrun {s : Sys ℕ} (h : exec (step threeBytes) (SoleProducer 1) (.start ℕ) alone = some s) :=
    pushBlock_answers (reach_of_exec h)
  exact ⟨_, rfl, rfl, hrun rfl⟩

/-- Another thread can take the room that `poll` found. -/
example : (exec (step threeBytes) anyStep (.start ℕ)
    [.call 0 (.push (some fun _ => 7)), .write 0 (.moved 3), .call 1 (.pushBlock (some fun _ => 9) 50),
      .poll 1 .ready, .call 0 (.push (some fun _ => 7)), .write 0 (.moved 3), .write 1 .wouldBlock]).map
    (fun s => s.log.map (·.ret)) = some [0, 0, -EAGAIN] := rfl

end Futils.Mbox.Posix
