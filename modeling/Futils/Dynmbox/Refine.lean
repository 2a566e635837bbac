import Futils.Dynmbox.Queue

/-!
# Runs of pushes and peeks

A run makes any sequence of calls on a new mailbox.  It never fails an assertion, its results are
those of the abstract queue, and the ring represents that queue in every state on the way
(`run_refines`); `Serves` says what the mailbox then answers to the next call.
-/

namespace Futils.Dynmbox

open Futils.Lib

/-- A call of the interface. -/
inductive Call
  | push (msg : Option (Mem UInt8)) (msgSize : ℕ)
  | peek (hdr₀ : Mem UInt8) (msg : Option (Mem UInt8))

/-- What a call returns: the return value and, for a peek, the memory behind `msg`. -/
inductive Res
  | pushed (ret : ℤ)
  | peeked (msglen : ℤ) (msg : Option (Mem UInt8))

def Res.ret : Res → ℤ
  | pushed ret => ret
  | peeked msglen _ => msglen

/-- One call on the mailbox; `none` when an assertion fails. -/
def step (box : DynMbox) : Call → Option (DynMbox × Res)
  | .push msg msgSize => (dynmboxPush box msg msgSize).map fun (ret, box) => (box, .pushed ret)
  | .peek hdr₀ msg =>
    (dynmboxPeek box hdr₀ msg).map fun (msglen, box, msg) => (box, .peeked msglen msg)

/-- A sequence of calls. -/
def run (box : DynMbox) : List Call → Option (DynMbox × List Res)
  | [] => some (box, [])
  | c :: cs =>
    (step box c).bind fun (box, r) => (run box cs).map fun (box, rs) => (box, r :: rs)

/-! ### The abstract mailbox -/

/-- The message is one that the mailbox may take. -/
def Legal (maxMsgSize : ℕ) (msg : Option (Mem UInt8)) (msgSize : ℕ) : Prop :=
  msgSize ≤ maxMsgSize ∧ (0 < msgSize → msg.isSome)

instance (maxMsgSize : ℕ) (msg : Option (Mem UInt8)) (msgSize : ℕ) :
    Decidable (Legal maxMsgSize msg msgSize) := by
  unfold Legal
  infer_instance

/-- The message that the arguments of a push describe. -/
def msgOf (msg : Option (Mem UInt8)) (msgSize : ℕ) : Msg := (msg.getD fun _ => 0).load 0 msgSize

/-- One call on the queue. -/
def absStep (maxMsgSize : ℕ) (q : List Msg) : Call → List Msg × Res
  | .push msg msgSize =>
    if Legal maxMsgSize msg msgSize then
      match BoundedFifo.push cost ALLOCATED_LEN q (msgOf msg msgSize) with
      | some q => (q, .pushed 0)
      | none => (q, .pushed (-EAGAIN))
    else (q, .pushed (-EINVAL))
  | .peek _ none => (q, .peeked (-EINVAL) none)
  | .peek _ (some buf) =>
    match BoundedFifo.pop q with
    | some (m, q) => (q, .peeked m.length (some (buf.store 0 m)))
    | none => (q, .peeked (-EAGAIN) (some buf))

def absRun (maxMsgSize : ℕ) (q : List Msg) : List Call → List Msg × List Res
  | [] => (q, [])
  | c :: cs =>
    let (q, r) := absStep maxMsgSize q c
    let (q, rs) := absRun maxMsgSize q cs
    (q, r :: rs)

/-! ### Simulation -/

section Simulation

variable {box : DynMbox} {q : List Msg}

lemma badMsg_iff (msg : Option (Mem UInt8)) (msgSize : ℕ) :
    badMsg box msg msgSize = true ↔ ¬ Legal box.maxMsgSize msg msgSize := by
  rw [← Bool.not_eq_false, not_iff_not]
  cases msg <;> simp [badMsg, Legal]

@[simp] lemma length_msgOf (msg : Option (Mem UInt8)) (msgSize : ℕ) :
    (msgOf msg msgSize).length = msgSize := by simp [msgOf]

/-- **One call is simulated**, and a call that fails changes nothing. -/
theorem step_refines (h : Represents box q) (c : Call) :
    ∃ box', step box c = some (box', (absStep box.maxMsgSize q c).2) ∧
      Represents box' (absStep box.maxMsgSize q c).1 ∧ box'.maxMsgSize = box.maxMsgSize ∧
      ((absStep box.maxMsgSize q c).2.ret < 0 → box' = box) := by
  cases c with
  | push msg msgSize =>
    by_cases hl : Legal box.maxMsgSize msg msgSize
    · have hb : badMsg box msg msgSize = false := by
        rw [← Bool.not_eq_true, badMsg_iff, not_not]
        exact hl
      simp only [step, dynmboxPush, hb, Bool.false_eq_true, if_false, absStep, if_pos hl]
      by_cases hroom : BoundedFifo.weight cost q + (HDR_LEN + msgSize) ≤ ALLOCATED_LEN
      · obtain ⟨box', h₁, h₂, h₃⟩ := doPush_of_room h (msg.getD fun _ => 0) hl.1 hroom
        have hp : BoundedFifo.push cost ALLOCATED_LEN q (msgOf msg msgSize) =
            some (q ++ [msgOf msg msgSize]) := by
          rw [BoundedFifo.push, if_pos]
          simpa [cost] using hroom
        rw [hp, h₁]
        exact ⟨box', rfl, h₂, h₃, fun hneg => absurd hneg (by simp [Res.ret])⟩
      · have hp : BoundedFifo.push cost ALLOCATED_LEN q (msgOf msg msgSize) = none := by
          rw [BoundedFifo.push, if_neg]
          simpa [cost] using hroom
        rw [hp, doPush_of_full h _ (by omega)]
        exact ⟨box, rfl, h, rfl, fun _ => rfl⟩
    · simp only [step, dynmboxPush, (badMsg_iff msg msgSize).mpr hl, if_true, absStep, if_neg hl]
      exact ⟨box, rfl, h, rfl, fun _ => rfl⟩
  | peek hdr₀ msg =>
    cases msg with
    | none => exact ⟨box, rfl, h, rfl, fun _ => rfl⟩
    | some buf =>
      cases q with
      | nil =>
        have he : rbufIsEmpty box = true := h.rbufIsEmpty_iff.mpr rfl
        simp only [step, dynmboxPeek, he, if_true]
        exact ⟨box, rfl, h, rfl, fun _ => rfl⟩
      | cons m q =>
        have he : rbufIsEmpty box = false := by
          rw [← Bool.not_eq_true, h.rbufIsEmpty_iff]
          exact List.cons_ne_nil m q
        obtain ⟨box', h₁, h₂, h₃⟩ := doPeek_of_cons h hdr₀ buf
        simp only [step, dynmboxPeek, he, Bool.false_eq_true, if_false, h₁]
        exact ⟨box', rfl, h₂, h₃, fun hneg => absurd hneg (by simp [absStep, BoundedFifo.pop, Res.ret])⟩

/-- **Every run is simulated.** -/
theorem run_refines (h : Represents box q) (cs : List Call) :
    ∃ box', run box cs = some (box', (absRun box.maxMsgSize q cs).2) ∧
      Represents box' (absRun box.maxMsgSize q cs).1 ∧ box'.maxMsgSize = box.maxMsgSize := by
  induction cs generalizing box q with
  | nil => exact ⟨box, rfl, h, rfl⟩
  | cons c cs ih =>
    obtain ⟨box₁, h₁, hr₁, hm₁, -⟩ := step_refines h c
    obtain ⟨box₂, h₂, hr₂, hm₂⟩ := ih hr₁
    rw [hm₁] at h₂ hr₂ hm₂
    refine ⟨box₂, ?_, hr₂, hm₂⟩
    rw [run, h₁, Option.bind_some]
    simp only [h₂, Option.map_some, absRun]

end Simulation

/-! ### What the mailbox answers -/

/-- What a mailbox that represents `q` answers to the next call. -/
structure Serves (box : DynMbox) (q : List Msg) : Prop where
  /-- A push of a legal message is accepted exactly when there is room for it and its header. -/
  push_iff : ∀ msg msgSize, Legal box.maxMsgSize msg msgSize →
    ∃ box' ret, step box (.push msg msgSize) = some (box', .pushed ret) ∧
      (ret = 0 ↔ (q.map fun m => 4 + m.length).sum + (4 + msgSize) ≤ 65536)
  /-- An empty mailbox accepts every legal message, wherever its indices stand. -/
  push_of_empty : q = [] → ∀ msg msgSize, Legal box.maxMsgSize msg msgSize →
    ∃ box', step box (.push msg msgSize) = some (box', .pushed 0)
  /-- A peek returns the length and the bytes of the oldest message. -/
  peek_of_cons : ∀ m q', q = m :: q' → ∀ hdr₀ buf,
    ∃ box', step box (.peek hdr₀ (some buf)) = some (box', .peeked m.length (some (buf.store 0 m)))
  /-- A peek on an empty mailbox fails. -/
  peek_of_empty : q = [] → ∀ hdr₀ buf,
    step box (.peek hdr₀ (some buf)) = some (box, .peeked (-EAGAIN) (some buf))
  /-- A call that fails changes nothing. -/
  unchanged : ∀ c box' r, step box c = some (box', r) → r.ret < 0 → box' = box

theorem Represents.serves {box : DynMbox} {q : List Msg} (h : Represents box q) : Serves box q := by
  have hpush : ∀ msg msgSize, Legal box.maxMsgSize msg msgSize →
      ∃ box' ret, step box (.push msg msgSize) = some (box', .pushed ret) ∧
        (ret = 0 ↔ BoundedFifo.weight cost q + (HDR_LEN + msgSize) ≤ ALLOCATED_LEN) := by
    intro msg msgSize hl
    obtain ⟨box', h₁, -⟩ := step_refines h (.push msg msgSize)
    by_cases hroom : BoundedFifo.weight cost q + (HDR_LEN + msgSize) ≤ ALLOCATED_LEN
    · refine ⟨box', 0, ?_, iff_of_true rfl hroom⟩
      rw [h₁]
      simp [absStep, if_pos hl, BoundedFifo.push, cost, hroom]
    · refine ⟨box', -EAGAIN, ?_, iff_of_false (by decide) hroom⟩
      rw [h₁]
      simp [absStep, if_pos hl, BoundedFifo.push, cost, hroom]
  refine ⟨hpush, ?_, ?_, ?_, ?_⟩
  · rintro rfl msg msgSize hl
    obtain ⟨box', ret, h₁, h₂⟩ := hpush msg msgSize hl
    have hmax := h.maxMsgSize_le
    have hroom : BoundedFifo.weight cost [] + (HDR_LEN + msgSize) ≤ ALLOCATED_LEN := by
      have := hl.1
      rw [BoundedFifo.weight_nil, show ALLOCATED_LEN = DYNMBOX_MAX_SIZE + HDR_LEN from rfl]
      omega
    obtain rfl := h₂.mpr hroom
    exact ⟨box', h₁⟩
  · rintro m q' rfl hdr₀ buf
    obtain ⟨box', h₁, -⟩ := step_refines h (.peek hdr₀ (some buf))
    exact ⟨box', h₁⟩
  · rintro rfl hdr₀ buf
    obtain ⟨box', h₁, -, -, h₂⟩ := step_refines h (.peek hdr₀ (some buf))
    obtain rfl := h₂ (show -EAGAIN < 0 by decide)
    exact h₁
  · intro c box' r hs hneg
    obtain ⟨box₁, h₁, -, -, h₂⟩ := step_refines h c
    obtain ⟨rfl, rfl⟩ := Prod.mk.inj (Option.some.inj (hs.symm.trans h₁))
    exact h₂ hneg

/-- **A mailbox is a bounded queue**, whatever its message size, its memory and the calls. -/
theorem dynmbox_refines {maxMsgSize : ℕ} {calloc : Bool} {malloc : Option (Mem UInt8)}
    {initNotifyChannel : ℤ} {box : DynMbox}
    (h : dynmboxNew maxMsgSize calloc malloc initNotifyChannel = some box) (cs : List Call) :
    ∃ box' q rs, run box cs = some (box', rs) ∧ absRun maxMsgSize [] cs = (q, rs) ∧
      Represents box' q ∧ box'.maxMsgSize = maxMsgSize ∧ Serves box' q := by
  obtain ⟨h₀, hm⟩ := represents_new h
  obtain ⟨box', h₁, h₂, h₃⟩ := run_refines h₀ cs
  rw [hm] at h₁ h₂ h₃
  exact ⟨box', _, _, h₁, rfl, h₂, h₃, h₂.serves⟩

/-- A message of two bytes is pushed to a mailbox, and read from it. -/
theorem dynmbox_refines_ten :
    ∃ box', run ⟨10, fun _ => 0, 0, 0, 0⟩ [.push (some fun _ => 7) 2, .peek (fun _ => 0) (some fun _ => 0)] =
        some (box', [.pushed 0, .peeked 2 (some (Mem.store (fun _ => 0) 0 [7, 7]))]) ∧
      Represents box' [] ∧ box'.maxMsgSize = 10 ∧ Serves box' [] := by
  have hnew : dynmboxNew 10 true (some fun _ => 0) 0 = some ⟨10, fun _ => 0, 0, 0, 0⟩ := rfl
  obtain ⟨box', q, rs, hrun, habs, hend⟩ :=
    dynmbox_refines hnew [.push (some fun _ => 7) 2, .peek (fun _ => 0) (some fun _ => 0)]
  obtain ⟨rfl, rfl⟩ := Prod.mk.inj habs
  exact ⟨box', hrun, hend⟩

end Futils.Dynmbox
