import Futils.Inotify.Defs
import Mathlib.Algebra.BigOperators.Group.List.Basic
import Mathlib.Tactic.Ring

/-!
# Every event is delivered once, in order

The events that a `read` of the counted bytes takes are those that were counted, whatever was queued since;
and the loop gives them to the callback as they were queued.
-/

namespace Futils.Inotify

open Futils.Lib

variable {ι : Type} {e : Event} {events rest : List Event} {buf : Mem UInt8} {ev size fuel : ℕ}

/-- An `int` holds a number below `2 ^ 31`. -/
lemma bmod_of_lt {n : ℕ} (h : n < 2 ^ 31) : Int.bmod n (2 ^ 32) = n :=
  Int.bmod_eq_of_le_mul_two (by omega) (by omega)

/-! ### The bytes of the events -/

lemma Event.length_bytes (e : Event) : e.bytes.length = e.size := by
  simp only [bytes, List.length_append, length_leBytes, size, HDR_SIZE]
  omega

lemma sizeAll_cons (e : Event) (events : List Event) : sizeAll (e :: events) = e.size + sizeAll events := by
  simp [sizeAll]

lemma bytesAll_cons (e : Event) (events : List Event) : bytesAll (e :: events) = e.bytes ++ bytesAll events :=
  List.flatMap_cons

lemma length_bytesAll (events : List Event) : (bytesAll events).length = sizeAll events := by
  induction events with
  | nil => rfl
  | cons e events ih => rw [bytesAll_cons, sizeAll_cons, List.length_append, e.length_bytes, ih]

/-- **An event is read back** from its bytes, wherever they are. -/
lemma eventAt_of_load (h : buf.load ev e.size = e.bytes) (hsize : e.name.length < 2 ^ 32) :
    eventAt buf ev = e ∧ evLen buf ev = e.name.length := by
  have hsplit : e.size = 4 + (4 + (4 + (4 + e.name.length))) := by
    unfold Event.size HDR_SIZE
    omega
  rw [hsplit] at h
  obtain ⟨hwd, h⟩ := (Mem.load_eq_append (length_leBytes ..)).mp h
  obtain ⟨hmask, h⟩ := (Mem.load_eq_append (length_leBytes ..)).mp h
  obtain ⟨hcookie, h⟩ := (Mem.load_eq_append (length_leBytes ..)).mp h
  obtain ⟨hlen, hname⟩ := (Mem.load_eq_append (length_leBytes ..)).mp h
  have hevLen : evLen buf ev = e.name.length := by
    unfold evLen
    rw [hlen]
    exact leNat_leBytes hsize
  refine ⟨?_, hevLen⟩
  have hname' : buf.load (ev + HDR_SIZE) e.name.length = e.name := hname
  unfold eventAt
  rw [hevLen, hwd, hmask, hcookie, hname', leNat_leBytes e.wd.toUInt32.toNat_lt, leNat_leBytes e.mask.toNat_lt,
    leNat_leBytes e.cookie.toNat_lt, UInt32.ofNat_toNat, UInt32.ofNat_toNat, UInt32.ofNat_toNat]
  rfl

/-- **The loop gives the callback the events** whose bytes are in the buffer. -/
lemma eventLoop_eq (h : buf.load ev (sizeAll events) = bytesAll events) (hsize : sizeAll events < 2 ^ 31)
    (hin : ev + sizeAll events ≤ size) (hfuel : events.length < fuel) :
    eventLoop buf size fuel ev (sizeAll events) = some events := by
  induction events generalizing ev fuel with
  | nil =>
    obtain ⟨fuel, rfl⟩ := Nat.exists_eq_add_of_lt hfuel
    rfl
  | cons e events ih =>
    obtain ⟨fuel, rfl⟩ : ∃ n, fuel = n + 1 := ⟨fuel - 1, by omega⟩
    rw [sizeAll_cons] at h hsize hin ⊢
    rw [bytesAll_cons] at h
    obtain ⟨hevent, hrest⟩ := (Mem.load_eq_append e.length_bytes).mp h
    have hname : e.size = HDR_SIZE + e.name.length := rfl
    have hhdr : HDR_SIZE = 16 := rfl
    obtain ⟨hat, hlen⟩ := eventAt_of_load hevent (by omega)
    have hbmod : Int.bmod (HDR_SIZE + evLen buf ev) (2 ^ 32) = e.size := by
      rw [hlen, hname]
      exact bmod_of_lt (by omega)
    rw [eventLoop, if_pos (by omega), if_neg (by omega), if_neg (by omega)]
    dsimp only
    rw [hbmod, if_neg (by omega), hat]
    have hnext : ((ev : ℤ) + e.size).toNat = ev + e.size := by omega
    have hcount : ((e.size + sizeAll events : ℕ) : ℤ) - e.size = sizeAll events := by omega
    rw [hnext, hcount, ih hrest (by omega) (by omega) (by simpa using hfuel)]
    rfl

/-! ### What `read` takes -/

lemma Event.size_pos (e : Event) : 0 < e.size := Nat.lt_of_lt_of_le (by decide) (Nat.le_add_right HDR_SIZE _)

/-- **The events that were counted** are those that fit, whatever was queued since. -/
lemma fitting_append : fitting (sizeAll events) (events ++ rest) = events := by
  induction events with
  | nil =>
    cases rest with
    | nil => rfl
    | cons e rest =>
      have hpos := e.size_pos
      rw [List.nil_append, fitting, if_neg]
      change ¬ e.size ≤ 0
      omega
  | cons e events ih =>
    have hrest : e.size + sizeAll events - e.size = sizeAll events := by omega
    rw [List.cons_append, sizeAll_cons, fitting, if_pos (by omega), hrest, ih]

/-- There are no more events than bytes. -/
lemma length_le_sizeAll (events : List Event) : events.length ≤ sizeAll events := by
  induction events with
  | nil => exact Nat.le_refl 0
  | cons e events ih =>
    have hpos := e.size_pos
    rw [sizeAll_cons, List.length_cons]
    omega

/-! ### The threads -/

variable [DecidableEq ι] {s s' : Sys ι} {a : Act ι} {i : ι} {mem : Mem UInt8}

/-- The invariant: the events that were queued are delivered or in the queue; at most one thread is before
`read`, and what it counted are the first events of the queue, which fit its buffer. -/
structure Inv (s : Sys ι) : Prop where
  queued : s.queued = s.delivered ++ s.queue
  fault : s.fault = false
  reading : ∀ i r, s.reading i = some r → ∃ events rest, s.queue = events ++ rest ∧
    r.count = sizeAll events ∧ sizeAll events < 2 ^ 31 ∧ sizeAll events ≤ r.size
  one : ∀ i j, s.reading i ≠ none → s.reading j ≠ none → i = j

omit [DecidableEq ι] in
lemma inv_start : Inv (.start ι) := ⟨rfl, rfl, nofun, fun _ _ hi _ => absurd rfl hi⟩

/-- A thread leaves the function, when none other is in it. -/
lemma reading_update (h : Inv s) (hi : s.reading i ≠ none) (j : ι) :
    Function.update s.reading i none j = none := by
  by_cases hji : j = i
  · rw [hji, Function.update_self]
  · rw [Function.update_of_ne hji]
    by_contra hj
    exact hji (h.one j i hj hi)

/-- **The `read` of what was counted** delivers it. -/
lemma readStep_eq (hqueue : s.queue = events ++ rest) (hlt : sizeAll events < 2 ^ 31) (hroom : sizeAll events ≤ size) :
    readStep s i ⟨sizeAll events, size⟩ mem =
      { s with queue := rest, reading := Function.update s.reading i none, delivered := s.delivered ++ events } := by
  have hfit : fitting (sizeAll events : ℤ).toNat s.queue = events := by
    rw [Int.toNat_natCast, hqueue, fitting_append]
  have hbuf : (mem.store 0 (bytesAll events)).load 0 (sizeAll events) = bytesAll events := by
    rw [← length_bytesAll]
    exact Mem.load_store mem 0 (bytesAll events)
  have hin : 0 + sizeAll events ≤ size := by rwa [Nat.zero_add]
  have hfuel : events.length < (sizeAll events : ℤ).toNat + 1 := Nat.lt_succ_of_le (length_le_sizeAll events)
  unfold readStep
  dsimp only
  rw [hfit, length_bytesAll, if_neg (by omega), if_pos rfl, eventLoop_eq hbuf hlt hin hfuel, hqueue, List.drop_left]

/-- **A thread has counted the queue**, and has a buffer that it fits. -/
lemma Inv.enter (h : Inv s) (hnone : ∀ j, s.reading j = none) (hlt : sizeAll s.queue < 2 ^ 31)
    (hroom : sizeAll s.queue ≤ size) :
    Inv { s with reading := Function.update s.reading i (some ⟨sizeAll s.queue, size⟩) } := by
  have hother : ∀ j, j ≠ i → Function.update s.reading i (some ⟨sizeAll s.queue, size⟩) j = none := by
    intro j hj
    rw [Function.update_of_ne hj, hnone j]
  refine ⟨h.queued, h.fault, fun j r hj => ?_, fun j k hj hk => ?_⟩
  · by_cases hji : j = i
    · dsimp only at hj
      rw [hji, Function.update_self] at hj
      obtain rfl := Option.some.inj hj
      exact ⟨s.queue, [], (List.append_nil _).symm, rfl, hlt, hroom⟩
    · exact absurd (hj.symm.trans (hother j hji)) (by simp)
  · rw [not_imp_comm.mp (hother j) hj, not_imp_comm.mp (hother k) hk]

lemma Inv.step_ioctl {ok alloc : Bool} (h : Inv s) (halone : Alone s (.ioctl i ok alloc)) :
    Inv (ioctlStep s i ok alloc) := by
  obtain ⟨hnone, hlt⟩ := halone
  unfold ioctlStep
  dsimp only
  rw [bmod_of_lt hlt, Int.toNat_natCast]
  split_ifs with hfails hlarge halloc
  · exact h
  · exact h.enter hnone hlt le_rfl
  · exact h
  · exact h.enter hnone hlt (by omega)

/-- A thread leaves the function, and events leave the queue and are delivered. -/
lemma Inv.leave {r : Reading} (h : Inv s) (hi : s.reading i = some r) (hqueue : s.queue = events ++ rest) :
    Inv { s with queue := rest, reading := Function.update s.reading i none, delivered := s.delivered ++ events } := by
  have hnone := reading_update h (i := i) (by rw [hi]; nofun)
  refine ⟨?_, h.fault, fun j r hj => ?_, fun j k hj => absurd (hnone j) hj⟩
  · dsimp only
    rw [h.queued, hqueue, List.append_assoc]
  · exact absurd (hj.symm.trans (hnone j)) (by simp)

lemma Inv.step (h : Inv s) (halone : Alone s a) (hs : step s a = some s') : Inv s' := by
  unfold Inotify.step at hs
  rw [if_neg (by rw [h.fault]; decide)] at hs
  cases a with
  | queue e =>
    obtain rfl := Option.some.inj hs
    refine ⟨?_, h.fault, ?_, h.one⟩
    · dsimp only
      rw [h.queued, List.append_assoc]
    · intro j r hj
      obtain ⟨events, rest, hqueue, hcount, hsize⟩ := h.reading j r hj
      refine ⟨events, rest ++ [e], ?_, hcount, hsize⟩
      dsimp only
      rw [hqueue, List.append_assoc]
  | ioctl i ok alloc =>
    dsimp only at hs
    split at hs
    · obtain rfl := Option.some.inj hs
      exact h.step_ioctl halone
    · cases hs
  | read i ok mem =>
    dsimp only at hs
    rcases hi : s.reading i with _ | ⟨count, size⟩
    · rw [hi] at hs
      cases hs
    rw [hi] at hs
    dsimp only at hs
    split_ifs at hs
    · obtain rfl := Option.some.inj hs
      have hleave := h.leave hi (List.nil_append s.queue).symm
      rwa [List.append_nil] at hleave
    · obtain ⟨events, rest, hqueue, hcount, hlt, hroom⟩ := h.reading i _ hi
      obtain rfl : count = sizeAll events := hcount
      obtain rfl := Option.some.inj hs
      rw [readStep_eq hqueue hlt hroom]
      exact h.leave hi hqueue

/-- **Every event is delivered once, in the order in which they were queued**, whatever is queued between the
steps of a call, as long as the threads do not call the function at the same time.  No call asks for more than
its buffer holds, looks for an event outside of it, or goes round its loop for ever. -/
theorem delivered_of_reach (hr : Reach step Alone (.start ι) s) :
    s.queued = s.delivered ++ s.queue ∧ s.fault = false := by
  have hinv := hr.invariant inv_start fun _ _ _ h hok hs => h.step hok hs
  exact ⟨hinv.queued, hinv.fault⟩

/-- A file is made, and another one while a thread is before its `read`. -/
def twoFiles : List (Act (Fin 2)) :=
  [.queue ⟨1, 0x100, 0, [97, 0]⟩, .ioctl 0 true true, .queue ⟨1, 0x100, 0, [98, 0]⟩, .read 0 true fun _ => 0]

theorem delivered_of_reach_twoFiles :
    ∃ s, exec step Alone (.start (Fin 2)) twoFiles = some s ∧ s.delivered = [⟨1, 0x100, 0, [97, 0]⟩] ∧
      s.queue = [⟨1, 0x100, 0, [98, 0]⟩] ∧ s.queued = s.delivered ++ s.queue ∧ s.fault = false := by
  have hexec : (exec step Alone (.start (Fin 2)) twoFiles).map (fun s => (s.delivered, s.queue)) =
      some ([⟨1, 0x100, 0, [97, 0]⟩], [⟨1, 0x100, 0, [98, 0]⟩]) := by decide +kernel
  obtain ⟨s, hs, hends⟩ := Option.map_eq_some_iff.mp hexec
  obtain ⟨hdelivered, hqueue⟩ := Prod.mk.inj hends
  exact ⟨s, hs, hdelivered, hqueue, delivered_of_reach (reach_of_exec hs)⟩

/-- Of two threads that call the function at the same time, the second takes the events that were queued
since, and gives them to no callback: it was to take more. -/
example : (exec step anyStep (.start (Fin 2))
    [.queue ⟨1, 0x100, 0, [97, 0]⟩, .queue ⟨1, 0x100, 0, [98, 0]⟩, .ioctl 0 true true, .ioctl 1 true true,
      .read 0 true fun _ => 0, .queue ⟨1, 0x100, 0, [99, 0]⟩, .read 1 true fun _ => 0]).map
    (fun s => (s.delivered.map (·.name), s.queue)) = some ([[97, 0], [98, 0]], []) := by decide +kernel

end Futils.Inotify
