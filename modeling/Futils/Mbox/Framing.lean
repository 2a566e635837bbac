import Futils.Mbox.Winsock
import Mathlib.Data.PNat.Basic

/-!
# Message framing

The stream is a queue of whole messages as long as `send` and `recv` move whole messages, except that
`mbox_push_block` may send one in parts: while it does, the parts that are sent are at the end of the stream.
-/

namespace Futils.Mbox

open Futils.Lib

/-- A peek that returned `0` has read one whole message, the oldest one that was accepted and not read, and
no byte of a push that was refused. -/
structure Framed (msgSize : ℕ) (s : Sys) : Prop where
  queue : s.reads <+: s.accepted
  whole : ∀ m ∈ s.reads, m.length = msgSize
  accepted : ∀ m ∈ s.reads, ∀ c ∈ m, c.push ∉ s.refused

/-- Messages are not cut: `mbox_push` sends all of one or nothing, `mbox_push_block` does not fail once it has
sent a part of one, and `mbox_peek` receives all of one or nothing. -/
def Whole (msgSize : ℕ) (s : Sys) : Act → Prop
  | .push _ (.moved k) => k = msgSize
  | .select (.failed _) | .send .wouldBlock => ∀ b ∈ s.block, b.done = 0
  | .peek (.moved k) => k = msgSize
  | _ => True

instance (msgSize : ℕ) (s : Sys) : DecidablePred (Whole msgSize s)
  | .push _ (.moved k) => inferInstanceAs (Decidable (k = msgSize))
  | .push _ .wouldBlock => .isTrue trivial
  | .pushBlock _ _ => .isTrue trivial
  | .select .ready => .isTrue trivial
  | .select .timedOut => .isTrue trivial
  | .select (.failed _) => inferInstanceAs (Decidable (∀ b ∈ s.block, b.done = 0))
  | .send (.moved _) => .isTrue trivial
  | .send .wouldBlock => inferInstanceAs (Decidable (∀ b ∈ s.block, b.done = 0))
  | .peek (.moved k) => inferInstanceAs (Decidable (k = msgSize))
  | .peek .wouldBlock => .isTrue trivial

/-- The bytes of a message that is sent in parts. -/
def Block.sent (b : Block) : List Cell := cells b.push (b.msg.take b.done)

def Sys.part (s : Sys) : List Cell := (s.block.map Block.sent).getD []

/-- The invariant. -/
structure Inv (msgSize : ℕ) (s : Sys) : Prop where
  stream : ∃ unread, s.accepted = s.reads ++ unread ∧ s.stream = unread.flatten ++ s.part
  length : ∀ m ∈ s.accepted, m.length = msgSize
  block : ∀ b ∈ s.block, b.msg.length = msgSize ∧ b.done < msgSize ∧ b.push < s.pushes ∧
    b.push ∉ s.refused
  sender : ∀ m ∈ s.accepted, ∀ c ∈ m, c.push < s.pushes ∧ c.push ∉ s.refused ∧
    ∀ b ∈ s.block, c.push ≠ b.push
  refused : ∀ id ∈ s.refused, id < s.pushes

variable {msgSize k number : ℕ} {s s' : Sys} {b : Block} {msg bytes : List UInt8} {io : Io} {a : Act}

lemma Sys.part_of_idle (h : s.block = none) : s.part = [] := by
  unfold Sys.part
  rw [h]
  rfl

lemma Sys.part_of_block (h : s.block = some b) : s.part = b.sent := by
  unfold Sys.part
  rw [h]
  rfl

lemma length_cells : (cells number bytes).length = bytes.length := List.length_map ..

lemma push_of_mem_cells {c : Cell} (h : c ∈ cells number bytes) : c.push = number := by
  obtain ⟨byte, -, rfl⟩ := List.mem_map.mp h
  rfl

lemma Inv.framed (h : Inv msgSize s) : Framed msgSize s := by
  obtain ⟨unread, haccepted, -⟩ := h.stream
  have hmem : ∀ m ∈ s.reads, m ∈ s.accepted := by
    intro m hm
    rw [haccepted]
    exact List.mem_append_left unread hm
  exact ⟨⟨unread, haccepted.symm⟩, fun m hm => h.length m (hmem m hm),
    fun m hm c hc => (h.sender m (hmem m hm) c hc).2.1⟩

/-! ### Pushes that return -/

/-- **A push is accepted**, and all of its message is in the stream. -/
lemma Inv.accept (hstream : ∃ unread, s.accepted = s.reads ++ unread ∧
      s.stream = unread.flatten ++ cells number msg)
    (hlength : ∀ m ∈ s.accepted, m.length = msgSize) (hmsg : msg.length = msgSize)
    (hnumber : number < s.pushes ∧ number ∉ s.refused)
    (hsender : ∀ m ∈ s.accepted, ∀ c ∈ m, c.push < s.pushes ∧ c.push ∉ s.refused)
    (hrefused : ∀ id ∈ s.refused, id < s.pushes) : Inv msgSize (s.finish number msg 0) := by
  obtain ⟨unread, haccepted, hbytes⟩ := hstream
  refine ⟨⟨unread ++ [cells number msg], ?_, ?_⟩, ?_, nofun, ?_, hrefused⟩
  · change s.accepted ++ [cells number msg] = s.reads ++ (unread ++ [cells number msg])
    rw [haccepted, List.append_assoc]
  · change s.stream = (unread ++ [cells number msg]).flatten ++ []
    rw [hbytes, List.flatten_append, List.flatten_singleton, List.append_nil]
  · intro m hm
    rcases List.mem_append.mp hm with hm | hm
    · exact hlength m hm
    · rw [List.mem_singleton.mp hm, length_cells, hmsg]
  · intro m hm c hc
    rcases List.mem_append.mp hm with hm | hm
    · obtain ⟨hlt, hnot⟩ := hsender m hm c hc
      exact ⟨hlt, hnot, nofun⟩
    · rw [List.mem_singleton.mp hm] at hc
      rw [push_of_mem_cells hc]
      exact ⟨hnumber.1, hnumber.2, nofun⟩

/-- **A push is refused**, and no byte of it is in the stream. -/
lemma Inv.refuse {ret : ℤ} (hret : ret < 0)
    (hstream : ∃ unread, s.accepted = s.reads ++ unread ∧ s.stream = unread.flatten)
    (hlength : ∀ m ∈ s.accepted, m.length = msgSize) (hnumber : number < s.pushes)
    (hsender : ∀ m ∈ s.accepted, ∀ c ∈ m, c.push < s.pushes ∧ c.push ∉ s.refused ∧ c.push ≠ number)
    (hrefused : ∀ id ∈ s.refused, id < s.pushes) : Inv msgSize (s.finish number msg ret) := by
  obtain ⟨unread, haccepted, hbytes⟩ := hstream
  unfold Sys.finish
  rw [if_pos hret]
  refine ⟨⟨unread, haccepted, ?_⟩, hlength, nofun, ?_, ?_⟩
  · change s.stream = unread.flatten ++ []
    rw [hbytes, List.append_nil]
  · intro m hm c hc
    obtain ⟨hlt, hnot, hne⟩ := hsender m hm c hc
    refine ⟨hlt, ?_, nofun⟩
    intro hmem
    rcases List.mem_append.mp hmem with hmem | hmem
    · exact hnot hmem
    · exact hne (List.mem_singleton.mp hmem)
  · intro id hid
    rcases List.mem_append.mp hid with hid | hid
    · exact hrefused id hid
    · rw [List.mem_singleton.mp hid]
      exact hnumber

/-! ### Steps -/

lemma inv_start : Inv msgSize .start := ⟨⟨[], rfl, rfl⟩, nofun, nofun, nofun, nofun⟩

/-- `mbox_push` -/
lemma Inv.step_push (h : Inv msgSize s) (hwhole : Whole msgSize s (.push msg io))
    (hstep : step msgSize s (.push msg io) = some s') : Inv msgSize s' := by
  unfold step at hstep
  dsimp only at hstep
  split_ifs at hstep with hlegal
  obtain ⟨hidle, hmsg, -⟩ := hlegal
  obtain rfl := Option.some.inj hstep
  obtain ⟨unread, haccepted, hbytes⟩ := h.stream
  rw [s.part_of_idle hidle, List.append_nil] at hbytes
  have hfresh : s.pushes ∉ s.refused := fun hmem => lt_irrefl _ (h.refused _ hmem)
  have hrefused : ∀ id ∈ s.refused, id < s.pushes + 1 := fun id hid => Nat.lt_succ_of_lt (h.refused id hid)
  cases io with
  | moved k =>
    obtain rfl : k = msgSize := hwhole
    have hret : mboxPush (Io.ret (.moved k)) WSAEWOULDBLOCK = 0 := if_neg (by simp [Io.ret])
    have htake : msg.take k = msg := List.take_of_length_le hmsg.le
    rw [hret]
    dsimp only [Io.count]
    rw [htake]
    refine Inv.accept ⟨unread, haccepted, ?_⟩ h.length hmsg ⟨Nat.lt_succ_self _, hfresh⟩ ?_ hrefused
    · exact congrArg (· ++ _) hbytes
    · intro m hm c hc
      obtain ⟨hlt, hnot, -⟩ := h.sender m hm c hc
      exact ⟨Nat.lt_succ_of_lt hlt, hnot⟩
  | wouldBlock =>
    refine Inv.refuse (by decide) ⟨unread, haccepted, ?_⟩ h.length (Nat.lt_succ_self _) ?_ hrefused
    · exact (congrArg (s.stream ++ ·) (congrArg (cells s.pushes) (List.take_zero (l := msg)))).trans
        ((List.append_nil _).trans hbytes)
    · intro m hm c hc
      obtain ⟨hlt, hnot, -⟩ := h.sender m hm c hc
      exact ⟨Nat.lt_succ_of_lt hlt, hnot, hlt.ne⟩

/-- `mbox_push_block` is called. -/
lemma Inv.step_pushBlock {timeoutMs : ℕ} (hsize : 0 < msgSize) (h : Inv msgSize s)
    (hstep : step msgSize s (.pushBlock msg timeoutMs) = some s') : Inv msgSize s' := by
  unfold step at hstep
  dsimp only at hstep
  split_ifs at hstep with hlegal
  obtain ⟨hidle, hmsg⟩ := hlegal
  obtain rfl := Option.some.inj hstep
  obtain ⟨unread, haccepted, hbytes⟩ := h.stream
  rw [s.part_of_idle hidle] at hbytes
  refine ⟨⟨unread, haccepted, hbytes⟩, h.length, ?_, ?_, ?_⟩
  · rintro b ⟨⟩
    exact ⟨hmsg, hsize, Nat.lt_succ_self _, fun hmem => lt_irrefl _ (h.refused _ hmem)⟩
  · intro m hm c hc
    obtain ⟨hlt, hnot, -⟩ := h.sender m hm c hc
    refine ⟨Nat.lt_succ_of_lt hlt, hnot, ?_⟩
    rintro b ⟨⟩
    exact hlt.ne
  · exact fun id hid => Nat.lt_succ_of_lt (h.refused id hid)

/-- `mbox_push_block` fails before it has sent anything. -/
lemma Inv.block_refuse {ret : ℤ} (h : Inv msgSize s) (hblock : s.block = some b) (hdone : b.done = 0)
    (hret : ret < 0) : Inv msgSize (s.finish b.push b.msg ret) := by
  obtain ⟨unread, haccepted, hbytes⟩ := h.stream
  have hsent : b.sent = [] := by
    unfold Block.sent
    rw [hdone, List.take_zero]
    rfl
  rw [s.part_of_block hblock, hsent, List.append_nil] at hbytes
  obtain ⟨-, -, hlt, -⟩ := h.block b hblock
  refine Inv.refuse hret ⟨unread, haccepted, hbytes⟩ h.length hlt (fun m hm c hc => ?_) h.refused
  obtain ⟨hclt, hnot, hne⟩ := h.sender m hm c hc
  exact ⟨hclt, hnot, hne b hblock⟩

/-- A block goes on with other bytes sent, which are in the stream. -/
lemma Inv.goOn {stream : List Cell} (h : Inv msgSize s) (b' : Block) (hblock : s.block = some b)
    (hpush : b'.push = b.push) (hmsg : b'.msg = b.msg) (hdone : b'.done < msgSize)
    (hstream : ∃ unread, s.accepted = s.reads ++ unread ∧ stream = unread.flatten ++ b'.sent) :
    Inv msgSize { s with stream := stream, block := some b' } := by
  obtain ⟨hlength, -, hlt, hnot⟩ := h.block b hblock
  refine ⟨hstream, h.length, ?_, ?_, h.refused⟩
  · rintro b₁ ⟨⟩
    rw [hpush, hmsg]
    exact ⟨hlength, hdone, hlt, hnot⟩
  · intro m hm c hc
    obtain ⟨hclt, hcnot, hne⟩ := h.sender m hm c hc
    refine ⟨hclt, hcnot, ?_⟩
    rintro b₁ ⟨⟩
    rw [hpush]
    exact hne b hblock

/-- `select` -/
lemma Inv.step_select {result : Select} (h : Inv msgSize s) (hwhole : Whole msgSize s (.select result))
    (hstep : step msgSize s (.select result) = some s') : Inv msgSize s' := by
  unfold step at hstep
  dsimp only at hstep
  rcases hblock : s.block with _ | b
  · rw [hblock] at hstep
    cases hstep
  rw [hblock] at hstep
  dsimp only at hstep
  split_ifs at hstep
  obtain rfl := Option.some.inj hstep
  obtain ⟨unread, haccepted, hbytes⟩ := h.stream
  rw [s.part_of_block hblock] at hbytes
  cases result with
  | ready =>
    exact h.goOn { b with ready := true } hblock rfl rfl (h.block b hblock).2.1
      ⟨unread, haccepted, hbytes⟩
  | timedOut =>
    unfold selectStep
    dsimp only
    split_ifs with hdone
    · exact h.block_refuse hblock hdone (by decide)
    · exact h
  | failed errno =>
    have hneg : -((errno : ℕ) : ℤ) < 0 := Int.neg_neg_of_pos (Int.natCast_pos.mpr errno.pos)
    exact h.block_refuse hblock (hwhole b hblock) hneg

/-- `send` -/
lemma Inv.step_send (h : Inv msgSize s) (hwhole : Whole msgSize s (.send io))
    (hstep : step msgSize s (.send io) = some s') : Inv msgSize s' := by
  unfold step at hstep
  dsimp only at hstep
  rcases hblock : s.block with _ | b
  · rw [hblock] at hstep
    cases hstep
  rw [hblock] at hstep
  dsimp only at hstep
  split_ifs at hstep with hlegal
  obtain rfl := Option.some.inj hstep
  obtain ⟨unread, haccepted, hbytes⟩ := h.stream
  obtain ⟨hmsg, -, hlt, hnot⟩ := h.block b hblock
  rw [s.part_of_block hblock] at hbytes
  cases io with
  | wouldBlock => exact h.block_refuse hblock (hwhole b hblock) (by decide)
  | moved k =>
    have hfits : k ≤ msgSize - b.done := hlegal.2.2
    have hsent : s.stream ++ cells b.push ((b.msg.drop b.done).take k) =
        unread.flatten ++ cells b.push (b.msg.take (b.done + k)) := by
      rw [hbytes, List.append_assoc]
      unfold Block.sent cells
      rw [← List.map_append, List.take_add]
    unfold sendStep
    dsimp only
    split_ifs with hmore
    · exact h.goOn { b with done := b.done + k, ready := false } hblock rfl rfl hmore
        ⟨unread, haccepted, hsent⟩
    · have hall : b.msg.take (b.done + k) = b.msg := List.take_of_length_le (by omega)
      rw [hall] at hsent
      refine Inv.accept ⟨unread, haccepted, hsent⟩ h.length hmsg ⟨hlt, hnot⟩ (fun m hm c hc => ?_)
        h.refused
      obtain ⟨hclt, hcnot, -⟩ := h.sender m hm c hc
      exact ⟨hclt, hcnot⟩

/-- `mbox_peek` -/
lemma Inv.step_peek (h : Inv msgSize s) (hwhole : Whole msgSize s (.peek io))
    (hstep : step msgSize s (.peek io) = some s') : Inv msgSize s' := by
  unfold step at hstep
  dsimp only at hstep
  split_ifs at hstep with hfits hneg
  · obtain rfl := Option.some.inj hstep
    exact h
  obtain rfl := Option.some.inj hstep
  cases io with
  | wouldBlock => exact absurd (by decide) hneg
  | moved k =>
    obtain rfl : k = msgSize := hwhole
    obtain ⟨unread, haccepted, hbytes⟩ := h.stream
    have hle : k ≤ s.stream.length := (Nat.le_min.mp hfits.2).2
    have hpart : s.part.length < k := by
      rcases hblock : s.block with _ | b
      · rw [s.part_of_idle hblock]
        exact hfits.1
      · obtain ⟨-, hdone, -⟩ := h.block b hblock
        rw [s.part_of_block hblock, Block.sent, length_cells, List.length_take]
        omega
    rcases unread with _ | ⟨m, unread⟩
    · rw [hbytes] at hle
      exact absurd hle (not_le.mpr hpart)
    · have hm : m.length = k := by
        refine h.length m ?_
        rw [haccepted]
        simp
      rw [List.flatten_cons, List.append_assoc] at hbytes
      have htake : s.stream.take k = m := by rw [hbytes, ← hm, List.take_left]
      have hdrop : s.stream.drop k = unread.flatten ++ s.part := by rw [hbytes, ← hm, List.drop_left]
      refine ⟨⟨unread, ?_, hdrop⟩, h.length, h.block, h.sender, h.refused⟩
      change s.accepted = s.reads ++ [s.stream.take k] ++ unread
      rw [haccepted, htake, List.append_assoc, List.singleton_append]

/-- **Every step** that cuts no message keeps the invariant. -/
lemma Inv.step (hsize : 0 < msgSize) (h : Inv msgSize s) (hwhole : Whole msgSize s a)
    (hstep : Mbox.step msgSize s a = some s') : Inv msgSize s' := by
  cases a with
  | push msg io => exact h.step_push hwhole hstep
  | pushBlock msg timeoutMs => exact h.step_pushBlock hsize hstep
  | select result => exact h.step_select hwhole hstep
  | send io => exact h.step_send hwhole hstep
  | peek io => exact h.step_peek hwhole hstep

/-- **Messages are framed** in every run in which none is cut. -/
theorem framed_of_whole (hsize : 0 < msgSize)
    (h : Reach (step msgSize) (Whole msgSize) .start s) : Framed msgSize s :=
  (h.invariant inv_start fun _ _ _ hinv hok hstep => hinv.step hsize hok hstep).framed

/-- A push that is refused, and a message sent in two parts. -/
lemma framed_of_whole_parts : ∃ s, Reach (step 2) (Whole 2) .start s ∧
    s.reads = [[⟨3, 1⟩, ⟨4, 1⟩]] ∧ s.refused = [0] ∧ Framed 2 s := by
  have hexec : exec (step 2) (Whole 2) .start [.push [1, 2] .wouldBlock, .pushBlock [3, 4] 0,
      .select .ready, .send (.moved 1), .select .ready, .send (.moved 1), .peek (.moved 2)] =
      some ⟨[], none, 2, [[⟨3, 1⟩, ⟨4, 1⟩]], [0], [[⟨3, 1⟩, ⟨4, 1⟩]]⟩ := rfl
  have hrun := reach_of_exec hexec
  exact ⟨_, hrun, rfl, rfl, framed_of_whole (by decide) hrun⟩

/-- `mbox_push` sends one byte of two and returns `0`, and the peek returns `0` with that byte. -/
lemma not_framed : ¬ ∀ msgSize, 0 < msgSize → ∀ s, Reach (step msgSize) anyStep .start s →
    Framed msgSize s := by
  intro h
  have hexec : exec (step 2) anyStep .start [.push [1, 2] (.moved 1), .peek (.moved 1)] =
      some ⟨[], none, 1, [[⟨1, 0⟩, ⟨2, 0⟩]], [], [[⟨1, 0⟩]]⟩ := rfl
  have hframed := h 2 (by decide) _ (reach_of_exec hexec)
  exact absurd (hframed.whole [⟨1, 0⟩] (List.mem_singleton_self _)) (by decide)

end Futils.Mbox
