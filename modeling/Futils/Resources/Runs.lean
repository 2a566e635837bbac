import Futils.Lib.Reach
import Futils.Resources.Defs

/-!
# What is taken is given back

A function that makes something keeps the resources of what it made; when it fails, at whatever call, it keeps
none.  A function that destroys something gives back its resources.  So in every run a program holds what
belongs to the things that it has, and nothing else: as long as each mailbox that is made has got the lock and
the condition variable that are destroyed with it.
-/

namespace Futils.Resources

open Futils.Lib

variable {Channel : Type} {s s' : Proc}

/-! ### What belongs to a thing -/

def Mbox.resources (b : Mbox) : List Res := [.fd b.fds.1, .fd b.fds.2, .mem b.box]

def pipeResources (fds : ℕ × ℕ) : List Res := [.fd fds.1, .fd fds.2]

def Dynmbox.resources (channel : Channel → List Res) (b : Dynmbox Channel) : List Res :=
  [.cond b.box, .lock b.box] ++ channel b.channel ++ [.mem b.bufmem, .mem b.box]

def Sockets.resources (c : Sockets) : List Res :=
  (c.server.toList ++ c.rfd.toList ++ c.wfd.toList).map .fd

def Win.Mbox.resources (b : Win.Mbox) : List Res := b.sockets.resources ++ [.mem b.box]

def Obj.resources : Obj → List Res
  | .mbox b => b.resources
  | .dynmbox b => b.resources pipeResources
  | .winMbox b => b.resources
  | .winDynmbox b => b.resources Sockets.resources
  | .watch fd => [.fd fd]

/-- What belongs to the result of a function, if there is one. -/
def madeResources (o : Option Obj) : List Res := (o.map Obj.resources).getD []

/-! ### Destroying -/

lemma closeSocket_eq (c : Option ℕ) : closeSocket c = (c.toList.map Res.fd).map .drop := by
  cases c <;> rfl

lemma Sockets.close_eq (c : Sockets) : c.close = c.resources.map .drop := by
  simp [Sockets.close, Sockets.resources, closeSocket_eq]

lemma dynmboxDestroy_eq {destroyChannel : Channel → Uses} {channel : Channel → List Res}
    (h : ∀ c, destroyChannel c = (channel c).map .drop) (b : Dynmbox Channel) :
    dynmboxDestroy destroyChannel (some b) = (b.resources channel).map .drop := by
  simp [dynmboxDestroy, Dynmbox.resources, h]

/-- Everything that belongs to a thing is given back, piece by piece. -/
lemma Obj.destroy_eq (o : Obj) : o.destroy = o.resources.map .drop := by
  cases o with
  | mbox b => rfl
  | dynmbox b =>
    have hpipe : ∀ fds, destroyNotifyChannel fds = (pipeResources fds).map .drop := fun _ => rfl
    exact dynmboxDestroy_eq hpipe b
  | winMbox b => simp [Obj.destroy, Obj.resources, Win.mboxDestroy, Win.Mbox.resources, Sockets.close_eq]
  | winDynmbox b => exact dynmboxDestroy_eq Sockets.close_eq b
  | watch fd => rfl

lemma changes_destroy (o : Obj) : Changes o.resources o.destroy [] := by
  rw [o.destroy_eq]
  exact changes_drops _

/-! ### Making -/

/-- What is taken in some order belongs to the thing in another. -/
lemma changes_takes_perm (rs : List Res) {post : List Res} (h : rs.Perm post) :
    Changes [] (rs.map .take) post := by
  have htakes := changes_takes [] rs
  rw [List.append_nil] at htakes
  exact htakes.perm (.refl _) ((List.reverse_perm rs).trans h)

lemma changes_mboxNew (pipeBuf msgSize : ℕ) (calloc : Option ℕ) (pipe : Sys (ℕ × ℕ)) :
    Changes [] (mboxNew pipeBuf msgSize calloc pipe).2
      (((mboxNew pipeBuf msgSize calloc pipe).1.map Mbox.resources).getD []) := by
  unfold mboxNew
  split_ifs
  · exact changes_nil
  · cases calloc with
    | none => exact changes_nil
    | some box =>
      cases pipe with
      | error err => exact (changes_take (Res.mem box)).append (changes_drop _)
      | ok fds =>
        have hfds : Changes [] [.take (.fd fds.1), .take (.fd fds.2)] [Res.fd fds.1, .fd fds.2] :=
          changes_takes_perm [.fd fds.1, .fd fds.2] (.refl _)
        exact hfds.after_take (.mem box)

/-- The mailbox of which the messages are modelled is there when this one is. -/
lemma isSome_dynmboxNew (maxMsgSize : ℕ) (calloc malloc : Option ℕ) (made : ℤ × Channel × Uses)
    (inits : Inits) (bufmem : Mem UInt8) :
    (dynmboxNew maxMsgSize calloc malloc made inits).1.isSome =
      (Dynmbox.dynmboxNew maxMsgSize calloc.isSome (malloc.map fun _ => bufmem) made.1).isSome := by
  unfold dynmboxNew Dynmbox.dynmboxNew
  by_cases hsize : maxMsgSize > Dynmbox.DYNMBOX_MAX_SIZE
  · rw [if_pos hsize, if_pos hsize]
    rfl
  rw [if_neg hsize, if_neg hsize]
  cases calloc with
  | none => rfl
  | some box =>
    cases malloc with
    | none => rfl
    | some addr =>
      dsimp only [Option.isSome_some, Option.map_some, Bool.not_true]
      by_cases hret : made.1 ≠ 0
      · simp [hret]
      · simp [hret]

/-- A channel is made, or nothing is kept of it. -/
def ChangesChannel (channel : Channel → List Res) (made : ℤ × Channel × Uses) : Prop :=
  Changes [] made.2.2 (if made.1 = 0 then channel made.2.1 else [])

lemma changes_dynmboxNew {channel : Channel → List Res} {made : ℤ × Channel × Uses}
    (h : ChangesChannel channel made) (maxMsgSize : ℕ) (calloc malloc : Option ℕ) :
    Changes [] (dynmboxNew maxMsgSize calloc malloc made ⟨true, true⟩).2
      (((dynmboxNew maxMsgSize calloc malloc made ⟨true, true⟩).1.map (Dynmbox.resources channel)).getD []) := by
  obtain ⟨ret, c, uses⟩ := made
  unfold dynmboxNew
  split_ifs
  · exact changes_nil
  cases calloc with
  | none => exact changes_nil
  | some box =>
    cases malloc with
    | none => exact (changes_take (Res.mem box)).append (changes_drop _)
    | some bufmem =>
      have htaken : Changes [] ([.take (.mem box), .take (.mem bufmem)] ++ uses)
          ((if ret = 0 then channel c else []) ++ [.mem bufmem, .mem box]) :=
        (changes_takes [] [Res.mem box, .mem bufmem]).append (h.frame [.mem bufmem, .mem box])
      dsimp only
      by_cases hret : ret = 0
      · rw [if_neg (not_not.mpr hret)]
        rw [if_pos hret] at htaken
        have hlock := htaken.append (changes_takes _ [Res.lock box, .cond box])
        exact hlock.perm (.refl _) (by simp [Dynmbox.resources])
      · rw [if_pos hret]
        rw [if_neg hret] at htaken
        exact htaken.append (changes_drops [Res.mem bufmem, .mem box])

lemma changes_initNotifyChannel (pipe : Sys (ℕ × ℕ)) : ChangesChannel pipeResources (initNotifyChannel pipe) := by
  cases pipe with
  | error err =>
    have hret : (-(err : ℕ) : ℤ) ≠ 0 := by
      have := err.pos
      omega
    unfold ChangesChannel initNotifyChannel
    dsimp only
    rw [if_neg hret]
    exact changes_nil
  | ok fds => exact changes_takes_perm [.fd fds.1, .fd fds.2] (.refl _)

/-- However many of the calls succeed, the sockets that are open are those in the structure. -/
lemma changes_run (calls : SocketCalls) : Changes [] calls.run.2.2 calls.run.2.1.resources := by
  have hone : ∀ server, Changes [] [.take (.fd server)] [Res.fd server] := fun server => changes_take _
  have htwo : ∀ server wfd, Changes [] [.take (.fd server), .take (.fd wfd)] [Res.fd server, .fd wfd] :=
    fun server wfd => changes_takes_perm [.fd server, .fd wfd] (.refl _)
  unfold SocketCalls.run
  split
  next => exact changes_nil
  next server _ =>
    split
    next => exact hone server
    next =>
      split
      next => exact hone server
      next wfd _ =>
        split
        next => exact htwo server wfd
        next =>
          split
          next => exact htwo server wfd
          next rfd _ =>
            exact changes_takes_perm [.fd server, .fd wfd, .fd rfd]
              ((List.Perm.swap (Res.fd rfd) (.fd wfd) []).cons (.fd server))

lemma changes_winMboxNew (msgSize : ℕ) (calloc : Option ℕ) (calls : SocketCalls) :
    Changes [] (Win.mboxNew msgSize calloc calls).2
      (((Win.mboxNew msgSize calloc calls).1.map Win.Mbox.resources).getD []) := by
  unfold Win.mboxNew
  split_ifs
  · exact changes_nil
  cases calloc with
  | none => exact changes_nil
  | some box =>
    have hopened := (changes_run calls).after_take (.mem box)
    generalize calls.run = opened at hopened ⊢
    obtain ⟨ret, sockets, uses⟩ := opened
    cases ret with
    | error err => exact hopened.append (changes_destroy (.winMbox ⟨box, sockets⟩))
    | ok => exact hopened

/-- A call that failed has an error number. -/
lemma wsa2errno_pos (err : ℕ) : 0 < Win.wsa2errno err := by
  unfold Win.wsa2errno
  split <;> decide

lemma changes_winInitNotifyChannel (calls : SocketCalls) :
    ChangesChannel Sockets.resources (Win.initNotifyChannel calls) := by
  have hopened := changes_run calls
  unfold Win.initNotifyChannel
  generalize calls.run = opened at hopened ⊢
  obtain ⟨ret, sockets, uses⟩ := opened
  cases ret with
  | error err =>
    have hret : (-(Win.wsa2errno err : ℕ) : ℤ) ≠ 0 := by
      have := wsa2errno_pos err
      omega
    unfold ChangesChannel
    dsimp only
    rw [if_neg hret]
    refine hopened.append ?_
    rw [Win.destroyNotifyChannel, Sockets.close_eq]
    exact changes_drops _
  | ok => exact hopened

lemma changes_inotifyCreate (inotifyInit inotifyAddWatch : Sys ℕ) :
    Changes [] (made (.inotifyCreate inotifyInit inotifyAddWatch)).2
      (madeResources (made (.inotifyCreate inotifyInit inotifyAddWatch)).1) := by
  cases inotifyInit with
  | error err => exact changes_nil
  | ok fd =>
    cases inotifyAddWatch with
    | error err => exact (changes_take (Res.fd fd)).append (changes_drop _)
    | ok wd =>
      have hmade : (made (.inotifyCreate (.ok fd) (.ok wd))).1 = some (.watch fd) := by
        simp [made, inotifyCreate]
      rw [hmade]
      exact changes_take _

lemma changes_synctool (fd : Sys ℕ) (fsync : Sys Unit) : Changes [] (synctool fd fsync).2 [] := by
  cases fd with
  | error err => exact changes_nil
  | ok fd => cases fsync <;> exact (changes_take (Res.fd fd)).append (changes_drop _)

lemma changes_syncFileAndFolder (slash : Bool) (file : Sys ℕ) (fsyncFile : Sys Unit) (strdup : Option ℕ)
    (folder : Sys ℕ) (fsyncFolder : Sys Unit) :
    Changes [] (syncFileAndFolder slash file fsyncFile strdup folder fsyncFolder).2 [] := by
  have hfile := changes_synctool file fsyncFile
  cases strdup with
  | none => exact hfile
  | some path =>
    refine hfile.append ?_
    cases slash with
    | false => exact (changes_take (Res.mem path)).append (changes_drop _)
    | true => exact ((changes_synctool folder fsyncFolder).after_take (.mem path)).append (changes_drop _)

/-- **Every call** keeps what belongs to its result, or destroys what it was given. -/
lemma changes_made {a : Act} (hinits : Inited s a) :
    (∃ o, a = .destroy o ∧ (made a).1 = none ∧ Changes o.resources (made a).2 []) ∨
      (∀ o, a ≠ .destroy o) ∧ Changes [] (made a).2 (madeResources (made a).1) := by
  cases a with
  | destroy o => exact .inl ⟨o, rfl, rfl, changes_destroy o⟩
  | mboxNew pipeBuf msgSize calloc pipe =>
    refine .inr ⟨fun o => by rintro ⟨⟩, ?_⟩
    have h := changes_mboxNew pipeBuf msgSize calloc pipe
    simpa [made, madeResources, Function.comp_def, Obj.resources] using h
  | dynmboxNew maxMsgSize calloc malloc pipe inits =>
    obtain rfl : inits = ⟨true, true⟩ := hinits
    refine .inr ⟨fun o => by rintro ⟨⟩, ?_⟩
    have h := changes_dynmboxNew (changes_initNotifyChannel pipe) maxMsgSize calloc malloc
    simpa [made, madeResources, Function.comp_def, Obj.resources] using h
  | winMboxNew msgSize calloc calls =>
    refine .inr ⟨fun o => by rintro ⟨⟩, ?_⟩
    have h := changes_winMboxNew msgSize calloc calls
    simpa [made, madeResources, Function.comp_def, Obj.resources] using h
  | winDynmboxNew maxMsgSize calloc malloc calls inits =>
    obtain rfl : inits = ⟨true, true⟩ := hinits
    refine .inr ⟨fun o => by rintro ⟨⟩, ?_⟩
    have h := changes_dynmboxNew (changes_winInitNotifyChannel calls) maxMsgSize calloc malloc
    simpa [made, madeResources, Function.comp_def, Obj.resources] using h
  | inotifyCreate inotifyInit inotifyAddWatch =>
    exact .inr ⟨fun o => by rintro ⟨⟩, changes_inotifyCreate inotifyInit inotifyAddWatch⟩
  | sync slash file fsyncFile strdup folder fsyncFolder =>
    exact .inr ⟨fun o => by rintro ⟨⟩,
      changes_syncFileAndFolder slash file fsyncFile strdup folder fsyncFolder⟩

/-! ### Runs -/

/-- What is held belongs to the things that there are. -/
structure Accounted (s : Proc) : Prop where
  held : s.held.Perm (s.live.flatMap Obj.resources)
  sound : s.misused = false

lemma flatMap_made (o : Option Obj) (live : List Obj) :
    (o.toList ++ live).flatMap Obj.resources = madeResources o ++ live.flatMap Obj.resources := by
  cases o <;> simp [madeResources]

lemma accounted_step {a : Act} (h : Accounted s) (hinits : Inited s a) (hs : procStep s a = some s') :
    Accounted s' := by
  obtain ⟨hheld, hsound⟩ := h
  rcases changes_made hinits with ⟨o, rfl, -, hchanges⟩ | ⟨hne, hchanges⟩
  · unfold procStep at hs
    dsimp only at hs
    split_ifs at hs with hlive
    · have hperm : s.held.Perm (o.resources ++ (s.live.erase o).flatMap Obj.resources) :=
        hheld.trans ((List.perm_cons_erase hlive).flatMap_right _)
      obtain ⟨after, hafter, hpost⟩ := hchanges _ s.held _ hperm le_rfl
      rw [Option.map_some, hafter] at hs
      obtain rfl := Option.some.inj hs
      exact ⟨hpost, hsound⟩
    · cases hs
  · have hperm : s.held.Perm ([] ++ s.live.flatMap Obj.resources) := hheld
    obtain ⟨after, hafter, hpost⟩ := hchanges _ s.held _ hperm le_rfl
    have hnext : procStep s a = some { s with held := after, live := (made a).1.toList ++ s.live } := by
      unfold procStep
      cases a with
      | destroy o => exact absurd rfl (hne o)
      | _ =>
        dsimp only
        rw [Option.map_some, hafter]
    obtain rfl := Option.some.inj (hnext.symm.trans hs)
    refine ⟨?_, hsound⟩
    change after.Perm (((made a).1.toList ++ s.live).flatMap Obj.resources)
    rw [flatMap_made]
    exact hpost

/-- **What is taken is given back.**  In every run of calls that make and destroy mailboxes and watches, and
that synchronise files, whatever calls of the system fail in them but those that make a lock or a condition
variable, nothing is given back that is not held, and what is held is what belongs to the things that were made
and not destroyed. -/
theorem accounted_of_reach (hr : Reach procStep Inited ⟨[], [], false⟩ s) :
    s.misused = false ∧ s.held.Perm (s.live.flatMap Obj.resources) := by
  have h : Accounted s :=
    hr.invariant (I := Accounted) ⟨.refl _, rfl⟩ fun _ _ _ h hinits hs => accounted_step h hinits hs
  exact ⟨h.sound, h.held⟩

/-- A mailbox is made and destroyed, and a mailbox of sockets fails when the last one cannot be made. -/
theorem accounted_of_reach_acceptFails :
    ∃ s, exec procStep Inited ⟨[], [], false⟩
        [.mboxNew 4096 16 (some 1) (.ok (3, 4)), .inotifyCreate (.ok 5) (.ok 1),
          .winDynmboxNew 100 (some 2) (some 3)
            ⟨.ok 6, .ok (), .ok (), .ok (), .ok 7, .ok (), .error 10038, .ok (), .ok ()⟩ ⟨true, true⟩,
          .destroy (.mbox ⟨1, (3, 4)⟩)] = some s ∧
      s.live = [.watch 5] ∧ s.misused = false ∧ s.held.Perm (s.live.flatMap Obj.resources) := by
  have hrun {s : Proc} (h : exec procStep Inited ⟨[], [], false⟩
      [.mboxNew 4096 16 (some 1) (.ok (3, 4)), .inotifyCreate (.ok 5) (.ok 1),
        .winDynmboxNew 100 (some 2) (some 3)
          ⟨.ok 6, .ok (), .ok (), .ok (), .ok 7, .ok (), .error 10038, .ok (), .ok ()⟩ ⟨true, true⟩,
        .destroy (.mbox ⟨1, (3, 4)⟩)] = some s) := accounted_of_reach (reach_of_exec h)
  exact ⟨_, rfl, rfl, hrun rfl⟩

/-- A mailbox whose lock could not be made gives back a lock that it does not have. -/
example : (exec procStep anyStep ⟨[], [], false⟩
    [.dynmboxNew 100 (some 1) (some 2) (.ok (3, 4)) ⟨false, true⟩, .destroy (.dynmbox ⟨1, 2, (3, 4)⟩)]).map
      (·.misused) = some true := rfl

end Futils.Resources
