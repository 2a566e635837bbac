import Futils.Dynmbox.Defs
import Futils.Lib.Ledger
import Futils.Mbox.Posix
import Mathlib.Data.PNat.Notation

/-!
# Making and destroying (`src/mbox.c`, `src/dynmbox.c`, `src/inotify.c`, `src/synctools.c`)

The functions that take memory and descriptors from the system and give them back, for both kinds of
systems.  What the calls of the system do is an argument: a call gives what it is asked for, or fails.  The
functions return the uses of the resources beside the result.
-/

namespace Futils.Resources

open Futils.Lib

/-- A block of memory, a descriptor or a socket, and what lies in a `struct dynmbox`. -/
inductive Res
  | mem (addr : ℕ)
  | fd (n : ℕ)
  | lock (box : ℕ)
  | cond (box : ℕ)
  deriving DecidableEq

abbrev Uses := List (Use Res)

/-- A call that may fail. -/
abbrev Sys (α : Type) := Except ℕ+ α

/-! ### Pipes -/

/-- `struct mbox` -/
structure Mbox where
  box : ℕ
  fds : ℕ × ℕ
  deriving DecidableEq

def mboxDestroy : Option Mbox → Uses
  | none => []
  | some b => [.drop (.fd b.fds.1), .drop (.fd b.fds.2), .drop (.mem b.box)]

/-- What `fcntl` does to the new descriptors is ignored. -/
def mboxNew (pipeBuf msgSize : ℕ) (calloc : Option ℕ) (pipe : Sys (ℕ × ℕ)) : Option Mbox × Uses :=
  if msgSize = 0 ∨ msgSize ≥ pipeBuf then (none, [])
  else
    match calloc with
    | none => (none, [])
    | some box =>
      match pipe with
      | .error _ => (none, [.take (.mem box), .drop (.mem box)])
      | .ok fds => (some ⟨box, fds⟩, [.take (.mem box), .take (.fd fds.1), .take (.fd fds.2)])

/-- `struct dynmbox` -/
structure Dynmbox (Channel : Type) where
  box : ℕ
  bufmem : ℕ
  channel : Channel
  deriving DecidableEq

/-- `dynmbox_destroy`, with the `destroy_notify_channel` of the system. -/
def dynmboxDestroy {Channel : Type} (destroyNotifyChannel : Channel → Uses) : Option (Dynmbox Channel) → Uses
  | none => []
  | some b =>
    [.drop (.cond b.box), .drop (.lock b.box)] ++ destroyNotifyChannel b.channel ++
      [.drop (.mem b.bufmem), .drop (.mem b.box)]

/-- Whether `pthread_mutex_init` and `pthread_cond_init` succeed, of which the results are ignored. -/
structure Inits where
  lock : Bool
  cond : Bool
  deriving DecidableEq

def Inits.uses (inits : Inits) (box : ℕ) : Uses :=
  (if inits.lock then [.take (.lock box)] else []) ++ if inits.cond then [.take (.cond box)] else []

/-- `dynmbox_new`, with what `init_notify_channel` did. -/
def dynmboxNew {Channel : Type} (maxMsgSize : ℕ) (calloc malloc : Option ℕ)
    (initNotifyChannel : ℤ × Channel × Uses) (inits : Inits) : Option (Dynmbox Channel) × Uses :=
  if maxMsgSize > Dynmbox.DYNMBOX_MAX_SIZE then (none, [])
  else
    match calloc with
    | none => (none, [])
    | some box =>
      match malloc with
      | none => (none, [.take (.mem box), .drop (.mem box)])
      | some bufmem =>
        let (ret, channel, uses) := initNotifyChannel
        if ret ≠ 0 then
          (none, [.take (.mem box), .take (.mem bufmem)] ++ uses ++ [.drop (.mem bufmem), .drop (.mem box)])
        else
          (some ⟨box, bufmem, channel⟩,
            [.take (.mem box), .take (.mem bufmem)] ++ uses ++ inits.uses box)

/-- `init_notify_channel`; the channel of a pipe that was not made is not used. -/
def initNotifyChannel (pipe : Sys (ℕ × ℕ)) : ℤ × (ℕ × ℕ) × Uses :=
  match pipe with
  | .error err => (-(err : ℕ), (0, 0), [])
  | .ok fds => (0, fds, [.take (.fd fds.1), .take (.fd fds.2)])

def destroyNotifyChannel (fds : ℕ × ℕ) : Uses := [.drop (.fd fds.1), .drop (.fd fds.2)]

/-! ### Sockets -/

/-- `server`, `rfd` and `wfd`; `none` is `INVALID_SOCKET`. -/
structure Sockets where
  server : Option ℕ
  rfd : Option ℕ
  wfd : Option ℕ
  deriving DecidableEq

/-- The calls by which the sockets are made; the last two set options of them. -/
structure SocketCalls where
  server : Sys ℕ
  bind : Sys Unit
  listen : Sys Unit
  getsockname : Sys Unit
  wfd : Sys ℕ
  connect : Sys Unit
  accept : Sys ℕ
  option₁ : Sys Unit
  option₂ : Sys Unit

/-- A socket that is not `INVALID_SOCKET` is closed. -/
def closeSocket : Option ℕ → Uses
  | none => []
  | some n => [.drop (.fd n)]

def Sockets.close (s : Sockets) : Uses := closeSocket s.server ++ closeSocket s.rfd ++ closeSocket s.wfd

/-- The calls one after the other, up to the first that fails. -/
def SocketCalls.run (c : SocketCalls) : Sys Unit × Sockets × Uses :=
  match c.server with
  | .error err => (.error err, ⟨none, none, none⟩, [])
  | .ok server =>
    match c.bind.bind fun _ => c.listen.bind fun _ => c.getsockname with
    | .error err => (.error err, ⟨some server, none, none⟩, [.take (.fd server)])
    | .ok _ =>
      match c.wfd with
      | .error err => (.error err, ⟨some server, none, none⟩, [.take (.fd server)])
      | .ok wfd =>
        match c.connect with
        | .error err => (.error err, ⟨some server, none, some wfd⟩, [.take (.fd server), .take (.fd wfd)])
        | .ok _ =>
          match c.accept with
          | .error err => (.error err, ⟨some server, none, some wfd⟩, [.take (.fd server), .take (.fd wfd)])
          | .ok rfd =>
            (c.option₁.bind fun _ => c.option₂, ⟨some server, some rfd, some wfd⟩,
              [.take (.fd server), .take (.fd wfd), .take (.fd rfd)])

namespace Win

/-- `struct mbox` -/
structure Mbox where
  box : ℕ
  sockets : Sockets
  deriving DecidableEq

def mboxDestroy : Option Mbox → Uses
  | none => []
  | some b => b.sockets.close ++ [.drop (.mem b.box)]

/-- The options are the non-blocking modes of `rfd` and `wfd`. -/
def mboxNew (msgSize : ℕ) (calloc : Option ℕ) (calls : SocketCalls) : Option Mbox × Uses :=
  if msgSize = 0 then (none, [])
  else
    match calloc with
    | none => (none, [])
    | some box =>
      let (ret, sockets, uses) := calls.run
      let opened := [.take (.mem box)] ++ uses
      match ret with
      | .error _ => (none, opened ++ mboxDestroy (some ⟨box, sockets⟩))
      | .ok _ => (some ⟨box, sockets⟩, opened)

def destroyNotifyChannel (sockets : Sockets) : Uses := sockets.close

/-- The error number for what `WSAGetLastError` returns, both as they are numbered on that system. -/
def wsa2errno (err : ℕ) : ℕ :=
  match err with
  | 10004 => 4 -- EINTR
  | 10009 => 9 -- EBADF
  | 10013 => 13 -- EACCES
  | 10022 => 22 -- EINVAL
  | 10024 => 24 -- EMFILE
  | 10035 => 140 -- EWOULDBLOCK
  | 10037 => 103 -- EALREADY
  | 10048 => 100 -- EADDRINUSE
  | 10054 => 108 -- ECONNRESET
  | 10060 => 138 -- ETIMEDOUT
  | 10093 => 40 -- WSANOTINITIALISED, ENOSYS
  | _ => 5 -- EIO

/-- The options are the non-blocking mode of `rfd` and `TCP_NODELAY` of `wfd`. -/
def initNotifyChannel (calls : SocketCalls) : ℤ × Sockets × Uses :=
  let (ret, sockets, uses) := calls.run
  match ret with
  | .error err => (-(wsa2errno err : ℕ), sockets, uses ++ destroyNotifyChannel sockets)
  | .ok _ => (0, sockets, uses)

end Win

/-! ### Watches and files -/

def inotifyDestroy (fd : ℤ) : Uses := if 0 ≤ fd then [.drop (.fd fd.toNat)] else []

def inotifyCreate (inotifyInit : Sys ℕ) (inotifyAddWatch : Sys ℕ) : ℤ × Uses :=
  match inotifyInit with
  | .error _ => (-1, inotifyDestroy (-1))
  | .ok fd =>
    match inotifyAddWatch with
    | .error _ => (-1, [.take (.fd fd)] ++ inotifyDestroy fd)
    | .ok _ => (fd, [.take (.fd fd)])

def synctool (fd : Sys ℕ) (fsync : Sys Unit) : ℤ × Uses :=
  match fd with
  | .error err => (-(err : ℕ), [])
  | .ok fd =>
    match fsync with
    | .error err => (-(err : ℕ), [.take (.fd fd), .drop (.fd fd)])
    | .ok _ => (0, [.take (.fd fd), .drop (.fd fd)])

/-- The path has a folder, if there is a slash in it. -/
def syncFileAndFolder (slash : Bool) (file : Sys ℕ) (fsyncFile : Sys Unit) (strdup : Option ℕ) (folder : Sys ℕ)
    (fsyncFolder : Sys Unit) : ℤ × Uses :=
  let uses := (synctool file fsyncFile).2
  match strdup with
  | none => (-ENOMEM, uses)
  | some path =>
    let (ret, uses') := if slash then synctool folder fsyncFolder else (-EINVAL, [])
    (ret, uses ++ ([.take (.mem path)] ++ uses' ++ [.drop (.mem path)]))

/-! ### A program that uses them -/

/-- What a program has made. -/
inductive Obj
  | mbox (b : Mbox)
  | dynmbox (b : Dynmbox (ℕ × ℕ))
  | winMbox (b : Win.Mbox)
  | winDynmbox (b : Dynmbox Sockets)
  | watch (fd : ℕ)
  deriving DecidableEq

def Obj.destroy : Obj → Uses
  | .mbox b => mboxDestroy (some b)
  | .dynmbox b => dynmboxDestroy destroyNotifyChannel (some b)
  | .winMbox b => Win.mboxDestroy (some b)
  | .winDynmbox b => dynmboxDestroy Win.destroyNotifyChannel (some b)
  | .watch fd => inotifyDestroy fd

/-- A call of one of the functions, with what the system does in it. -/
inductive Act
  | mboxNew (pipeBuf msgSize : ℕ) (calloc : Option ℕ) (pipe : Sys (ℕ × ℕ))
  | dynmboxNew (maxMsgSize : ℕ) (calloc malloc : Option ℕ) (pipe : Sys (ℕ × ℕ)) (inits : Inits)
  | winMboxNew (msgSize : ℕ) (calloc : Option ℕ) (calls : SocketCalls)
  | winDynmboxNew (maxMsgSize : ℕ) (calloc malloc : Option ℕ) (calls : SocketCalls) (inits : Inits)
  | inotifyCreate (inotifyInit inotifyAddWatch : Sys ℕ)
  | sync (slash : Bool) (file : Sys ℕ) (fsyncFile : Sys Unit) (strdup : Option ℕ) (folder : Sys ℕ)
      (fsyncFolder : Sys Unit)
  | destroy (o : Obj)

/-- What a call makes, and the uses of the resources in it. -/
def made : Act → Option Obj × Uses
  | .mboxNew pipeBuf msgSize calloc pipe => (mboxNew pipeBuf msgSize calloc pipe).map (Option.map .mbox) id
  | .dynmboxNew maxMsgSize calloc malloc pipe inits =>
    (dynmboxNew maxMsgSize calloc malloc (initNotifyChannel pipe) inits).map (Option.map .dynmbox) id
  | .winMboxNew msgSize calloc calls => (Win.mboxNew msgSize calloc calls).map (Option.map .winMbox) id
  | .winDynmboxNew maxMsgSize calloc malloc calls inits =>
    (dynmboxNew maxMsgSize calloc malloc (Win.initNotifyChannel calls) inits).map
      (Option.map .winDynmbox) id
  | .inotifyCreate inotifyInit inotifyAddWatch =>
    (inotifyCreate inotifyInit inotifyAddWatch).map (fun fd => if 0 ≤ fd then some (.watch fd.toNat) else none) id
  | .sync slash file fsyncFile strdup folder fsyncFolder =>
    (none, (syncFileAndFolder slash file fsyncFile strdup folder fsyncFolder).2)
  | .destroy o => (none, o.destroy)

/-- What is held, what was made and not destroyed, and whether something was given back that was not
held. -/
structure Proc where
  held : List Res
  live : List Obj
  misused : Bool

/-- A call; an object is destroyed once. -/
def procStep (s : Proc) (a : Act) : Option Proc :=
  let (o, uses) := made a
  let live := match a with
    | .destroy o => if o ∈ s.live then some (s.live.erase o) else none
    | _ => some (o.toList ++ s.live)
  live.map fun live =>
    match ledger (s.held.length + uses.length) s.held uses with
    | none => { s with misused := true }
    | some held => { s with held := held, live := live }

/-- A mailbox that the call makes has its lock and its condition variable. -/
def Inited (_ : Proc) : Act → Prop
  | .dynmboxNew _ _ _ _ inits | .winDynmboxNew _ _ _ _ inits => inits = ⟨true, true⟩
  | _ => True

instance (s : Proc) : DecidablePred (Inited s)
  | .dynmboxNew .. | .winDynmboxNew .. => inferInstanceAs (Decidable (_ = _))
  | .mboxNew .. | .winMboxNew .. | .inotifyCreate .. | .sync .. | .destroy .. => .isTrue trivial

end Futils.Resources
