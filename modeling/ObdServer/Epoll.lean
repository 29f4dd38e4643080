import ObdServer.Connections

/-! # The connections registered with epoll

What `ev_run` does between the callbacks of main-ev.c when its backend is epoll: the changes
libev keeps for each fd, their transfer to the epoll set before each `epoll_wait`, and the
events that come back. The watchers and the table are those of `Connections`; each of their
fds is a socket, so `epoll_ctl` does not fail with EPERM.
-/

namespace ObdServer

namespace Epoll

open Connections (AcceptCall Fault Recv)

/-- `EV_READ`. -/
def evRead : UInt8 := 0x01

/-- `EV_WRITE`. -/
def evWrite : UInt8 := 0x02

/-- `EV__IOFDSET`. -/
def evIofdset : UInt8 := 0x80

/-- `EV_ANFD_REIFY`. -/
def evAnfdReify : UInt8 := 1

/-- `ANFD`, of which `Connections` has the list of watchers. -/
structure Anfd where
  events : UInt8
  reify : UInt8
  emask : UInt8
  egen : UInt32
  deriving DecidableEq, Repr

/-- An fd in the epoll set: what it is watched for, and `data.u64`. -/
structure Registered where
  events : UInt8
  data : UInt64
  deriving DecidableEq, Repr

/-- What `epoll_wait` reports of an fd: EPOLLIN, EPOLLOUT, and EPOLLERR or EPOLLHUP. -/
structure Readiness where
  readable : Bool
  writable : Bool
  broken : Bool
  deriving DecidableEq, Repr

/-- `struct epoll_event`. -/
structure Event where
  readiness : Readiness
  data : UInt64
  deriving DecidableEq, Repr

inductive Errno where
  | ebadf
  | eexist
  | enoent
  /-- ENOMEM or ENOSPC. -/
  | full
  deriving DecidableEq, Repr

inductive EpollOp where
  | add
  | mod
  | del
  deriving DecidableEq, Repr

/-- Where `ev_run` is. -/
inductive Phase where
  /-- In `ev_invoke_pending`. -/
  | invoking
  /-- In `fd_reify`, at this entry of `fdchanges`. -/
  | reifying (i : Nat)
  /-- Before `epoll_wait`. -/
  | waiting
  /-- In `epoll_poll`, with these events to come. -/
  | receiving (events : List Event)
  deriving DecidableEq, Repr

structure State (Block : Type) where
  connections : Connections.State Block
  anfd : Nat → Anfd
  anfdmax : Nat
  /-- `fdchanges`, of which all are in use. -/
  fdchanges : List Nat
  /-- The epoll set in the kernel. -/
  epollSet : Nat → Option Registered
  postfork : Bool
  phase : Phase

/-- `data.u64`: the generation in the upper 32 bits, the fd in the lower ones. -/
def packed (fd : Nat) (egen : UInt32) : UInt64 :=
  (UInt32.ofNat fd).toUInt64 ||| (egen.toUInt64 <<< 32)

def packedFd (data : UInt64) : Nat := data.toUInt32.toNat

def packedEgen (data : UInt64) : UInt32 := (data >>> 32).toUInt32

variable {Block : Type}

namespace State

def initial (watchers : Block → Connections.EvIo) : State Block where
  connections := .initial watchers
  anfd _ := { events := 0, reify := 0, emask := 0, egen := 0 }
  anfdmax := 0
  fdchanges := []
  epollSet _ := none
  postfork := false
  phase := .invoking

/-- A function that does not concern the epoll set. -/
def onConnections (s : State Block) (f : Connections.State Block → Connections.State Block) :
    State Block :=
  { s with connections := f s.connections }

def setAnfd (s : State Block) (fd : Nat) (anfd : Anfd) : State Block :=
  { s with anfd := Function.update s.anfd fd anfd }

/-- `close`, by which the fd leaves the epoll set. -/
def close (s : State Block) (fd : Nat) : State Block :=
  { s.onConnections (·.close fd) with epollSet := Function.update s.epollSet fd none }

/-- `fd_change`. -/
def fdChange (s : State Block) (fd : Nat) (flags : UInt8) : State Block :=
  let reify := (s.anfd fd).reify
  let s := s.setAnfd fd { s.anfd fd with reify := reify ||| flags }
  if reify = 0 then { s with fdchanges := s.fdchanges ++ [fd] } else s

variable [DecidableEq Block]

/-- `ev_io_start` of a watcher fresh from `ev_io_init`. -/
def evIoStart (s : State Block) (w : Block) : State Block :=
  let io := s.connections.watchers w
  if io.active then s
  else
    { s.onConnections (·.evIoStart w) with anfdmax := max s.anfdmax (io.fd + 1) }.fdChange io.fd
      (evIofdset ||| evAnfdReify)

/-- `ev_io_stop`. -/
def evIoStop (s : State Block) (w : Block) : State Block :=
  let io := s.connections.watchers w
  let s := s.onConnections (·.evIoStop w)
  if io.active then s.fdChange io.fd evAnfdReify else s

/-- `fd_kill`. -/
def fdKill (s : State Block) (fd : Nat) : State Block :=
  (s.connections.anfds fd).foldl
    (fun s w => (s.evIoStop w).onConnections (·.evFeedEvent w true)) s

/-- `fd_event`; the watchers wait for EV_READ only. -/
def fdEvent (s : State Block) (fd : Nat) (revents : UInt8) : State Block :=
  if (s.anfd fd).reify = 0 then
    if evRead &&& revents = 0 then s else s.onConnections (·.fdEvent fd)
  else s

/-- `epoll_ctl` on a socket. `full` says whether the kernel has room for another fd. -/
def epollCtl (s : State Block) (op : EpollOp) (fd : Nat) (registered : Registered)
    (full : Bool) : Except Errno (State Block) :=
  if s.connections.isOpen fd = false then .error .ebadf
  else
    match op, s.epollSet fd with
    | .add, some _ => .error .eexist
    | .add, none =>
        if full then .error .full
        else .ok { s with epollSet := Function.update s.epollSet fd (some registered) }
    | .mod, some _ => .ok { s with epollSet := Function.update s.epollSet fd (some registered) }
    | .del, some _ => .ok { s with epollSet := Function.update s.epollSet fd none }
    | .mod, none | .del, none => .error .enoent

/-- `dec_egen` of `epoll_modify`. -/
def decEgen (s : State Block) (fd : Nat) : State Block :=
  s.setAnfd fd { s.anfd fd with egen := (s.anfd fd).egen - 1 }

def epollModify (s : State Block) (fd : Nat) (oev nev : UInt8) (full : Bool) : State Block :=
  if nev = 0 then s
  else
    let oldmask := (s.anfd fd).emask
    let egen := (s.anfd fd).egen + 1
    let s := s.setAnfd fd { s.anfd fd with emask := nev, egen }
    let registered : Registered := { events := nev, data := packed fd egen }
    let op := if oev ≠ 0 ∧ oldmask ≠ nev then .mod else .add
    match s.epollCtl op fd registered full with
    | .ok s => s
    | .error .enoent =>
        match s.epollCtl .add fd registered full with
        | .ok s => s
        | .error _ => (s.fdKill fd).decEgen fd
    | .error .eexist =>
        if oldmask = nev then s.decEgen fd
        else
          match s.epollCtl .mod fd registered full with
          | .ok s => s
          | .error _ => (s.fdKill fd).decEgen fd
    | .error _ => (s.fdKill fd).decEgen fd

/-- The body of the loop of `fd_reify`. -/
def fdReify (s : State Block) (fd : Nat) (full : Bool) : State Block :=
  let oEvents := (s.anfd fd).events
  let events := (s.connections.anfds fd).foldl (fun events _ => events ||| evRead) 0
  let oReify := if oEvents ≠ events then evIofdset else (s.anfd fd).reify
  let s := s.setAnfd fd { s.anfd fd with reify := 0, events }
  if oReify &&& evIofdset ≠ 0 then s.epollModify fd oEvents events full else s

/-- `got` in `epoll_poll`. -/
def got (ready : Readiness) : UInt8 :=
  (if ready.writable ∨ ready.broken then evWrite else 0) |||
    (if ready.readable ∨ ready.broken then evRead else 0)

/-- The body of the loop of `epoll_poll`. -/
def epollPoll (s : State Block) (event : Event) : State Block :=
  let fd := packedFd event.data
  let want := (s.anfd fd).events
  let got := got event.readiness
  if (s.anfd fd).egen ≠ packedEgen event.data then { s with postfork := true }
  else if got &&& ~~~ want ≠ 0 then
    let s := s.setAnfd fd { s.anfd fd with emask := want }
    let op := if want ≠ 0 then .mod else .del
    match s.epollCtl op fd { events := want, data := event.data } false with
    | .ok s => s.fdEvent fd got
    | .error _ => { s with postfork := true }
  else s.fdEvent fd got

/-- `fd_rearm_all`. -/
def fdRearmAll (s : State Block) : State Block :=
  (List.range s.anfdmax).foldl (fun s fd =>
    if (s.anfd fd).events ≠ 0 then
      (s.setAnfd fd { s.anfd fd with events := 0, emask := 0 }).fdChange fd
        (evIofdset ||| evAnfdReify)
    else s) s

/-- `loop_fork`, with `epoll_fork`. -/
def loopFork (s : State Block) : State Block :=
  { fdRearmAll { s with epollSet := fun _ => none } with postfork := false }

def free (s : State Block) (w : Option Block) : Except Fault (State Block) := do
  let connections ← s.connections.free w
  .ok { s with connections }

def setSlot (s : State Block) (fd : Nat) (w : Option Block) : Except Fault (State Block) := do
  let connections ← s.connections.setSlot fd w
  .ok { s with connections }

end State

variable [DecidableEq Block]

def freeLibev (s : State Block) (fd : Nat) : Except Fault (State Block) :=
  if fd > socketAllocMaxClient then .ok s
  else do
    match ← s.connections.slot fd with
    | none => .ok s
    | some w =>
        let s ← ((s.close fd).evIoStop w).free (some w)
        s.setSlot fd none

def acceptFuncCb (s : State Block) (call : AcceptCall Block) : Except Fault (State Block) :=
  match s.connections.malloc call.malloc call.stale with
  | (none, connections) => { s with connections }.free none
  | (some w, connections) =>
      let s : State Block := { s with connections }
      if call.evError then s.free (some w)
      else match call.socket with
        | none => s.free (some w)
        | some fd =>
            let s := s.onConnections (·.openSocket fd)
            if fd > socketAllocMaxClient then do
              let s ← s.free (some w)
              .ok (s.close fd)
            else do
              match ← s.connections.slot fd with
              | some _ => s.free (some w)
              | none => ((s.onConnections (·.evIoInit w fd)).evIoStart w).setSlot fd (some w)

def readFuncCb (s : State Block) (w : Block) (evError : Bool) (read : Recv) :
    Except Fault (State Block) :=
  if evError then .ok s
  else match read with
    | .failed => .ok s
    | .closed => freeLibev s (s.connections.watchers w).fd
    | .received => .ok s

inductive Label (Block : Type) where
  /-- The socket the server listens on is readable. -/
  | accept (call : AcceptCall Block)
  /-- `ev_invoke_pending` delivers the newest event. -/
  | invoke (read : Recv)
  /-- Nothing is pending, and `ev_run` turns to the epoll set. -/
  | loop
  | reify (full : Bool)
  | reified
  /-- `epoll_wait` returns with these fds. -/
  | wait (ready : List (Nat × Readiness))
  | poll
  | polled
  deriving DecidableEq

/-- The kernel reports an fd once, and only what it is watched for or an error. -/
def Reports (s : State Block) (ready : List (Nat × Readiness)) : Prop :=
  (ready.map Prod.fst).Nodup ∧ ∀ p ∈ ready, (s.epollSet p.1).any fun registered =>
    (!p.2.readable || registered.events &&& evRead ≠ 0) &&
      (!p.2.writable || registered.events &&& evWrite ≠ 0)

instance (s : State Block) (ready : List (Nat × Readiness)) : Decidable (Reports s ready) :=
  inferInstanceAs (Decidable (_ ∧ _))

def enabled (s : State Block) : Label Block → Prop
  | .accept call => s.phase = .invoking ∧ Connections.enabled s.connections (.accept call)
  | .invoke _ => s.phase = .invoking ∧ s.connections.pendings ≠ []
  | .loop => s.phase = .invoking ∧ s.connections.pendings = []
  | .reify _ => match s.phase with
      | .reifying i => i < s.fdchanges.length
      | _ => False
  | .reified => match s.phase with
      | .reifying i => s.fdchanges.length ≤ i
      | _ => False
  | .wait ready => s.phase = .waiting ∧ Reports s ready
  | .poll => match s.phase with
      | .receiving (_ :: _) => True
      | _ => False
  | .polled => s.phase = .receiving []

instance (s : State Block) (l : Label Block) : Decidable (enabled s l) := by
  cases l with
  | reify | reified | poll =>
      dsimp only [enabled]
      split <;> infer_instance
  | _ =>
      unfold enabled
      infer_instance

/-- The events `epoll_wait` stores. -/
def State.events (s : State Block) (ready : List (Nat × Readiness)) : List Event :=
  ready.filterMap fun p => (s.epollSet p.1).map fun registered =>
    { readiness := p.2, data := registered.data }

def next (s : State Block) : Label Block → State Block
  | .accept call => (acceptFuncCb s call).toOption.getD s
  | .invoke read => match s.connections.pendings with
      | [] => s
      | (w, evError) :: rest =>
          (readFuncCb { s with connections.pendings := rest } w evError read).toOption.getD s
  | .loop => { if s.postfork then s.loopFork else s with phase := .reifying 0 }
  | .reify full => match s.phase with
      | .reifying i => match s.fdchanges[i]? with
          | some fd => { s.fdReify fd full with phase := .reifying (i + 1) }
          | none => s
      | _ => s
  | .reified => { s with fdchanges := [], phase := .waiting }
  | .wait ready => { s with phase := .receiving (s.events ready) }
  | .poll => match s.phase with
      | .receiving (event :: rest) => { s.epollPoll event with phase := .receiving rest }
      | _ => s
  | .polled => { s with phase := .invoking }

end Epoll

open Transition in
/-- The event loop down to the calls of `epoll_ctl` and `epoll_wait`. -/
def epoll (Block : Type) [DecidableEq Block] : System (Epoll.State Block) (Epoll.Label Block) where
  init s := ∃ watchers, s = Epoll.State.initial watchers
  enabled := Epoll.enabled
  next := Epoll.next

instance {Block : Type} [DecidableEq Block] (s : Epoll.State Block) (l : Epoll.Label Block) :
    Decidable ((epoll Block).enabled s l) :=
  inferInstanceAs (Decidable (Epoll.enabled s l))

end ObdServer
