import ObdServer.Lib.Transition
import Mathlib.Logic.Function.Basic

/-! # Connections in the event loop

`accept_func_cb`, `read_func_cb` and `free_libev` of main-ev.c on the table of connections,
the pool of watchers and the part of libev they rely on: the watchers it has on each fd and
the events it has yet to deliver. The callbacks run one at a time. What `read_func_cb` does
with a message is in `Pipeline`.
-/

namespace ObdServer

/-- `SOCKET_ALLOC_MAX_CLIENT`. -/
abbrev socketAllocMaxClient : Nat := 20480

namespace Connections

inductive Fault where
  | nullPointer
  | outOfRange
  deriving DecidableEq, Repr

/-- `ev_io`. Its callback is `read_func_cb` and its events are EV_READ; `pending` and `next`
    are in the lists of the loop. -/
structure EvIo where
  active : Bool
  fd : Nat
  deriving DecidableEq, Repr

structure State (Block : Type) where
  /-- The free list of `ev_pool` from `pFirstAvailable` on. -/
  evPool : List Block
  /-- The blocks ever obtained from the system. -/
  obtained : List Block
  watchers : Block → EvIo
  /-- `libev_list`, of which only the first `socketAllocMaxClient` entries exist. -/
  libevList : Nat → Option Block
  /-- The sockets `accept` has returned that are not closed. -/
  isOpen : Nat → Bool
  /-- The list of watchers of each `anfds` entry. -/
  anfds : Nat → List Block
  /-- `pendings`, newest first, with whether the events of an entry include EV_ERROR. -/
  pendings : List (Block × Bool)

/-- What a call of `accept_func_cb` gets from outside. -/
structure AcceptCall (Block : Type) where
  /-- What `malloc` returns if asked, and what the memory of the block holds. -/
  malloc : Option Block
  stale : EvIo
  evError : Bool
  /-- What `accept` returns, `none` for an error. -/
  socket : Option Nat
  deriving DecidableEq

/-- What `recv` returns in `read_func_cb`. -/
inductive Recv where
  | failed
  | closed
  | received
  deriving DecidableEq, Repr

variable {Block : Type}

namespace State

def initial (watchers : Block → EvIo) : State Block where
  evPool := []
  obtained := []
  watchers := watchers
  libevList _ := none
  isOpen _ := false
  anfds _ := []
  pendings := []

/-- `libev_list[fd]`. -/
def slot (s : State Block) (fd : Nat) : Except Fault (Option Block) :=
  if fd < socketAllocMaxClient then .ok (s.libevList fd) else .error .outOfRange

/-- `libev_list[fd] = w`. -/
def setSlot (s : State Block) (fd : Nat) (w : Option Block) : Except Fault (State Block) :=
  if fd < socketAllocMaxClient then
    .ok { s with libevList := Function.update s.libevList fd w }
  else .error .outOfRange

def openSocket (s : State Block) (fd : Nat) : State Block :=
  { s with isOpen := Function.update s.isOpen fd true }

/-- `close`. -/
def close (s : State Block) (fd : Nat) : State Block :=
  { s with isOpen := Function.update s.isOpen fd false }

/-- `Free` of `ev_pool`. -/
def free (s : State Block) : Option Block → Except Fault (State Block)
  | none => .error .nullPointer
  | some w => .ok { s with evPool := w :: s.evPool }

variable [DecidableEq Block]

/-- `Malloc` of `ev_pool`. What a block holds is lost while it is free. -/
def malloc (s : State Block) (result : Option Block) (stale : EvIo) :
    Option Block × State Block :=
  match s.evPool with
  | w :: rest => (some w, { s with evPool := rest, watchers := Function.update s.watchers w stale })
  | [] => match result with
      | some w =>
          (some w, { s with
            obtained := w :: s.obtained
            watchers := Function.update s.watchers w stale })
      | none => (none, s)

/-- `ev_io_init`. -/
def evIoInit (s : State Block) (w : Block) (fd : Nat) : State Block :=
  { s with watchers := Function.update s.watchers w { active := false, fd } }

/-- `ev_io_start`. -/
def evIoStart (s : State Block) (w : Block) : State Block :=
  let fd := (s.watchers w).fd
  if (s.watchers w).active then s
  else
    { s with
      watchers := Function.update s.watchers w { active := true, fd }
      anfds := Function.update s.anfds fd (w :: s.anfds fd) }

/-- `clear_pending`; the entry it leaves calls nothing. -/
def clearPending (s : State Block) (w : Block) : State Block :=
  { s with pendings := s.pendings.filter (·.1 ≠ w) }

/-- `ev_io_stop`. -/
def evIoStop (s : State Block) (w : Block) : State Block :=
  let s := s.clearPending w
  let fd := (s.watchers w).fd
  if (s.watchers w).active then
    { s with
      anfds := Function.update s.anfds fd ((s.anfds fd).erase w)
      watchers := Function.update s.watchers w { active := false, fd } }
  else s

/-- `ev_feed_event`. -/
def evFeedEvent (s : State Block) (w : Block) (evError : Bool) : State Block :=
  if w ∈ s.pendings.map Prod.fst then
    { s with pendings := s.pendings.map fun p => if p.1 = w then (w, p.2 || evError) else p }
  else { s with pendings := (w, evError) :: s.pendings }

/-- `fd_event`: the fd is readable. -/
def fdEvent (s : State Block) (fd : Nat) : State Block :=
  (s.anfds fd).foldl (fun s w => s.evFeedEvent w false) s

/-- `fd_kill`. -/
def fdKill (s : State Block) (fd : Nat) : State Block :=
  (s.anfds fd).foldl (fun s w => (s.evIoStop w).evFeedEvent w true) s

end State

variable [DecidableEq Block]

def freeLibev (s : State Block) (fd : Nat) : Except Fault (State Block) :=
  if fd > socketAllocMaxClient then .ok s
  else do
    match ← s.slot fd with
    | none => .ok s
    | some w =>
        let s ← ((s.close fd).evIoStop w).free (some w)
        s.setSlot fd none

def acceptFuncCb (s : State Block) (call : AcceptCall Block) : Except Fault (State Block) :=
  match s.malloc call.malloc call.stale with
  | (none, s) => s.free none
  | (some w, s) =>
      if call.evError then s.free (some w)
      else match call.socket with
        | none => s.free (some w)
        | some fd =>
            let s := s.openSocket fd
            if fd > socketAllocMaxClient then do
              let s ← s.free (some w)
              .ok (s.close fd)
            else do
              match ← s.slot fd with
              | some _ => s.free (some w)
              | none => ((s.evIoInit w fd).evIoStart w).setSlot fd (some w)

def readFuncCb (s : State Block) (w : Block) (evError : Bool) (read : Recv) :
    Except Fault (State Block) :=
  if evError then .ok s
  else match read with
    | .failed => .ok s
    | .closed => freeLibev s (s.watchers w).fd
    | .received => .ok s

inductive Label (Block : Type) where
  | accept (call : AcceptCall Block)
  | ready (fd : Nat)
  | kill (fd : Nat)
  /-- `ev_invoke_pending` delivers the newest event. -/
  | invoke (read : Recv)
  deriving DecidableEq

/-- `malloc` succeeds, `accept` returns an fd that is not open and has no slot of its own
    past the end of the table, and libev kills only an fd it watches. -/
def enabled (s : State Block) : Label Block → Prop
  | .accept call =>
      (s.evPool = [] → (call.malloc).any (· ∉ s.obtained)) ∧
        ∀ fd ∈ call.socket, s.isOpen fd = false ∧ fd ≠ socketAllocMaxClient
  | .ready _ => True
  | .kill fd => s.anfds fd ≠ []
  | .invoke _ => s.pendings ≠ []

instance (s : State Block) (l : Label Block) : Decidable (enabled s l) := by
  cases l <;> unfold enabled <;> infer_instance

/-- A callback that faults leaves no state; `accept_step` and `invoke_step` show that none
    does. -/
def next (s : State Block) : Label Block → State Block
  | .accept call => (acceptFuncCb s call).toOption.getD s
  | .ready fd => s.fdEvent fd
  | .kill fd => s.fdKill fd
  | .invoke read => match s.pendings with
      | [] => s
      | (w, evError) :: rest =>
          (readFuncCb { s with pendings := rest } w evError read).toOption.getD s

end Connections

open Transition in
/-- The event loop and its connections. -/
def connections (Block : Type) [DecidableEq Block] :
    System (Connections.State Block) (Connections.Label Block) where
  init s := ∃ watchers, s = Connections.State.initial watchers
  enabled := Connections.enabled
  next := Connections.next

instance {Block : Type} [DecidableEq Block] (s : Connections.State Block)
    (l : Connections.Label Block) : Decidable ((connections Block).enabled s l) :=
  inferInstanceAs (Decidable (Connections.enabled s l))

end ObdServer
