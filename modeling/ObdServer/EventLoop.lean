import ObdServer.Connections
import ObdServer.Pipeline

/-! # The event loop when memory is short

`accept_func_cb` and `read_func_cb` of main-ev.c from their first call to their last, where
`malloc` may fail and `accept` may return any descriptor that is not open. `Connections` has
what they do to the table of connections and `Pipeline` what becomes of a message; here a
callback is one step on both, and a fault in it ends the run.
-/

namespace ObdServer

namespace EventLoop

inductive Fault where
  | connections (fault : Connections.Fault)
  /-- `obd` has no value in `read_func_cb`, and what it points to is used. -/
  | indeterminatePointer
  deriving DecidableEq, Repr

/-- `obd` in `read_func_cb`. -/
inductive ObdPointer (Block : Type) where
  | valid (obd : Block)
  /-- `OBD_init` has returned without a value; what is found in its place may be `NULL`. -/
  | indeterminate (isNull : Bool)

structure State (Watcher Block : Type) where
  connections : Connections.State Watcher
  mem : Block → Obd
  /-- The free list of `obd_pool` from `pFirstAvailable` on. -/
  objPool : List Block
  /-- The blocks ever obtained from the system for `obd_pool`. -/
  obtained : List Block
  /-- `obd_mq`, oldest first. -/
  obdMq : List Block
  /-- The blocks the drain thread has taken and no worker has released. -/
  away : List Block

/-- What a call of `read_func_cb` gets from outside. -/
structure ReadCall (Block : Type) where
  /-- What `malloc` returns if asked. -/
  malloc : Option Block
  leftNull : Bool
  event : Pipeline.ReadEvent

variable {Watcher Block : Type}

namespace State

def initial (watchers : Watcher → Connections.EvIo) (mem : Block → Obd) :
    State Watcher Block where
  connections := .initial watchers
  mem := mem
  objPool := []
  obtained := []
  obdMq := []
  away := []

variable [DecidableEq Block]

def store (s : State Watcher Block) (obd : Block) (content : Obd) : State Watcher Block :=
  { s with mem := Function.update s.mem obd content }

/-- `OBD_init`. -/
def obdInit (s : State Watcher Block) (call : ReadCall Block) :
    ObdPointer Block × State Watcher Block :=
  match s.objPool with
  | obd :: rest => (.valid obd, { s with objPool := rest }.store obd (s.mem obd).init)
  | [] => match call.malloc with
      | some obd =>
          (.valid obd, { s with obtained := obd :: s.obtained }.store obd (s.mem obd).init)
      | none => (.indeterminate call.leftNull, s)

/-- `mq_put` of a block with this content. -/
def put (s : State Watcher Block) (obd : Block) (content : Obd) : State Watcher Block :=
  { s.store obd content with obdMq := s.obdMq ++ [obd] }

/-- `OBD_release` of a block. -/
def release (s : State Watcher Block) (obd : Block) : State Watcher Block :=
  { s.store obd (s.mem obd).release with objPool := obd :: s.objPool }

/-- `OBD_release`. -/
def obdRelease (s : State Watcher Block) : ObdPointer Block → Except Fault (State Watcher Block)
  | .valid obd => .ok (s.release obd)
  | .indeterminate true => .ok s
  | .indeterminate false => .error .indeterminatePointer

end State

/-- `obd` where a member of what it points to is named. -/
def ObdPointer.deref : ObdPointer Block → Except Fault Block
  | .valid obd => .ok obd
  | .indeterminate _ => .error .indeterminatePointer

/-- What a callback does to the connections alone. -/
def State.onConnections (s : State Watcher Block)
    (result : Except Connections.Fault (Connections.State Watcher)) :
    Except Fault (State Watcher Block) :=
  match result with
  | .ok connections => .ok { s with connections }
  | .error fault => .error (.connections fault)

variable [DecidableEq Watcher]

def acceptFuncCb (s : State Watcher Block) (call : Connections.AcceptCall Watcher) :
    Except Fault (State Watcher Block) :=
  s.onConnections (Connections.acceptFuncCb s.connections call)

variable [DecidableEq Block]

/-- `read_func_cb`; the buffer `recv` is given is `obd->data`. -/
def readFuncCb (s : State Watcher Block) (w : Watcher) (call : ReadCall Block) :
    Except Fault (State Watcher Block) :=
  let (obd, s) := s.obdInit call
  match call.event with
  | .evError => s.obdRelease obd
  | .recvError => do
      let _ ← obd.deref
      s.obdRelease obd
  | .closed => do
      let _ ← obd.deref
      let s ← s.obdRelease obd
      s.onConnections (Connections.freeLibev s.connections (s.connections.watchers w).fd)
  | .data bytes => do
      let o ← obd.deref
      let content := (s.mem o).store bytes
      if content.dataLength = 0 then (s.store o content).obdRelease obd
      else .ok (s.put o { content with id := obdGetCmd content })

inductive Label (Watcher Block : Type) where
  | accept (call : Connections.AcceptCall Watcher)
  | ready (fd : Nat)
  | kill (fd : Nat)
  /-- `ev_invoke_pending` delivers the newest event. -/
  | invoke (call : ReadCall Block)
  /-- The drain thread takes the oldest message. -/
  | drain
  /-- A worker releases a block, whatever it has left in it. -/
  | workerRelease (obd : Block) (content : Obd)

/-- What the callbacks ask of the system they may be refused, but neither address nor
    descriptor is given twice. -/
def enabled (s : State Watcher Block) : Label Watcher Block → Prop
  | .accept call =>
      (s.connections.evPool = [] → ∀ w ∈ call.malloc, w ∉ s.connections.obtained) ∧
        ∀ fd ∈ call.socket, s.connections.isOpen fd = false
  | .ready _ => True
  | .kill fd => s.connections.anfds fd ≠ []
  | .invoke call =>
      (∃ p ∈ s.connections.pendings.head?, p.2 = true ↔ call.event = .evError) ∧
        (s.objPool = [] → ∀ obd ∈ call.malloc, obd ∉ s.obtained) ∧ call.event.Possible
  | .drain => s.obdMq ≠ []
  | .workerRelease obd _ => obd ∈ s.away

instance (s : State Watcher Block) (l : Label Watcher Block) : Decidable (enabled s l) := by
  cases l <;> unfold enabled <;> infer_instance

def next (s : State Watcher Block) : Label Watcher Block → Except Fault (State Watcher Block)
  | .accept call => acceptFuncCb s call
  | .ready fd => .ok { s with connections := s.connections.fdEvent fd }
  | .kill fd => .ok { s with connections := s.connections.fdKill fd }
  | .invoke call => match s.connections.pendings with
      | [] => .ok s
      | (w, _) :: rest => readFuncCb { s with connections.pendings := rest } w call
  | .drain => match s.obdMq with
      | [] => .ok s
      | o :: rest => .ok { s with obdMq := rest, away := o :: s.away }
  | .workerRelease obd content =>
      .ok { s.store obd content with objPool := obd :: s.objPool, away := s.away.erase obd }

/-- An event that is delivered is the newest, and `read_func_cb` is called for it. -/
theorem next_invoke {s : State Watcher Block} {read : ReadCall Block}
    (enabled : enabled s (.invoke read)) : ∃ w error rest,
      s.connections.pendings = (w, error) :: rest ∧ (error = true ↔ read.event = .evError) ∧
        next s (.invoke read) = readFuncCb { s with connections.pendings := rest } w read := by
  obtain ⟨⟨p, newest, evError⟩, -⟩ := enabled
  cases queue : s.connections.pendings with
  | nil => simp [queue] at newest
  | cons first rest =>
      rw [queue, List.head?_cons, Option.mem_some_iff] at newest
      subst newest
      exact ⟨first.1, first.2, rest, rfl, evError, by simp only [next, queue]⟩

end EventLoop

open Transition in
/-- The event loop until a callback faults. -/
def eventLoop (Watcher Block : Type) [DecidableEq Watcher] [DecidableEq Block] :
    System (Except EventLoop.Fault (EventLoop.State Watcher Block))
      (EventLoop.Label Watcher Block) where
  init u := ∃ watchers mem, u = .ok (.initial watchers mem)
  enabled u l := match u with
    | .ok s => EventLoop.enabled s l
    | .error _ => False
  next u l := u.bind fun s => EventLoop.next s l

instance {Watcher Block : Type} [DecidableEq Watcher] [DecidableEq Block]
    (u : Except EventLoop.Fault (EventLoop.State Watcher Block))
    (l : EventLoop.Label Watcher Block) : Decidable ((eventLoop Watcher Block).enabled u l) :=
  match u with
  | .ok s => inferInstanceAs (Decidable (EventLoop.enabled s l))
  | .error _ => .isFalse id

end ObdServer
