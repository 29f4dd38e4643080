import ObdServer.Lib.Transition
import ObdServer.Message
import ObdServer.ThreadPool

/-! # The path of a message through the server

The event loop receives a message into a block of `obd_pool` and puts it in `obd_mq`, the
drain thread hands it to the thread pool, and a worker decodes it and releases the block.
Each call of `Malloc`, `Free`, `mq_put`, `mq_get`, `mq_is_empty`, `threadpool_add` and
`OBD_decode`, and each grab of a task, is one step. The main thread is the event loop
until SIGINT ends it, and then takes the server down. Allocation and the pthread calls
succeed.
-/

namespace ObdServer

namespace Pipeline

/-- What `read_func_cb` is told: its events have EV_ERROR, `recv` fails, the peer has
    closed, or some bytes arrive. -/
inductive ReadEvent where
  | evError
  | recvError
  | closed
  | data (bytes : List UInt8)
  deriving DecidableEq

/-- `recv` returns at most as many bytes as it is asked for. -/
def ReadEvent.Possible : ReadEvent → Prop
  | .data bytes => 0 < bytes.length ∧ bytes.length ≤ bufSize
  | _ => True

instance (event : ReadEvent) : Decidable event.Possible := by
  cases event <;> unfold ReadEvent.Possible <;> infer_instance

/-- The main thread: in `ev_run` outside of a callback, in `read_func_cb`, or behind
    `ev_run`. -/
inductive MainPc (Block : Type) where
  | polling
  | initialised (obd : Block)
  | releasing (obd : Block)
  | acknowledged (obd : Block)
  | joiningDrain
  | destroyingThreadPool
  | joiningWorkers
  | destroyingObdPool
  | returned
  deriving DecidableEq

/-- `thread_func_cb`. -/
inductive DrainPc (Block : Type) where
  | condition
  | testing
  | beforeGet
  | adding (o : Block)
  | exited
  deriving DecidableEq

/-- `threadpool_thread`, with `OBD_decode_thread` as its task. -/
inductive WorkerPc (Block : Type) where
  | waiting
  | decoding (o : Block)
  | releasing (o : Block)
  | exited
  deriving DecidableEq

/-! The block each thread has. -/

def MainPc.holds {Block : Type} : MainPc Block → List Block
  | .initialised obd | .releasing obd | .acknowledged obd => [obd]
  | _ => []

def DrainPc.holds {Block : Type} : DrainPc Block → List Block
  | .adding o => [o]
  | _ => []

def WorkerPc.holds {Block : Type} : WorkerPc Block → List Block
  | .decoding o | .releasing o => [o]
  | _ => []

/-- What has happened so far; no step looks at it, except that the system never returns an
    address it has returned before. A message is named by the number of its OK. -/
structure History (Block : Type) where
  obtained : List Block
  acked : Nat
  /-- The last message a block has held. -/
  message : Block → Nat
  decoded : List Nat
  dropped : List Block
  freed : List Block

structure State (Block : Type) where
  mem : Block → Obd
  /-- The free list of `obd_pool` from `pFirstAvailable` on. -/
  objPool : List Block
  /-- `obd_mq`, oldest first. -/
  obdMq : List Block
  mqFlag : Bool
  /-- `mq_is_empty` has returned with `mq_mutex` held. -/
  mqHeld : Bool
  threadPool : Threadpool Block
  sigint : Bool
  main : MainPc Block
  drain : DrainPc Block
  workers : List (WorkerPc Block)
  history : History Block

inductive Label (Block : Type) where
  /-- The event loop calls `read_func_cb`; `fresh` is what `malloc` returns if asked. -/
  | readFuncCb (fresh : Block)
  | recv (event : ReadEvent)
  | release
  | put
  | sigint
  | leaveLoop
  | joinDrain
  | destroyThreadPool
  | joinWorkers
  | destroyObdPool
  | evalFlag
  | isEmpty
  | get
  | add
  | grab (worker : Nat)
  /-- The bound is that of the decoder's loop. -/
  | decode (worker : Nat) (fuel : Nat)
  | workerRelease (worker : Nat)
  | workerExit (worker : Nat)
  deriving DecidableEq

variable {Block : Type}

/-- `Malloc`, where the system returns `fresh`. -/
def malloc (objPool : List Block) (fresh : Block) : Block × List Block :=
  match objPool with
  | [] => (fresh, [])
  | first :: rest => (first, rest)

namespace State

def initial (mem : Block → Obd) (queue : Nat → Block) (queueSize threadCount : Nat) :
    State Block where
  mem := mem
  objPool := []
  obdMq := []
  mqFlag := false
  mqHeld := false
  threadPool := threadpoolCreate queue queueSize
  sigint := false
  main := .polling
  drain := .condition
  workers := List.replicate threadCount .waiting
  history :=
    { obtained := [], acked := 0, message := fun _ => 0, decoded := [], dropped := [], freed := [] }

def workerHolds (s : State Block) (i : Nat) : List Block :=
  (s.workers[i]?).elim [] WorkerPc.holds

def setWorker (s : State Block) (i : Nat) (pc : WorkerPc Block) : State Block :=
  { s with workers := s.workers.set i pc }

variable [DecidableEq Block]

/-- `OBD_init` of a block already obtained. -/
def initBlock (s : State Block) (obd : Block) : State Block :=
  { s with mem := Function.update s.mem obd (s.mem obd).init }

/-- `OBD_release`. -/
def releaseBlock (s : State Block) (obd : Block) : State Block :=
  { s with
    mem := Function.update s.mem obd (s.mem obd).release
    objPool := obd :: s.objPool }

/-- `read_func_cb` from its `recv` up to the release or the put. -/
def afterRecv (s : State Block) (obd : Block) : ReadEvent → State Block
  | .evError | .recvError | .closed => { s with main := .releasing obd }
  | .data bytes =>
      let o := (s.mem obd).store bytes
      if o.dataLength = 0 then
        { s with mem := Function.update s.mem obd o, main := .releasing obd }
      else
        { s with
          mem := Function.update s.mem obd { o with id := obdGetCmd o }
          main := .acknowledged obd
          history.acked := s.history.acked + 1
          history.message := Function.update s.history.message obd s.history.acked }

/-- `threadpool_add` as the drain thread calls it: its result is not looked at. -/
def addTask (s : State Block) (o : Block) : State Block :=
  let (error, pool) := threadpoolAdd s.threadPool o
  { s with
    threadPool := pool
    drain := .condition
    history.dropped := if error.isSome then o :: s.history.dropped else s.history.dropped }

end State

variable [DecidableEq Block]

def enabled (s : State Block) : Label Block → Prop
  | .readFuncCb fresh => s.main = .polling ∧ (s.objPool = [] → fresh ∉ s.history.obtained)
  | .recv event => (∃ obd ∈ s.main.holds, s.main = .initialised obd) ∧ event.Possible
  | .release => ∃ obd ∈ s.main.holds, s.main = .releasing obd
  | .put => (∃ obd ∈ s.main.holds, s.main = .acknowledged obd) ∧ s.mqHeld = false
  | .sigint => s.sigint = false
  | .leaveLoop => s.main = .polling ∧ s.sigint = true
  | .joinDrain => s.main = .joiningDrain ∧ s.drain = .exited
  | .destroyThreadPool => s.main = .destroyingThreadPool
  | .joinWorkers => s.main = .joiningWorkers ∧ ∀ pc ∈ s.workers, pc = .exited
  | .destroyObdPool => s.main = .destroyingObdPool
  | .evalFlag => s.drain = .condition
  | .isEmpty => s.drain = .testing ∧ s.mqHeld = false
  | .get => s.drain = .beforeGet ∧ s.mqHeld = false
  | .add => ∃ o ∈ s.drain.holds, s.drain = .adding o
  | .grab i => s.workers[i]? = some .waiting ∧ threadpoolThreadTurn s.threadPool = .grab
  | .decode i fuel => ∃ o ∈ s.workerHolds i, s.workers[i]? = some (.decoding o) ∧
      (obdDecodeThread fuel (s.mem o)).isSome
  | .workerRelease i => ∃ o ∈ s.workerHolds i, s.workers[i]? = some (.releasing o)
  | .workerExit i => s.workers[i]? = some .waiting ∧ threadpoolThreadTurn s.threadPool = .leave

instance (s : State Block) (l : Label Block) : Decidable (enabled s l) := by
  cases l <;> unfold enabled <;> infer_instance

def next (s : State Block) : Label Block → State Block
  | .readFuncCb fresh =>
      let (obd, objPool) := malloc s.objPool fresh
      { s with
        objPool
        main := .initialised obd
        history.obtained := if s.objPool = [] then obd :: s.history.obtained
          else s.history.obtained }.initBlock obd
  | .recv event => match s.main with
      | .initialised obd => s.afterRecv obd event
      | _ => s
  | .release => match s.main with
      | .releasing obd => { s with main := .polling }.releaseBlock obd
      | _ => s
  | .put => match s.main with
      | .acknowledged obd => { s with obdMq := s.obdMq ++ [obd], main := .polling }
      | _ => s
  | .sigint => { s with sigint := true }
  | .leaveLoop => { s with mqFlag := true, main := .joiningDrain }
  | .joinDrain => { s with main := .destroyingThreadPool }
  | .destroyThreadPool =>
      { s with threadPool := (threadpoolDestroy s.threadPool false).2, main := .joiningWorkers }
  | .joinWorkers => { s with main := .destroyingObdPool }
  -- `DestroyMemoryPool` frees what it finds on the free list
  | .destroyObdPool =>
      { s with
        objPool := []
        main := .returned
        history.freed := s.objPool ++ s.history.freed }
  | .evalFlag => { s with drain := if s.mqFlag then .testing else .beforeGet }
  | .isEmpty => { s with drain := if s.obdMq = [] then .exited else .beforeGet, mqHeld := true }
  | .get => match s.obdMq with
      | [] => { s with drain := .condition }
      | o :: rest => { s with obdMq := rest, drain := .adding o }
  | .add => match s.drain with
      | .adding o => s.addTask o
      | _ => s
  | .grab i =>
      let (o, threadPool) := threadpoolThreadGrab s.threadPool
      { s with threadPool }.setWorker i (.decoding o)
  | .decode i fuel => match s.workers[i]? with
      | some (.decoding o) =>
          { s with
            mem := Function.update s.mem o ((obdDecodeThread fuel (s.mem o)).getD (s.mem o))
            history.decoded := s.history.message o :: s.history.decoded }.setWorker i
              (.releasing o)
      | _ => s
  | .workerRelease i => match s.workers[i]? with
      | some (.releasing o) => (s.releaseBlock o).setWorker i .waiting
      | _ => s
  | .workerExit i => s.setWorker i .exited

end Pipeline

open Transition in
/-- The server, with a task queue of any size and any number of workers. `main` asks for
    eight of each. -/
def pipeline (Block : Type) [DecidableEq Block] :
    System (Pipeline.State Block) (Pipeline.Label Block) where
  init s := ∃ mem queue queueSize threadCount,
    s = Pipeline.State.initial mem queue queueSize threadCount
  enabled := Pipeline.enabled
  next := Pipeline.next

instance {Block : Type} [DecidableEq Block] (s : Pipeline.State Block)
    (l : Pipeline.Label Block) : Decidable ((pipeline Block).enabled s l) :=
  inferInstanceAs (Decidable (Pipeline.enabled s l))

end ObdServer
