import ObdServer.PipelineLinks

/-! # The pipeline store by store

The queue functions and `list_init` once more. Taking `mq_mutex`, the reads a call begins
with, each store to a link and giving the mutex back are steps of their own, and between
two of them the other threads go on. A call takes effect with the reads it begins with. The
other steps are those of `Pipeline`, with `Malloc` and `Free` in one.
-/

namespace ObdServer

namespace Pipeline

open Transition CircularList

inductive Thread where
  | main
  | drain
  | worker (i : Nat)
  deriving DecidableEq

/-- Where the blocks are that a thread has. -/
def Thread.place : Thread → Place
  | .main => .callback
  | .drain => .drain
  | .worker i => .worker i

theorem Thread.place_injective {t t' : Thread} (same : t.place = t'.place) : t = t' := by
  cases t <;> cases t' <;> simp_all [Thread.place]

theorem Thread.place_ne (t : Thread) : t.place ≠ .obdMq := by
  cases t <;> simp [Thread.place]

/-- A statement of OBD_mq.h behind the reads of its function; `head` is `&mq->list`. -/
inductive Store (Ptr : Type) where
  /-- `list->next = list`. -/
  | initNext (list : Ptr)
  /-- `list->prev = list`. -/
  | initPrev (list : Ptr)
  /-- `current->next = head->next`. -/
  | currentNext (current : Ptr)
  /-- `head->next->prev = current`. -/
  | firstPrev (current : Ptr)
  /-- `head->next = current`. -/
  | headNext (current : Ptr)
  /-- `current->prev = head`. -/
  | currentPrev (current : Ptr)
  /-- `current->prev->next = head`. -/
  | lastNext (current : Ptr)
  /-- `head->prev = current->prev`. -/
  | headPrev (current : Ptr)
  | sizeInc
  | sizeDec
  | unlock
  deriving DecidableEq

def initStores {Ptr : Type} (list : Ptr) : List (Store Ptr) :=
  [.initNext list, .initPrev list]

/-- `mq_put` with the mutex taken. -/
def putStores {Ptr : Type} (current : Ptr) : List (Store Ptr) :=
  [.currentNext current, .firstPrev current, .headNext current, .currentPrev current, .sizeInc,
    .unlock]

/-- `mq_get` once it has read that `current` is the last node. -/
def getStores {Ptr : Type} (current : Ptr) : List (Store Ptr) :=
  [.lastNext current, .headPrev current, .initNext current, .initPrev current, .sizeDec, .unlock]

/-- `mq_mutex`: free, just taken with nothing of the body executed, or held. -/
inductive MqMutex where
  | free
  | taken (t : Thread)
  | held (t : Thread)
  deriving DecidableEq

/-- The pipeline with the nodes in memory and what is left of the stores each thread is to
    execute. No step looks at `state.obdMq` or `state.mqHeld`. -/
structure StoreState (Block : Type) where
  state : State Block
  mq : QueueState (ListPtr Block)
  mqMutex : MqMutex
  code : Thread → List (Store (ListPtr Block))

inductive StoreLabel (Block : Type) where
  | step (l : Label Block)
  /-- `pthread_mutex_lock(&mq_mutex)`. -/
  | lock (t : Thread)
  | store (t : Thread)
  deriving DecidableEq

variable {Block : Type}

/-- The thread whose turn it is; a signal is nobody's. -/
def Label.thread : Label Block → Option Thread
  | .readFuncCb _ | .recv _ | .release | .put | .leaveLoop | .joinDrain | .destroyThreadPool
  | .joinWorkers | .destroyObdPool => some .main
  | .sigint => none
  | .evalFlag | .isEmpty | .get | .add => some .drain
  | .grab i | .decode i _ | .workerRelease i | .workerExit i => some (.worker i)

/-- The body of a queue function, behind its lock. -/
def Label.body : Label Block → Bool
  | .put | .isEmpty | .get => true
  | _ => false

def StoreLabel.thread : StoreLabel Block → Option Thread
  | .step l => l.thread
  | .lock t | .store t => some t

/-- The thread is about to call `mq_put`, `mq_is_empty` or `mq_get`. -/
def AtLock (s : State Block) : Thread → Prop
  | .main => ∃ obd ∈ s.main.holds, s.main = .acknowledged obd
  | .drain => s.drain = .testing ∨ s.drain = .beforeGet
  | .worker _ => False

/-- Gives a thread stores to execute. -/
def StoreState.begin (x : StoreState Block) (t : Thread) (code : List (Store (ListPtr Block))) :
    StoreState Block :=
  { x with code := Function.update x.code t code }

variable [DecidableEq Block]

instance (s : State Block) (t : Thread) : Decidable (AtLock s t) := by
  cases t <;> unfold AtLock <;> infer_instance

def execStore {Ptr : Type} [DecidableEq Ptr] (q : QueueState Ptr) : Store Ptr → QueueState Ptr
  | .initNext list => { q with heap := q.heap.setNext list list }
  | .initPrev list => { q with heap := q.heap.setPrev list list }
  | .currentNext current => { q with heap := q.heap.setNext current (q.heap.next q.mq.list) }
  | .firstPrev current => { q with heap := q.heap.setPrev (q.heap.next q.mq.list) current }
  | .headNext current => { q with heap := q.heap.setNext q.mq.list current }
  | .currentPrev current => { q with heap := q.heap.setPrev current q.mq.list }
  | .lastNext current => { q with heap := q.heap.setNext (q.heap.prev current) q.mq.list }
  | .headPrev current => { q with heap := q.heap.setPrev q.mq.list (q.heap.prev current) }
  | .sizeInc => { q with mq.size := q.mq.size + 1 }
  | .sizeDec => { q with mq.size := q.mq.size - 1 }
  | .unlock => q

/-- A thread takes a step of the pipeline when it has executed its stores, and the body of a
    queue function when it has just taken the mutex. -/
def storeEnabled (x : StoreState Block) : StoreLabel Block → Prop
  | .step l =>
      (∀ t ∈ l.thread, x.code t = []) ∧ enabled { x.state with mqHeld := false } l ∧
        (l.body = true → ∃ t ∈ l.thread, x.mqMutex = .taken t)
  | .lock t => AtLock x.state t ∧ x.code t = [] ∧ x.mqMutex = .free
  | .store t => x.code t ≠ []

instance (x : StoreState Block) (l : StoreLabel Block) : Decidable (storeEnabled x l) := by
  cases l <;> unfold storeEnabled <;> infer_instance

/-- A step of the pipeline, up to the stores that it leaves to execute. -/
def beginStep (x : StoreState Block) : Label Block → StoreState Block
  | .readFuncCb fresh =>
      { x with state := next x.state (.readFuncCb fresh) }.begin .main
        (initStores (.node (malloc x.state.objPool fresh).1))
  -- whether `mq_put` or `OBD_release` comes next, `list_init` comes first
  | .recv event => match x.state.main with
      | .initialised obd =>
          { x with state := next x.state (.recv event) }.begin .main (initStores (.node obd))
      | _ => x
  | .put => match x.state.main with
      | .acknowledged obd =>
          { x with state := next x.state .put, mqMutex := .held .main }.begin .main
            (putStores (.node obd))
      | _ => x
  -- `mq_is_empty` returns without an unlock
  | .isEmpty =>
      { x with
        state.drain := if headIsAlone x.mq then .exited else .beforeGet
        state.mqHeld := true
        mqMutex := .held .drain }
  | .get =>
      if headIsAlone x.mq then
        { x with state.drain := .condition, mqMutex := .held .drain }.begin .drain [.unlock]
      else match x.mq.heap.prev x.mq.mq.list with
        | .node o =>
            { x with
              state.obdMq := x.state.obdMq.tail
              state.drain := .adding o
              mqMutex := .held .drain }.begin .drain (getStores (.node o))
        -- the test has just excluded this
        | .head => x
  | .decode i fuel => match x.state.workers[i]? with
      | some (.decoding o) =>
          { x with state := next x.state (.decode i fuel) }.begin (.worker i)
            (initStores (.node o))
      | _ => x
  | l => { x with state := next x.state l }

def nextStore (x : StoreState Block) : StoreLabel Block → StoreState Block
  | .step l => beginStep x l
  | .lock t => { x with mqMutex := .taken t }
  | .store t => match x.code t with
      | [] => x
      | a :: rest =>
          { x with
            mq := execStore x.mq a
            mqMutex := if a = Store.unlock then .free else x.mqMutex }.begin t rest

/-- The queue once the thread that holds the mutex has executed its stores. -/
def StoreState.settled (x : StoreState Block) : QueueState (ListPtr Block) :=
  match x.mqMutex with
  | .held t => (x.code t).foldl execStore x.mq
  | .free | .taken _ => x.mq

end Pipeline

open Transition Pipeline

/-- The server with its queue in single stores; `main` has called `mq_init` on `obd_mq`. -/
def storePipeline (Block : Type) [DecidableEq Block] :
    System (StoreState Block) (StoreLabel Block) where
  init x := (pipeline Block).init x.state ∧ (∃ heap, x.mq = mqInit heap .head) ∧
    x.mqMutex = .free ∧ ∀ t, x.code t = []
  enabled := storeEnabled
  next := nextStore

instance {Block : Type} [DecidableEq Block] (x : StoreState Block) (l : StoreLabel Block) :
    Decidable ((storePipeline Block).enabled x l) :=
  inferInstanceAs (Decidable (storeEnabled x l))

end ObdServer
