import ObdServer.Lib.Monitor
import ObdServer.ThreadPool

/-! # threadpool.c statement by statement

One thread creates the pool, may destroy it and frees it; `n` workers run
`threadpool_thread`; any number of adders call `threadpool_add`, again and again. Each
access to the pool is a step of its own. The pthread calls succeed, except that
`pthread_create` may fail; the functions of the tasks are not NULL.
-/

namespace ObdServer.PoolThreads

open Monitor

inductive Thread (n : Nat) (Adder : Type) where
  | main
  | worker (j : Fin n)
  | adder (a : Adder)
  deriving DecidableEq

/-- `threadpool_create` after the pool is allocated, `threadpool_destroy` and
    `threadpool_free`. -/
inductive MainPc where
  | create (i : Nat)
  | pthreadCreate (i : Nat)
  | countThread (i : Nat)
  | countStarted (i : Nat)
  | publish
  | serving
  | destroyLock (graceful : Bool)
  | destroyTest (graceful : Bool)
  | setShutdown (graceful : Bool)
  | broadcast
  | destroyUnlock
  | joinTest (i : Nat)
  | joinThread (i : Nat)
  | free
  | freeQueue
  | freeLock
  | freePool
  | returned
  /-- `threadpool_destroy` returns `threadpool_shutdown`, the mutex not given back. -/
  | refused
  /-- `threadpool_free` returns -1. -/
  | notFreed
  deriving DecidableEq, Repr

/-- `threadpool_thread`. -/
inductive WorkerPc (Task : Type) where
  | lock
  | test
  | wait
  | decide
  | load
  | advance (task : Task)
  | wrap (task : Task)
  | decrement (task : Task)
  | unlock (task : Task)
  | run (task : Task)
  | leave
  | lastUnlock
  | exited
  deriving DecidableEq, Repr

/-- `threadpool_add`. -/
inductive AdderPc (Task : Type) where
  | outside
  | check (task : Task)
  | lock (task : Task)
  | computeNext (task : Task)
  | testFull (task : Task) (next : Nat)
  | testShutdown (task : Task) (next : Nat)
  | store (task : Task) (next : Nat)
  | setTail (next : Nat)
  | increment
  | signal
  | unlock (err : Option ThreadpoolError)
  deriving DecidableEq, Repr

/-- The first places of `threadpool_add`, one for each task. -/
def AdderPc.calls {Task : Type} : AdderPc Task → Bool
  | .check _ => true
  | _ => false

/-- `threadpool_t` with the fields that the threads themselves are counted in, and what has
    happened so far. -/
structure PoolData (Task : Type) where
  pool : Threadpool Task
  threadCount : Nat
  started : Int
  /-- The caller has the pool that `threadpool_create` returns. -/
  published : Bool
  queueFreed : Bool
  poolFreed : Bool
  accepted : List Task
  refused : List (Task × ThreadpoolError)
  taken : List Task
  finished : List Task

abbrev Pc (Task : Type) (n : Nat) (Adder : Type) : Thread n Adder → Type
  | .main => MainPc
  | .worker _ => WorkerPc Task
  | .adder _ => AdderPc Task

section Program

variable {Task : Type} {n : Nat} {Adder : Type}

/-- A failed `pthread_create` leads to `threadpool_destroy(pool, 0)`, and the pool is not
    returned. -/
def mainStmt : MainPc → Stmt (PoolData Task) (Pc Task n Adder) .main
  | .create i =>
      if i < n then .choose fun k => k = .pthreadCreate i ∨ k = .destroyLock false
      else .act fun d => (d, .publish)
  | .pthreadCreate i =>
      if started : i < n then .spawn (.worker ⟨i, started⟩) .lock (.countThread i) else .stop
  | .countThread i => .act fun d => ({ d with threadCount := d.threadCount + 1 }, .countStarted i)
  | .countStarted i => .act fun d => ({ d with started := d.started + 1 }, .create (i + 1))
  | .publish => .act fun d => ({ d with published := true }, .serving)
  | .serving => .choose fun k => k = .destroyLock false ∨ k = .destroyLock true
  | .destroyLock graceful => .lock (.destroyTest graceful)
  | .destroyTest graceful =>
      .act fun d => (d, if d.pool.shutdown ≠ .running then .refused else .setShutdown graceful)
  | .setShutdown graceful =>
      .act fun d =>
        ({ d with pool.shutdown := if graceful then .graceful else .immediate }, .broadcast)
  | .broadcast => .broadcast .destroyUnlock
  | .destroyUnlock => .unlock (.joinTest 0)
  | .joinTest i => .act fun d => (d, if i < d.threadCount then .joinThread i else .free)
  | .joinThread i =>
      if started : i < n then .join (.worker ⟨i, started⟩) (.joinTest (i + 1)) else .stop
  | .free => .act fun d => (d, if d.started > 0 then .notFreed else .freeQueue)
  | .freeQueue => .act fun d => ({ d with queueFreed := true }, .freeLock)
  | .freeLock => .lock .freePool
  | .freePool => .act fun d => ({ d with poolFreed := true }, .returned)
  | .returned | .refused | .notFreed => .stop

def workerStmt (j : Fin n) : WorkerPc Task → Stmt (PoolData Task) (Pc Task n Adder) (.worker j)
  | .lock => .lock .test
  | .test =>
      .act fun d => (d, if d.pool.count = 0 ∧ d.pool.shutdown = .running then .wait else .decide)
  | .wait => .wait .test
  | .decide =>
      .act fun d =>
        (d, if d.pool.shutdown = .immediate ∨ (d.pool.shutdown = .graceful ∧ d.pool.count = 0)
          then .leave else .load)
  | .load =>
      .act fun d =>
        let task := d.pool.queue d.pool.head
        ({ d with taken := d.taken ++ [task] }, .advance task)
  | .advance task => .act fun d => ({ d with pool.head := d.pool.head + 1 }, .wrap task)
  | .wrap task =>
      .act fun d =>
        ({ d with pool.head := if d.pool.head = d.pool.queueSize then 0 else d.pool.head },
          .decrement task)
  | .decrement task => .act fun d => ({ d with pool.count := d.pool.count - 1 }, .unlock task)
  | .unlock task => .unlock (.run task)
  | .run task => .act fun d => ({ d with finished := d.finished ++ [task] }, .lock)
  | .leave => .act fun d => ({ d with started := d.started - 1 }, .lastUnlock)
  | .lastUnlock => .unlock .exited
  | .exited => .stop

/-- An adder calls `threadpool_add` with any task; a pool that is still NULL is invalid. -/
def adderStmt (a : Adder) : AdderPc Task → Stmt (PoolData Task) (Pc Task n Adder) (.adder a)
  | .outside => .choose AdderPc.calls
  | .check task => .act fun d => (d, if d.published then .lock task else .outside)
  | .lock task => .lock (.computeNext task)
  | .computeNext task =>
      .act fun d =>
        let next := d.pool.tail + 1
        (d, .testFull task (if next = d.pool.queueSize then 0 else next))
  | .testFull task next =>
      .act fun d =>
        if d.pool.count = d.pool.queueSize then
          ({ d with refused := d.refused ++ [(task, .queueFull)] }, .unlock (some .queueFull))
        else (d, .testShutdown task next)
  | .testShutdown task next =>
      .act fun d =>
        if d.pool.shutdown ≠ .running then
          ({ d with refused := d.refused ++ [(task, .shutdown)] }, .unlock (some .shutdown))
        else (d, .store task next)
  | .store task next =>
      .act fun d =>
        ({ d with
            pool.queue := Function.update d.pool.queue d.pool.tail task
            accepted := d.accepted ++ [task] }, .setTail next)
  | .setTail next => .act fun d => ({ d with pool.tail := next }, .increment)
  | .increment => .act fun d => ({ d with pool.count := d.pool.count + 1 }, .signal)
  | .signal => .signal (.unlock none)
  | .unlock _ => .unlock .outside

def program (Task : Type) (n : Nat) (Adder : Type) :
    Program (PoolData Task) (Pc Task n Adder)
  | .main, pc => mainStmt pc
  | .worker j, pc => workerStmt j pc
  | .adder a, pc => adderStmt a pc

/-- `threadpool_create` has allocated the pool, whose queue is not initialised. -/
def initialData (queue : Nat → Task) (queueSize : Nat) : PoolData Task where
  pool := threadpoolCreate queue queueSize
  threadCount := 0
  started := 0
  published := false
  queueFreed := false
  poolFreed := false
  accepted := []
  refused := []
  taken := []
  finished := []

abbrev PoolState (Task : Type) (n : Nat) (Adder : Type) :=
  State (PoolData Task) (Pc Task n Adder)

def initial (n : Nat) (Adder : Type) (queue : Nat → Task) (queueSize : Nat) :
    PoolState Task n Adder where
  data := initialData queue queueSize
  owner := none
  threads
    | .main => .ready (.create 0)
    | .worker _ => .unborn
    | .adder _ => .ready .outside

end Program

/-- The thread pool with `n` workers and any queue. -/
def threads (Task : Type) (n : Nat) (Adder : Type) [DecidableEq Adder] :
    Transition.System (PoolState Task n Adder) (Label (Pc Task n Adder)) :=
  system (program Task n Adder) fun s => ∃ queue queueSize, s = initial n Adder queue queueSize

end ObdServer.PoolThreads
