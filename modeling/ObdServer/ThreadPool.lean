import ObdServer.Lib.RingBuffer

/-! # The thread pool of threadpool.c

The task queue is a ring buffer under the pool's lock, so that each function below is
what one thread does while it holds the lock. A task is its function together with its
argument. The thread identifiers, their counts and the condition variable decide nothing
here; who is woken is left open.
-/

namespace ObdServer

/-- `pool->shutdown`: zero, `immediate_shutdown` or `graceful_shutdown`. -/
inductive Shutdown where
  | running
  | immediate
  | graceful
  deriving DecidableEq, Repr

inductive ThreadpoolError where
  | queueFull
  | shutdown
  deriving DecidableEq, Repr

/-- `threadpool_t`. -/
structure Threadpool (Task : Type) where
  queue : Nat → Task
  queueSize : Nat
  head : Nat
  tail : Nat
  count : Nat
  shutdown : Shutdown

/-- What a worker does at the top of its loop, when it holds the lock. -/
inductive WorkerTurn where
  | wait
  | leave
  | grab
  deriving DecidableEq, Repr

variable {Task : Type}

/-- `threadpool_create`; the queue is not initialised. -/
def threadpoolCreate (queue : Nat → Task) (queueSize : Nat) : Threadpool Task :=
  { queue, queueSize, head := 0, tail := 0, count := 0, shutdown := .running }

/-- `threadpool_add`, which never looks at its flags. -/
def threadpoolAdd (pool : Threadpool Task) (task : Task) :
    Option ThreadpoolError × Threadpool Task :=
  let next := pool.tail + 1
  let next := if next = pool.queueSize then 0 else next
  if pool.count = pool.queueSize then (some .queueFull, pool)
  else if pool.shutdown ≠ .running then (some .shutdown, pool)
  else
    (none, { pool with
      queue := Function.update pool.queue pool.tail task
      tail := next
      count := pool.count + 1 })

/-- The first part of `threadpool_destroy`, up to the broadcast. -/
def threadpoolDestroy (pool : Threadpool Task) (graceful : Bool) :
    Option ThreadpoolError × Threadpool Task :=
  if pool.shutdown ≠ .running then (some .shutdown, pool)
  else (none, { pool with shutdown := if graceful then .graceful else .immediate })

/-- The wait and the test for the end in `threadpool_thread`. -/
def threadpoolThreadTurn (pool : Threadpool Task) : WorkerTurn :=
  if pool.count = 0 ∧ pool.shutdown = .running then .wait
  else if pool.shutdown = .immediate ∨ (pool.shutdown = .graceful ∧ pool.count = 0) then .leave
  else .grab

/-- `threadpool_thread` grabs its task. -/
def threadpoolThreadGrab (pool : Threadpool Task) : Task × Threadpool Task :=
  let head := pool.head + 1
  (pool.queue pool.head, { pool with
    head := if head = pool.queueSize then 0 else head
    count := pool.count - 1 })

namespace Threadpool

variable {pool : Threadpool Task} {task : Task}

/-- The tasks that wait, oldest first. -/
def tasks (pool : Threadpool Task) : List Task :=
  RingBuffer.contents pool.queue pool.queueSize pool.head pool.count

/-- The indices of the queue; a queue of size zero stays empty. -/
structure Valid (pool : Threadpool Task) : Prop where
  head : pool.head < pool.queueSize ∨ pool.queueSize = 0
  tail : pool.tail = (pool.head + pool.count) % pool.queueSize
  count : pool.count ≤ pool.queueSize

@[simp] theorem tasks_length : pool.tasks.length = pool.count :=
  RingBuffer.contents_length

theorem tasks_eq_nil_iff : pool.tasks = [] ↔ pool.count = 0 := by
  rw [← List.length_eq_zero_iff, tasks_length]

theorem create_valid (queue : Nat → Task) (queueSize : Nat) :
    (threadpoolCreate queue queueSize).Valid where
  head := Nat.eq_zero_or_pos queueSize |>.symm
  tail := (Nat.zero_mod queueSize).symm
  count := Nat.zero_le queueSize

@[simp] theorem create_tasks (queue : Nat → Task) (queueSize : Nat) :
    (threadpoolCreate queue queueSize).tasks = [] := rfl

/-! ## One lemma for each function -/

theorem add_refused (refuses : pool.count = pool.queueSize ∨ pool.shutdown ≠ .running)
    (task : Task) : ∃ error, threadpoolAdd pool task = (some error, pool) := by
  by_cases full : pool.count = pool.queueSize
  · exact ⟨.queueFull, if_pos full⟩
  · refine ⟨.shutdown, ?_⟩
    simp only [threadpoolAdd, if_neg full, if_pos (refuses.resolve_left full)]

theorem add_accepted (room : pool.count ≠ pool.queueSize) (running : pool.shutdown = .running)
    (task : Task) : threadpoolAdd pool task = (none, { pool with
      queue := Function.update pool.queue pool.tail task
      tail := if pool.tail + 1 = pool.queueSize then 0 else pool.tail + 1
      count := pool.count + 1 }) := by
  simp only [threadpoolAdd, if_neg room, running, ne_eq, not_true_eq_false, if_false]

theorem add_error_iff (pool : Threadpool Task) (task : Task) :
    (threadpoolAdd pool task).1.isSome = true ↔
      pool.count = pool.queueSize ∨ pool.shutdown ≠ .running := by
  by_cases refuses : pool.count = pool.queueSize ∨ pool.shutdown ≠ .running
  · obtain ⟨error, refused⟩ := add_refused refuses task
    simp only [refused, refuses, Option.isSome_some]
  · obtain ⟨room, running⟩ := not_or.mp refuses
    simp [add_accepted room (not_not.mp running), refuses]

/-- A task that is accepted waits behind all others. -/
theorem add_tasks (valid : pool.Valid) (room : pool.count ≠ pool.queueSize)
    (running : pool.shutdown = .running) (task : Task) :
    (threadpoolAdd pool task).2.tasks = pool.tasks ++ [task] := by
  simp only [add_accepted room running, tasks, valid.tail]
  exact RingBuffer.contents_push (Nat.lt_of_le_of_ne valid.count room) task

theorem add_valid (valid : pool.Valid) (room : pool.count ≠ pool.queueSize)
    (running : pool.shutdown = .running) (task : Task) :
    (threadpoolAdd pool task).2.Valid := by
  have some : pool.count < pool.queueSize := Nat.lt_of_le_of_ne valid.count room
  have inside : pool.tail < pool.queueSize := by
    rw [valid.tail]
    exact Nat.mod_lt _ (by omega)
  rw [add_accepted room running]
  refine ⟨valid.head, ?_, some⟩
  simp only [RingBuffer.wrap_succ inside]
  rw [valid.tail, Nat.mod_add_mod, Nat.add_assoc]

theorem add_shutdown (pool : Threadpool Task) (task : Task) :
    (threadpoolAdd pool task).2.shutdown = pool.shutdown := by
  by_cases refuses : pool.count = pool.queueSize ∨ pool.shutdown ≠ .running
  · obtain ⟨error, refused⟩ := add_refused refuses task
    rw [refused]
  · obtain ⟨room, running⟩ := not_or.mp refuses
    rw [add_accepted room (not_not.mp running)]

/-- A worker grabs the oldest task. -/
theorem grab_tasks (valid : pool.Valid) (some : pool.count ≠ 0) :
    pool.tasks = (threadpoolThreadGrab pool).1 :: (threadpoolThreadGrab pool).2.tasks := by
  have inside : pool.head < pool.queueSize := by
    have := valid.head
    have := valid.count
    omega
  obtain ⟨rest, count⟩ := Nat.exists_eq_succ_of_ne_zero some
  simp only [tasks, threadpoolThreadGrab, count, RingBuffer.wrap_succ inside]
  exact RingBuffer.contents_pop inside

theorem grab_valid (valid : pool.Valid) (some : pool.count ≠ 0) :
    (threadpoolThreadGrab pool).2.Valid := by
  have enough := valid.count
  have inside : pool.head < pool.queueSize := by
    have := valid.head
    omega
  obtain ⟨rest, count⟩ := Nat.exists_eq_succ_of_ne_zero some
  refine ⟨.inl ?_, ?_, ?_⟩
  · simp only [threadpoolThreadGrab, RingBuffer.wrap_succ inside]
    exact Nat.mod_lt _ (by omega)
  · simp only [threadpoolThreadGrab, RingBuffer.wrap_succ inside, valid.tail, count,
      Nat.mod_add_mod]
    congr 1
    omega
  · simp only [threadpoolThreadGrab]
    omega

/-- Shutting the pool down leaves its queue alone. -/
theorem destroy_tasks (pool : Threadpool Task) (graceful : Bool) :
    (threadpoolDestroy pool graceful).2.tasks = pool.tasks := by
  simp only [threadpoolDestroy]
  split_ifs <;> rfl

theorem destroy_valid (valid : pool.Valid) (graceful : Bool) :
    (threadpoolDestroy pool graceful).2.Valid := by
  simp only [threadpoolDestroy]
  split_ifs <;> exact ⟨valid.head, valid.tail, valid.count⟩

theorem destroy_immediate (running : pool.shutdown = .running) :
    (threadpoolDestroy pool false).2.shutdown = .immediate := by
  simp [threadpoolDestroy, running]

theorem turn_grab_iff : threadpoolThreadTurn pool = .grab ↔
    pool.count ≠ 0 ∧ pool.shutdown ≠ .immediate := by
  simp only [threadpoolThreadTurn]
  cases pool.shutdown <;> by_cases empty : pool.count = 0 <;> simp [empty]

theorem turn_leave_shutdown (leave : threadpoolThreadTurn pool = .leave) :
    pool.shutdown ≠ .running := by
  intro running
  by_cases empty : pool.count = 0 <;> simp [threadpoolThreadTurn, running, empty] at leave

end Threadpool

end ObdServer
