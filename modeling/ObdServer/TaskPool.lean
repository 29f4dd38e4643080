import ObdServer.Lib.Transition
import ObdServer.ThreadPool

/-! # The thread pool as its users see it

Each call of `threadpool_add`, the shutdown in `threadpool_destroy`, and each turn of a
worker is one step. There is no mutex and nobody sleeps: a worker that may not go on is
just not chosen.
-/

namespace ObdServer.TaskPool

open Transition

inductive Worker (Task : Type) where
  | idle
  | working (task : Task)
  | gone
  deriving DecidableEq, Repr

@[ext]
structure State (Task : Type) (n : Nat) where
  pool : Threadpool Task
  workers : Fin n → Worker Task
  accepted : List Task
  refused : List (Task × ThreadpoolError)
  taken : List Task
  finished : List Task

inductive Label (Task : Type) (n : Nat) where
  | add (task : Task)
  | destroy (graceful : Bool)
  | grab (j : Fin n)
  | finish (j : Fin n) (task : Task)
  | leave (j : Fin n)
  deriving DecidableEq

variable {Task : Type} {n : Nat}

def Enabled (s : State Task n) : Label Task n → Prop
  | .add _ | .destroy _ => True
  | .grab j => s.workers j = .idle ∧ threadpoolThreadTurn s.pool = .grab
  | .finish j task => s.workers j = .working task
  | .leave j => s.workers j = .idle ∧ threadpoolThreadTurn s.pool = .leave

def next (s : State Task n) : Label Task n → State Task n
  | .add task =>
      match threadpoolAdd s.pool task with
      | (none, pool) => { s with pool, accepted := s.accepted ++ [task] }
      | (some error, pool) => { s with pool, refused := s.refused ++ [(task, error)] }
  | .destroy graceful => { s with pool := (threadpoolDestroy s.pool graceful).2 }
  | .grab j =>
      let (task, pool) := threadpoolThreadGrab s.pool
      { s with
        pool
        workers := Function.update s.workers j (.working task)
        taken := s.taken ++ [task] }
  | .finish j task =>
      { s with
        workers := Function.update s.workers j .idle
        finished := s.finished ++ [task] }
  | .leave j => { s with workers := Function.update s.workers j .gone }

def initial (n : Nat) (queue : Nat → Task) (queueSize : Nat) : State Task n where
  pool := threadpoolCreate queue queueSize
  workers _ := .idle
  accepted := []
  refused := []
  taken := []
  finished := []

def taskPool (Task : Type) (n : Nat) : System (State Task n) (Label Task n) where
  init s := ∃ queue queueSize, s = initial n queue queueSize
  enabled := Enabled
  next := next

/-! ## First in, first out -/

/-- The tasks accepted so far are those taken so far and those in the queue, in order. -/
structure Fifo (s : State Task n) : Prop where
  valid : s.pool.Valid
  order : s.accepted = s.taken ++ s.pool.tasks

theorem Fifo.step {s : State Task n} {l : Label Task n} (fifo : Fifo s) (enabled : Enabled s l) :
    Fifo (next s l) := by
  cases l with
  | add task =>
      by_cases refuses : s.pool.count = s.pool.queueSize ∨ s.pool.shutdown ≠ .running
      · obtain ⟨error, refused⟩ := Threadpool.add_refused refuses task
        simp only [next, refused]
        exact ⟨fifo.valid, fifo.order⟩
      · obtain ⟨room, running⟩ := not_or.mp refuses
        have valid := Threadpool.add_valid fifo.valid room (not_not.mp running) task
        have tasks := Threadpool.add_tasks fifo.valid room (not_not.mp running) task
        rw [Threadpool.add_accepted room (not_not.mp running)] at valid tasks
        simp only [next, Threadpool.add_accepted room (not_not.mp running)]
        exact ⟨valid, by simp only [fifo.order, tasks, List.append_assoc]⟩
  | destroy graceful =>
      refine ⟨Threadpool.destroy_valid fifo.valid graceful, ?_⟩
      simp only [next, Threadpool.destroy_tasks]
      exact fifo.order
  | grab j =>
      have some := (Threadpool.turn_grab_iff.mp enabled.2).1
      refine ⟨Threadpool.grab_valid fifo.valid some, ?_⟩
      simp only [next, fifo.order, Threadpool.grab_tasks fifo.valid some, List.append_assoc,
        List.cons_append, List.nil_append]
  | finish j task | leave j => exact ⟨fifo.valid, fifo.order⟩

theorem fifo_of_run {queue : Nat → Task} {queueSize : Nat}
    {tr : List (State Task n × Label Task n)} {s : State Task n}
    (run : Run (taskPool Task n) (initial n queue queueSize) tr s) : Fifo s :=
  run.preserves Fifo (fun _ _ fifo enabled => fifo.step enabled)
    ⟨Threadpool.create_valid queue queueSize, rfl⟩

end ObdServer.TaskPool
