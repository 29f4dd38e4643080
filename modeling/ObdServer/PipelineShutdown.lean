import ObdServer.PipelineMessages

/-! # What is left when `main` returns

The drain thread leaves with `obd_mq` empty and every worker finishes the task it has, but
`threadpool_destroy` is asked to stop at once: tasks still queued when it sets the flag are
never run, and their blocks never reach the free list that `DestroyMemoryPool` walks.
-/

namespace ObdServer

namespace Pipeline

open Transition

variable {Block : Type} [DecidableEq Block] {s t u : State Block} {l : Label Block}
  {tr : List (State Block × Label Block)}

/-! ## From the stop of the thread pool on -/

/-- A step from a serving thread pool stops it only by `threadpool_destroy`. -/
theorem Step.stops (step : Step s l t) (before : s.main.stage < 3) (after : 3 ≤ t.main.stage) :
    l = .destroyThreadPool := by
  cases step with
  | destroyThreadPool => rfl
  | joinWorkers pc | destroyObdPool pc => simp [pc, MainPc.stage] at before
  | allocate | reuse | discard | acknowledge | release | put | leaveLoop | joinDrain =>
      simp [MainPc.stage] at after
  | _ => exact absurd before (Nat.not_lt.mpr after)

theorem exists_destroyThreadPool (init : (pipeline Block).init s)
    (run : Run (pipeline Block) s tr t) (stopped : 3 ≤ t.main.stage) :
    ∃ u, (u, .destroyThreadPool) ∈ tr := by
  induction run with
  | refl =>
      obtain ⟨mem, queue, queueSize, threadCount, rfl⟩ := init
      simp [State.initial, MainPc.stage] at stopped
  | @tail tr u l _ enabled ih =>
      rcases Nat.lt_or_ge u.main.stage 3 with before | already
      · obtain rfl := (step_of_enabled enabled).stops before stopped
        exact ⟨u, by simp⟩
      · obtain ⟨v, member⟩ := ih already
        exact ⟨v, List.mem_append_left _ member⟩

/-- A stopped thread pool keeps the tasks it has. -/
structure State.Stopped (tasks : List Block) (s : State Block) : Prop where
  phases : s.Phases
  stage : 3 ≤ s.main.stage
  tasks : s.threadPool.tasks = tasks

theorem State.Stopped.step {tasks : List Block} (stopped : s.Stopped tasks) (step : Step s l t) :
    t.Stopped tasks := by
  have phases := stopped.phases
  have immediate := phases.immediate stopped.stage
  have left := phases.joined (Nat.le_of_succ_le stopped.stage)
  refine ⟨phases.step step, ?_, ?_⟩
  · have stage := stopped.stage
    cases step with
    | allocate _ pc | reuse _ pc | discard _ pc | acknowledge _ pc | release _ pc | put pc
    | leaveLoop pc | joinDrain pc | destroyThreadPool pc =>
        simp [pc, MainPc.stage] at stage
    | joinWorkers | destroyObdPool => simp [MainPc.stage]
    | _ => exact stage
  · rw [← stopped.tasks]
    cases step with
    | destroyThreadPool => exact Threadpool.destroy_tasks _ _
    | addTask pc => simp [left] at pc
    | grab _ _ goesOn => exact absurd immediate goesOn
    | _ => rfl

/-- The tasks queued when `threadpool_destroy` sets its flag are there ever after. -/
theorem tasks_of_destroyThreadPool (init : (pipeline Block).init s)
    (run : Run (pipeline Block) s tr t) (member : (u, .destroyThreadPool) ∈ tr) :
    t.threadPool.tasks = u.threadPool.tasks := by
  obtain ⟨before, after, part, enabled, rest, -⟩ := run.cut member
  have phases := phases_of_run init part
  have start : (next u .destroyThreadPool).Stopped u.threadPool.tasks :=
    ⟨phases.step (step_of_enabled enabled), by simp [next, MainPc.stage],
      Threadpool.destroy_tasks _ _⟩
  have stopped := rest.preserves (State.Stopped u.threadPool.tasks)
    (fun _ _ stopped enabled => stopped.step (step_of_enabled enabled)) start
  exact stopped.tasks

theorem tasks_eq_nil_iff (init : (pipeline Block).init s) (run : Run (pipeline Block) s tr t)
    (stopped : 3 ≤ t.main.stage) : t.threadPool.tasks = [] ↔
      ∀ p ∈ tr, p.2 = .destroyThreadPool → p.1.threadPool.count = 0 := by
  obtain ⟨u, member⟩ := exists_destroyThreadPool init run stopped
  constructor
  · rintro empty ⟨v, l⟩ other rfl
    rwa [← Threadpool.tasks_eq_nil_iff, ← tasks_of_destroyThreadPool init run other]
  · intro empty
    rw [tasks_of_destroyThreadPool init run member, Threadpool.tasks_eq_nil_iff]
    exact empty _ member rfl

/-! ## The end of the run -/

/-- Nothing is left on the free list that has been destroyed. -/
theorem objPool_of_run (init : (pipeline Block).init s) (run : Run (pipeline Block) s tr t)
    (returned : t.main = .returned) : t.objPool = [] := by
  have start : s.Phases ∧ (s.main = .returned → s.objPool = []) := by
    refine ⟨phases_of_run init .refl, ?_⟩
    obtain ⟨mem, queue, queueSize, threadCount, rfl⟩ := init
    simp [State.initial]
  refine (run.preserves (fun u => u.Phases ∧ (u.main = .returned → u.objPool = []))
    ?_ start).2 returned
  rintro u l ⟨phases, empty⟩ enabled
  have step := step_of_enabled enabled
  refine ⟨phases.step step, ?_⟩
  show (next u l).main = .returned → (next u l).objPool = []
  generalize next u l = v at step ⊢
  cases step with
  | reuse | release => intro back; cases back
  | destroyObdPool => exact fun _ => rfl
  | workerRelease mem found =>
      intro back
      cases phases.workers (by simp_all [MainPc.stage]) _ (List.mem_of_getElem? found)
  | allocate | discard | acknowledge | put | leaveLoop | joinDrain | destroyThreadPool
  | joinWorkers => intro back; cases back
  | _ => exact empty

/-- When `main` has returned, a block obtained is freed, dropped or still a task, and a
    message carried is one of a task. -/
theorem returned_spec (init : (pipeline Block).init s) (run : Run (pipeline Block) s tr t)
    (returned : t.main = .returned) :
    (∀ b, t.threadPool.tasks.count b + t.history.dropped.count b + t.history.freed.count b =
      t.history.obtained.count b) ∧
    t.carried = t.threadPool.tasks.map t.history.message := by
  have phases := phases_of_run init run
  have late : t.main.stage = 5 := by rw [returned]; rfl
  have left := phases.joined (by omega)
  have empty := (phases.exited left).2
  have gone := phases.workers (by omega)
  have noBlock : t.workers.flatMap WorkerPc.holds = [] :=
    List.flatMap_eq_nil_iff.mpr fun pc member => by rw [gone pc member]; rfl
  have noMessage : t.workers.flatMap WorkerPc.undecoded = [] :=
    List.flatMap_eq_nil_iff.mpr fun pc member => by rw [gone pc member]; rfl
  constructor
  · intro b
    have ledger := (owned_of_run init run).ledger b
    simpa only [State.ledger, objPool_of_run init run returned, returned, left, empty, noBlock,
      MainPc.holds, DrainPc.holds, List.nil_append, List.append_nil, List.count_append]
      using ledger
  · simp only [State.carried, State.carriers, returned, left, empty, noMessage, MainPc.unput,
      DrainPc.holds, List.nil_append, List.append_nil]

end Pipeline

open Transition Pipeline

variable {Block : Type} [DecidableEq Block] {s t : Pipeline.State Block}
  {tr : List (Pipeline.State Block × Pipeline.Label Block)}

/-- In a run in which no `threadpool_add` fails and `main` returns, all messages are decoded
    and all blocks freed exactly when no task is queued at the call of
    `threadpool_destroy`. -/
theorem pipeline_drained_iff (init : (pipeline Block).init s) (run : Run (pipeline Block) s tr t)
    (noFailure : failedAdds tr = 0) (returned : t.main = .returned) :
    ((∀ m < t.history.acked, m ∈ t.history.decoded) ∧
        ∀ b ∈ t.history.obtained, t.history.freed.count b = 1) ↔
      ∀ p ∈ tr, p.2 = .destroyThreadPool → p.1.threadPool.count = 0 := by
  have kept : t.history.dropped = [] :=
    List.length_eq_zero_iff.mp ((dropped_of_run init run).trans noFailure)
  obtain ⟨blocks, messages⟩ := returned_spec init run returned
  have owned := owned_of_run init run
  have once : ∀ b ∈ t.history.obtained, t.history.obtained.count b = 1 := fun b obtained =>
    List.count_eq_one_of_mem owned.once obtained
  rw [← tasks_eq_nil_iff init run (by simp [returned, MainPc.stage])]
  simp only [kept, List.count_nil, Nat.add_zero] at blocks
  constructor
  · rintro ⟨-, freed⟩
    apply List.eq_nil_iff_forall_not_mem.mpr
    intro b queued
    have count := List.count_pos_iff.mpr queued
    have total := blocks b
    have obtained : b ∈ t.history.obtained := List.count_pos_iff.mp (by omega)
    have same := freed b obtained
    have single := once b obtained
    omega
  · intro empty
    simp only [empty, List.map_nil, List.count_nil, Nat.zero_add] at blocks messages
    refine ⟨fun m acked => ?_, fun b obtained => (blocks b).trans (once b obtained)⟩
    have total := delivered_of_run init run m
    have sent : (List.range t.history.acked).count m = 1 :=
      List.count_eq_one_of_mem List.nodup_range (List.mem_range.mpr acked)
    simp only [messages, State.lost, kept, List.map_nil, List.count_nil, sent] at total
    exact List.count_pos_iff.mp (by omega)

/-- SIGINT arrives when a task is queued that no worker has got to. -/
def Pipeline.stopWithTask : List (Pipeline.Label Nat) :=
  handOver 0 ++ [.sigint, .leaveLoop, .evalFlag, .isEmpty, .joinDrain, .destroyThreadPool] ++
    (List.range 8).map .workerExit ++ [.joinWorkers, .destroyObdPool]

theorem pipeline_drained_iff_stopWithTask :
    ((∀ m < (exec (pipeline Nat) mainInitial stopWithTask).history.acked,
          m ∈ (exec (pipeline Nat) mainInitial stopWithTask).history.decoded) ∧
        ∀ b ∈ (exec (pipeline Nat) mainInitial stopWithTask).history.obtained,
          (exec (pipeline Nat) mainInitial stopWithTask).history.freed.count b = 1) ↔
      ∀ p ∈ trace (pipeline Nat) mainInitial stopWithTask, p.2 = .destroyThreadPool →
        p.1.threadPool.count = 0 :=
  pipeline_drained_iff ⟨_, _, _, _, rfl⟩ (.ofSchedule _ (by decide +kernel)) (by decide +kernel)
    (by decide +kernel)

theorem pipeline_not_drained : ¬ ∀ (s t : Pipeline.State Nat) tr, (pipeline Nat).init s →
    Run (pipeline Nat) s tr t → failedAdds tr = 0 → t.main = .returned →
    (∀ m < t.history.acked, m ∈ t.history.decoded) ∧
      ∀ b ∈ t.history.obtained, t.history.freed.count b = 1 := by
  intro always
  have run : Run (pipeline Nat) mainInitial _ _ :=
    .ofSchedule stopWithTask (by decide +kernel)
  have drained := always _ _ _ ⟨_, _, _, _, rfl⟩ run (by decide +kernel) (by decide +kernel)
  have decoded := drained.1 0 (by decide +kernel)
  revert decoded
  decide +kernel

end ObdServer
