import ObdServer.PipelineSteps

/-! # The order in which the server goes down

The main thread sets `mq_flag`, joins the drain thread, shuts the thread pool down, joins
the workers and destroys the block pool. Each of these is a stage; what has ended by a
stage does not come back.
-/

namespace ObdServer.Pipeline

open Transition

variable {Block : Type} [DecidableEq Block] {s t : State Block} {l : Label Block}

/-- How far the main thread is with the shutdown; zero while it serves. -/
def MainPc.stage {Block : Type} : MainPc Block → Nat
  | .joiningDrain => 1
  | .destroyingThreadPool => 2
  | .joiningWorkers => 3
  | .destroyingObdPool => 4
  | .returned => 5
  | _ => 0

structure State.Phases (s : State Block) : Prop where
  flag : s.mqFlag = true ↔ 0 < s.main.stage
  testing : s.drain = .testing → 0 < s.main.stage
  exited : s.drain = .exited → 0 < s.main.stage ∧ s.obdMq = []
  joined : 2 ≤ s.main.stage → s.drain = .exited
  running : s.main.stage < 3 → s.threadPool.shutdown = .running
  immediate : 3 ≤ s.main.stage → s.threadPool.shutdown = .immediate
  workers : 4 ≤ s.main.stage → ∀ pc ∈ s.workers, pc = .exited

omit [DecidableEq Block] in
theorem State.Phases.initial (mem : Block → Obd) (queue : Nat → Block)
    (queueSize threadCount : Nat) :
    (State.initial mem queue queueSize threadCount).Phases := by
  constructor <;> simp [State.initial, MainPc.stage, threadpoolCreate]

theorem State.Phases.step (phases : s.Phases) (step : Step s l t) : t.Phases := by
  obtain ⟨flag, testing, exited, joined, running, immediate, workers⟩ := phases
  have busy : s.drain ≠ .exited → s.main.stage < 2 := fun goesOn =>
    Nat.not_le.mp fun stage => goesOn (joined stage)
  cases step with
  | allocate mem pc | reuse mem pc | discard mem pc | acknowledge mem pc | release mem pc =>
      rw [pc] at flag testing exited joined running immediate workers
      exact ⟨flag, testing, exited, joined, running, immediate, workers⟩
  | put pc =>
      rw [pc] at flag testing exited joined running immediate workers
      exact ⟨flag, testing, fun left => absurd (exited left).1 (Nat.lt_irrefl 0), joined, running,
        immediate, workers⟩
  | leaveLoop pc | joinDrain pc =>
      simp only [pc, MainPc.stage] at flag testing exited joined running immediate
      constructor <;> simp_all [MainPc.stage]
  | destroyThreadPool pc =>
      simp only [pc, MainPc.stage] at flag testing exited joined running
      have stopped := Threadpool.destroy_immediate (running (by decide))
      constructor <;> simp_all [MainPc.stage]
  | joinWorkers pc left =>
      simp only [pc, MainPc.stage] at flag testing exited joined immediate
      refine ⟨?_, ?_, ?_, ?_, ?_, ?_, fun _ => left⟩ <;> simp_all [MainPc.stage]
  | destroyObdPool pc =>
      simp only [pc, MainPc.stage] at flag testing exited joined immediate workers
      have left := workers (Nat.le_refl 4)
      refine ⟨?_, ?_, ?_, ?_, ?_, ?_, fun _ => left⟩ <;> simp_all [MainPc.stage]
  | sigint => exact ⟨flag, testing, exited, joined, running, immediate, workers⟩
  | evalFlag pc =>
      have early := busy (by simp [pc])
      refine ⟨flag, fun tests => ?_, fun left => ?_, fun late => ?_, running, immediate, workers⟩
      · by_cases set : s.mqFlag = true
        · exact flag.mp set
        · simp [set] at tests
      · cases set : s.mqFlag <;> simp [set] at left
      · exact absurd early (Nat.not_lt.mpr late)
  | isEmptyTrue pc empty =>
      exact ⟨flag, fun _ => testing pc, fun _ => ⟨testing pc, empty⟩, fun _ => rfl, running,
        immediate, workers⟩
  | isEmptyFalse pc | getNull pc | get pc | dropTask pc =>
      have early := busy (by simp [pc])
      exact ⟨flag, (by cases ·), (by cases ·), fun late => absurd early (Nat.not_lt.mpr late),
        running, immediate, workers⟩
  | @addTask o pc room isRunning =>
      have early := busy (by simp [pc])
      have kept := Threadpool.add_shutdown s.threadPool o
      exact ⟨flag, (by cases ·), (by cases ·), fun late => absurd early (Nat.not_lt.mpr late),
        fun stage => kept.trans (running stage), fun stage => kept.trans (immediate stage), workers⟩
  | grab found some goesOn =>
      have early : s.main.stage < 3 := Nat.not_le.mp fun stage => goesOn (immediate stage)
      exact ⟨flag, testing, exited, joined, running, immediate,
        fun late => absurd early (Nat.not_lt.mpr (Nat.le_of_succ_le late))⟩
  | decode mem found | workerRelease mem found =>
      refine ⟨flag, testing, exited, joined, running, immediate, fun stage => ?_⟩
      cases workers stage _ (List.mem_of_getElem? found)
  | workerExit found stopped =>
      refine ⟨flag, testing, exited, joined, running, immediate, fun stage pc member => ?_⟩
      rcases List.mem_or_eq_of_mem_set member with old | rfl
      · exact workers stage pc old
      · rfl

theorem phases_of_run {tr : List (State Block × Label Block)} (init : (pipeline Block).init s)
    (run : Run (pipeline Block) s tr t) : t.Phases := by
  obtain ⟨mem, queue, queueSize, threadCount, rfl⟩ := init
  exact run.preserves State.Phases (fun _ _ phases enabled => phases.step (step_of_enabled enabled))
    (.initial mem queue queueSize threadCount)

omit [DecidableEq Block] in
/-- Nothing goes on when all threads have come to their ends and the signal has come. -/
theorem halted_of_exited (returned : s.main = .returned) (drain : s.drain = .exited)
    (workers : ∀ pc ∈ s.workers, pc = .exited) (sigint : s.sigint = true) :
    ∀ l, ¬ enabled s l := by
  have gone : ∀ (i : Nat) pc, s.workers[i]? = some pc → pc = .exited :=
    fun i pc found => workers pc (List.mem_of_getElem? found)
  intro l enabled
  cases l with
  | readFuncCb | leaveLoop | joinDrain | destroyThreadPool | joinWorkers | destroyObdPool =>
      simp [Pipeline.enabled, returned] at enabled
  | recv =>
      obtain ⟨⟨obd, -, main⟩, -⟩ := enabled
      simp [returned] at main
  | release =>
      obtain ⟨obd, -, main⟩ := enabled
      simp [returned] at main
  | put =>
      obtain ⟨⟨obd, -, main⟩, -⟩ := enabled
      simp [returned] at main
  | sigint => simp [Pipeline.enabled, sigint] at enabled
  | evalFlag | isEmpty | get => simp [Pipeline.enabled, drain] at enabled
  | add =>
      obtain ⟨o, -, adding⟩ := enabled
      simp [drain] at adding
  | grab i | workerExit i => cases gone i _ enabled.1
  | decode i fuel =>
      obtain ⟨o, -, decoding, -⟩ := enabled
      cases gone i _ decoding
  | workerRelease i =>
      obtain ⟨o, -, releasing⟩ := enabled
      cases gone i _ releasing

end ObdServer.Pipeline
