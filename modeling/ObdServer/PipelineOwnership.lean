import ObdServer.Lib.Ledger
import ObdServer.PipelineSteps

/-! # Who owns a block

Every block obtained from the system is counted once over the places a block can be at:
no step copies a block or forgets one, except that a task refused by a full queue stays
with nobody.
-/

namespace ObdServer

namespace Pipeline

open Transition

variable {Block : Type} [DecidableEq Block] {s t : State Block} {l : Label Block} {b : Block}

/-- Where a block can be. -/
inductive Place where
  | objPool
  | callback
  | obdMq
  | drain
  | taskQueue
  | worker (i : Nat)
  | dropped
  deriving DecidableEq

namespace State

/-- The blocks at a place. -/
def blocksAt (s : State Block) : Place → List Block
  | .objPool => s.objPool
  | .callback => s.main.holds
  | .obdMq => s.obdMq
  | .drain => s.drain.holds
  | .taskQueue => s.threadPool.tasks
  | .worker i => s.workerHolds i
  | .dropped => s.history.dropped

/-- All blocks at all places, and those given back to the system. -/
def ledger (s : State Block) : List Block :=
  s.objPool ++ s.main.holds ++ s.obdMq ++ s.drain.holds ++ s.threadPool.tasks ++
    s.workers.flatMap WorkerPc.holds ++ s.history.dropped ++ s.history.freed

/-- Every block obtained is on the ledger exactly once. -/
structure Owned (s : State Block) : Prop where
  ledger : ∀ b, s.ledger.count b = s.history.obtained.count b
  once : s.history.obtained.Nodup
  queue : s.threadPool.Valid
  freed : s.main ≠ .returned → s.history.freed = []

end State

/-! ## The ledger over a step -/

theorem State.Owned.initial (mem : Block → Obd) (queue : Nat → Block)
    (queueSize threadCount : Nat) :
    (State.initial mem queue queueSize threadCount).Owned where
  ledger b := by
    have idle :
        (List.replicate threadCount (.waiting : WorkerPc Block)).flatMap WorkerPc.holds = [] := by
      simp [WorkerPc.holds]
    simp only [State.ledger, State.initial, MainPc.holds, DrainPc.holds,
      Threadpool.create_tasks, idle, List.append_nil]
  once := List.nodup_nil
  queue := Threadpool.create_valid queue queueSize
  freed _ := rfl

/-- What a step adds to the ledger is what it obtains from the system. -/
theorem ledger_step (valid : s.threadPool.Valid) (step : Step s l t) (b : Block) :
    t.ledger.count b + s.history.obtained.count b =
      s.ledger.count b + t.history.obtained.count b := by
  cases step with
  | allocate mem polling empty fresh =>
      simp only [State.ledger, List.count_append, List.count_cons, List.count_nil,
        MainPc.holds, polling]
      omega
  | reuse mem polling pool =>
      simp only [State.ledger, List.count_append, List.count_cons, List.count_nil,
        MainPc.holds, polling, pool]
      omega
  | discard mem pc | acknowledge mem pc | leaveLoop pc | joinDrain pc | joinWorkers pc =>
      simp only [State.ledger, MainPc.holds, pc]
  | release mem pc | put pc | destroyObdPool pc =>
      simp only [State.ledger, List.count_append, List.count_cons, List.count_nil,
        MainPc.holds, pc]
      omega
  | sigint => rfl
  | destroyThreadPool pc =>
      simp only [State.ledger, MainPc.holds, pc, Threadpool.destroy_tasks]
  | evalFlag pc =>
      cases s.mqFlag <;> simp [State.ledger, DrainPc.holds, pc]
  | isEmptyTrue pc | isEmptyFalse pc | getNull pc =>
      simp only [State.ledger, DrainPc.holds, pc]
  | get pc queue =>
      simp only [State.ledger, List.count_append, List.count_cons, List.count_nil,
        DrainPc.holds, pc, queue]
      omega
  | addTask pc room running =>
      simp only [State.ledger, List.count_append, List.count_cons, List.count_nil,
        DrainPc.holds, pc, Threadpool.add_tasks valid room running]
      omega
  | dropTask pc refuses =>
      simp only [State.ledger, List.count_append, List.count_cons, List.count_nil,
        DrainPc.holds, pc]
      omega
  | grab found some =>
      have moved := Ledger.count_flatMap_set (f := WorkerPc.holds) (b := b) found
        (.decoding (threadpoolThreadGrab s.threadPool).1)
      simp only [State.ledger, List.count_append, Threadpool.grab_tasks valid some,
        List.count_cons, WorkerPc.holds, List.count_nil] at moved ⊢
      omega
  | @decode i fuel o mem found =>
      have moved := Ledger.count_flatMap_set (f := WorkerPc.holds) (b := b) found (.releasing o)
      simp only [State.ledger, List.count_append, WorkerPc.holds] at moved ⊢
      omega
  | workerRelease mem found =>
      have moved := Ledger.count_flatMap_set (f := WorkerPc.holds) (b := b) found .waiting
      simp only [State.ledger, List.count_append, List.count_cons, WorkerPc.holds,
        List.count_nil] at moved ⊢
      omega
  | workerExit found =>
      have moved := Ledger.count_flatMap_set (f := WorkerPc.holds) (b := b) found .exited
      simp only [State.ledger, List.count_append, WorkerPc.holds, List.count_nil] at moved ⊢
      omega

theorem State.Owned.step (owned : s.Owned) (step : Step s l t) : t.Owned := by
  constructor
  · intro b
    have moved := ledger_step owned.queue step b
    have before := owned.ledger b
    omega
  · cases step with
    | allocate mem polling empty fresh => exact owned.once.cons fresh
    | _ => exact owned.once
  · cases step with
    | destroyThreadPool => exact Threadpool.destroy_valid owned.queue false
    | addTask _ room running => exact Threadpool.add_valid owned.queue room running _
    | grab _ some => exact Threadpool.grab_valid owned.queue some
    | _ => exact owned.queue
  · cases step with
    | destroyObdPool => exact fun alive => absurd rfl alive
    | evalFlag | sigint | isEmptyTrue | isEmptyFalse | getNull | get | addTask | dropTask
    | grab | decode | workerRelease | workerExit => exact owned.freed
    | allocate _ pc | reuse _ pc | discard _ pc | acknowledge _ pc | release _ pc | put pc
    | leaveLoop pc | joinDrain pc | destroyThreadPool pc | joinWorkers pc =>
        exact fun _ => owned.freed (by simp [pc])

/-! ## Exclusive ownership -/

/-- The step is a call of `threadpool_add` that fails. -/
def addFails (s : State Block) : Label Block → Bool
  | .add => match s.drain with
      | .adding o => (threadpoolAdd s.threadPool o).1.isSome
      | _ => false
  | _ => false

/-- How many calls of `threadpool_add` have failed in a run. -/
def failedAdds (tr : List (State Block × Label Block)) : Nat :=
  tr.countP fun p => addFails p.1 p.2

structure State.Exclusive (s : State Block) : Prop where
  place : ∀ b ∈ s.history.obtained, ∃! p, b ∈ s.blocksAt p
  obtained : ∀ p, ∀ b ∈ s.blocksAt p, b ∈ s.history.obtained
  once : ∀ p, (s.blocksAt p).Nodup
  release : ∀ obd, s.main = .releasing obd → obd ∉ s.objPool
  put : ∀ obd, s.main = .acknowledged obd → obd ∉ s.obdMq
  workerDecode : ∀ (i : Nat) (o : Block), s.workers[i]? = some (.decoding o) → o ∉ s.objPool
  workerRelease : ∀ (i : Nat) (o : Block), s.workers[i]? = some (.releasing o) → o ∉ s.objPool

theorem count_worker_le (s : State Block) (b : Block) (i : Nat) :
    (s.blocksAt (.worker i)).count b ≤ (s.workers.flatMap WorkerPc.holds).count b := by
  cases found : s.workers[i]? with
  | none => simp [State.blocksAt, State.workerHolds, found]
  | some pc => simpa [State.blocksAt, State.workerHolds, found] using Ledger.count_le_flatMap found

theorem count_two_workers_le (s : State Block) (b : Block) {i j : Nat} (other : i ≠ j) :
    (s.blocksAt (.worker i)).count b + (s.blocksAt (.worker j)).count b ≤
      (s.workers.flatMap WorkerPc.holds).count b := by
  cases first : s.workers[i]? with
  | none => simpa [State.blocksAt, State.workerHolds, first] using count_worker_le s b j
  | some pc =>
      cases second : s.workers[j]? with
      | none => simpa [State.blocksAt, State.workerHolds, second] using count_worker_le s b i
      | some pc' =>
          simpa [State.blocksAt, State.workerHolds, first, second] using
            Ledger.count_two_le_flatMap first second other

theorem count_two_places_le (s : State Block) (b : Block) (p q : Place) (other : p ≠ q) :
    (s.blocksAt p).count b + (s.blocksAt q).count b ≤ s.ledger.count b := by
  have one := count_worker_le s b
  have two : ∀ i j, i ≠ j → _ := fun i j => count_two_workers_le s b (i := i) (j := j)
  simp only [State.ledger, List.count_append]
  cases p with
  | worker i =>
      cases q with
      | worker j =>
          have both := two i j fun same => other (by rw [same])
          omega
      | _ =>
          have held := one i
          simp only [State.blocksAt] at held ⊢
          omega
  | _ =>
      cases q with
      | worker j =>
          have held := one j
          simp only [State.blocksAt] at held ⊢
          omega
      | _ => first | exact absurd rfl other | (simp only [State.blocksAt]; omega)

omit [DecidableEq Block] in
theorem exists_place (freed : s.history.freed = []) (listed : b ∈ s.ledger) :
    ∃ p, b ∈ s.blocksAt p := by
  simp only [State.ledger, freed, List.append_nil, List.mem_append] at listed
  rcases listed with (((((pool | main) | mq) | drain) | tasks) | workers) | dropped
  · exact ⟨.objPool, pool⟩
  · exact ⟨.callback, main⟩
  · exact ⟨.obdMq, mq⟩
  · exact ⟨.drain, drain⟩
  · exact ⟨.taskQueue, tasks⟩
  · obtain ⟨i, pc, found, held⟩ := Ledger.mem_flatMap_iff.mp workers
    exact ⟨.worker i, by simpa [State.blocksAt, State.workerHolds, found] using held⟩
  · exact ⟨.dropped, dropped⟩

theorem count_place_le (s : State Block) (b : Block) (p : Place) :
    (s.blocksAt p).count b ≤ s.ledger.count b := by
  obtain ⟨q, other⟩ : ∃ q : Place, p ≠ q := by
    by_cases pool : p = .objPool
    · exact ⟨.callback, by simp [pool]⟩
    · exact ⟨.objPool, pool⟩
  have both := count_two_places_le s b p q other
  omega

theorem State.Owned.count_le_one (owned : s.Owned) (b : Block) : s.ledger.count b ≤ 1 :=
  owned.ledger b ▸ List.nodup_iff_count_le_one.mp owned.once b

theorem State.Owned.obtained (owned : s.Owned) {p : Place} (here : b ∈ s.blocksAt p) :
    b ∈ s.history.obtained := by
  have listed := Nat.lt_of_lt_of_le (List.count_pos_iff.mpr here) (count_place_le s b p)
  exact List.count_pos_iff.mp (owned.ledger b ▸ listed)

/-- A block at two places would be on the ledger twice. -/
theorem State.Owned.apart (owned : s.Owned) {p q : Place} (other : p ≠ q)
    (here : b ∈ s.blocksAt p) : b ∉ s.blocksAt q := by
  intro there
  have countHere := List.count_pos_iff.mpr here
  have countThere := List.count_pos_iff.mpr there
  have both := count_two_places_le s b p q other
  have total := owned.count_le_one b
  omega

/-- A block the callback has, it has alone. -/
theorem State.Owned.callback_alone (owned : s.Owned) {obd : Block} (pc : s.main.holds = [obd])
    {p : Place} (other : p ≠ .callback) : obd ∉ s.blocksAt p :=
  owned.apart other.symm (by simp [State.blocksAt, pc])

/-- So does a worker. -/
theorem State.Owned.worker_alone (owned : s.Owned) {i : Nat} {pc : WorkerPc Block}
    (found : s.workers[i]? = some pc) {o : Block} (holds : pc.holds = [o]) {p : Place}
    (other : p ≠ .worker i) : o ∉ s.blocksAt p :=
  owned.apart other.symm (by simp [State.blocksAt, State.workerHolds, found, holds])

theorem State.Owned.exclusive (owned : s.Owned) (freed : s.history.freed = []) :
    s.Exclusive := by
  constructor
  · intro b obtained
    have once : s.ledger.count b = 1 := by
      rw [owned.ledger b]
      exact List.count_eq_one_of_mem owned.once obtained
    exact Ledger.exclusive
      (fun listed => exists_place freed (List.count_pos_iff.mp listed))
      (count_two_places_le s b) once
  · exact fun p b here => owned.obtained here
  · exact fun p => List.nodup_iff_count_le_one.mpr fun b =>
      Nat.le_trans (count_place_le s b p) (owned.count_le_one b)
  · exact fun obd pc => owned.callback_alone (p := .objPool) (by rw [pc]; rfl) (by simp)
  · exact fun obd pc => owned.callback_alone (p := .obdMq) (by rw [pc]; rfl) (by simp)
  · exact fun i o found => owned.worker_alone (p := .objPool) found rfl (by simp)
  · exact fun i o found => owned.worker_alone (p := .objPool) found rfl (by simp)

theorem dropped_step (step : Step s l t) :
    t.history.dropped.length = s.history.dropped.length + (addFails s l).toNat := by
  cases step with
  | addTask pc room running =>
      simp [addFails, pc, Threadpool.add_accepted room running]
  | @dropTask o pc refuses =>
      obtain ⟨error, refused⟩ := Threadpool.add_refused refuses o
      simp [addFails, pc, refused]
  | _ => rfl

theorem owned_of_run {s t : State Block} {tr : List (State Block × Label Block)}
    (init : (pipeline Block).init s) (run : Run (pipeline Block) s tr t) : t.Owned := by
  obtain ⟨mem, queue, queueSize, threadCount, rfl⟩ := init
  exact run.preserves State.Owned (fun _ _ owned enabled => owned.step (step_of_enabled enabled))
    (.initial mem queue queueSize threadCount)

theorem dropped_of_run {tr : List (State Block × Label Block)}
    (init : (pipeline Block).init s) (run : Run (pipeline Block) s tr t) :
    t.history.dropped.length = failedAdds tr := by
  induction run with
  | refl =>
      obtain ⟨mem, queue, queueSize, threadCount, rfl⟩ := init
      rfl
  | @tail tr u l _ enabled ih =>
      have taken := dropped_step (step_of_enabled enabled)
      rw [failedAdds, List.countP_append, List.countP_singleton]
      show (next u l).history.dropped.length = failedAdds tr + _
      rw [taken, ih]
      cases addFails u l <;> rfl

/-! ## How many blocks there are -/

/-- The blocks in use; those dropped are in use for ever. -/
def State.inUse (s : State Block) : List Block :=
  s.main.holds ++ s.obdMq ++ s.drain.holds ++ s.threadPool.tasks ++
    s.workers.flatMap WorkerPc.holds ++ s.history.dropped

theorem State.Owned.length (owned : s.Owned) :
    s.objPool.length + s.inUse.length + s.history.freed.length = s.history.obtained.length := by
  rw [← (List.perm_iff_count.mpr owned.ledger).length_eq]
  simp only [State.inUse, State.ledger, List.length_append]
  omega

/-- A block is obtained from the system only when all there are come into use. -/
theorem State.Owned.obtains (owned : s.Owned) (enabled : enabled s l) :
    (next s l).history.obtained.length =
      max s.history.obtained.length (next s l).inUse.length := by
  have step := step_of_enabled enabled
  have before := owned.length
  have after := (owned.step step).length
  generalize next s l = t at step after ⊢
  cases step with
  | allocate mem polling empty fresh =>
      simp only [empty, owned.freed (by simp [polling]), List.length_nil, List.length_cons]
        at before after ⊢
      omega
  | _ =>
      simp only at after ⊢
      omega

end Pipeline

open Transition Pipeline

variable {Block : Type} [DecidableEq Block] {s t : Pipeline.State Block}
  {tr : List (Pipeline.State Block × Pipeline.Label Block)}

/-- Before the pools are destroyed every block obtained is at exactly one place, and one
    has been dropped for each failed `threadpool_add`. -/
theorem pipeline_exclusive (init : (pipeline Block).init s) (run : Run (pipeline Block) s tr t)
    (alive : t.main ≠ .returned) : t.Exclusive ∧ t.history.dropped.length = failedAdds tr := by
  have owned := owned_of_run init run
  exact ⟨owned.exclusive (owned.freed alive), dropped_of_run init run⟩

/-- The state `main` starts serving from, with blocks numbered by address. -/
def Pipeline.mainInitial : Pipeline.State Nat :=
  .initial (fun _ => zeroBlock) (fun _ => 0) 8 8

/-- A message goes all the way, and its block back to the free list. -/
def Pipeline.oneMessage : List (Pipeline.Label Nat) :=
  [.readFuncCb 0, .recv (.data ['A'.toUInt8]), .put, .evalFlag, .get, .add, .grab 0, .decode 0 0,
    .workerRelease 0]

theorem pipeline_exclusive_oneMessage :
    (exec (pipeline Nat) mainInitial oneMessage).Exclusive ∧
      (exec (pipeline Nat) mainInitial oneMessage).history.dropped.length =
        failedAdds (trace (pipeline Nat) mainInitial oneMessage) :=
  pipeline_exclusive ⟨_, _, _, _, rfl⟩ (.ofSchedule _ (by decide +kernel)) (by decide +kernel)

/-- The server has obtained from the system exactly as many blocks as have ever been in use at
    one time. -/
theorem pipeline_footprint (init : (pipeline Block).init s) (run : Run (pipeline Block) s tr t) :
    (∀ u, Visits tr t u → u.inUse.length ≤ t.history.obtained.length) ∧
      ∃ u, Visits tr t u ∧ u.inUse.length = t.history.obtained.length := by
  refine run.peak State.Owned (fun u => u.history.obtained.length) (fun u => u.inUse.length)
    (fun u l owned enabled => ⟨owned.obtains enabled, owned.step (step_of_enabled enabled)⟩)
    (owned_of_run init .refl) ?_
  obtain ⟨mem, queue, queueSize, threadCount, rfl⟩ := init
  have owned := State.Owned.initial mem queue queueSize threadCount
  exact (owned.length.symm.trans (Nat.zero_add _))

theorem pipeline_footprint_oneMessage :
    (∀ u, Visits (trace (pipeline Nat) mainInitial oneMessage)
        (exec (pipeline Nat) mainInitial oneMessage) u →
      u.inUse.length ≤ (exec (pipeline Nat) mainInitial oneMessage).history.obtained.length) ∧
    ∃ u, Visits (trace (pipeline Nat) mainInitial oneMessage)
        (exec (pipeline Nat) mainInitial oneMessage) u ∧
      u.inUse.length = (exec (pipeline Nat) mainInitial oneMessage).history.obtained.length :=
  pipeline_footprint ⟨_, _, _, _, rfl⟩ (.ofSchedule oneMessage (by decide +kernel))

end ObdServer
