import ObdServer.PipelineOwnership
import ObdServer.PipelinePhases

/-! # Where the acknowledged messages are

Each message acknowledged is carried by a block, has been decoded, or was in a block that
`threadpool_add` refused. The drain thread does not look at the result of that call, so a
message is lost exactly when it finds the task queue full.
-/

namespace ObdServer

namespace Pipeline

open Transition

variable {Block : Type} [DecidableEq Block] {s t : State Block} {l : Label Block}

def MainPc.unput {Block : Type} : MainPc Block → List Block
  | .acknowledged obd => [obd]
  | _ => []

def WorkerPc.undecoded {Block : Type} : WorkerPc Block → List Block
  | .decoding o => [o]
  | _ => []

namespace State

/-- The blocks with a message acknowledged and not yet decoded. -/
def carriers (s : State Block) : List Block :=
  s.main.unput ++ s.obdMq ++ s.drain.holds ++ s.threadPool.tasks ++
    s.workers.flatMap WorkerPc.undecoded

/-- Those messages. -/
def carried (s : State Block) : List Nat := s.carriers.map s.history.message

/-- The messages in blocks that have been dropped. -/
def lost (s : State Block) : List Nat := s.history.dropped.map s.history.message

/-- The message is on its way or has been passed to `OBD_decode`. -/
def Accounted (s : State Block) (m : Nat) : Prop :=
  (∃ b, s.history.message b = m ∧
    (s.main = .acknowledged b ∨ b ∈ s.obdMq ∨ s.drain = .adding b ∨ b ∈ s.threadPool.tasks ∨
      ∃ i : Nat, s.workers[i]? = some (.decoding b))) ∨
  m ∈ s.history.decoded

/-- Every message acknowledged is carried, decoded or lost, and only one of these. -/
def Delivered (s : State Block) : Prop :=
  ∀ m, s.carried.count m + s.history.decoded.count m + s.lost.count m =
    (List.range s.history.acked).count m

end State

omit [DecidableEq Block] in
theorem MainPc.mem_unput {pc : MainPc Block} {b : Block} :
    b ∈ pc.unput ↔ pc = .acknowledged b := by
  cases pc <;> simp [MainPc.unput, eq_comm]

omit [DecidableEq Block] in
theorem DrainPc.mem_holds {pc : DrainPc Block} {b : Block} : b ∈ pc.holds ↔ pc = .adding b := by
  cases pc <;> simp [DrainPc.holds, eq_comm]

omit [DecidableEq Block] in
theorem WorkerPc.mem_undecoded {pc : WorkerPc Block} {b : Block} :
    b ∈ pc.undecoded ↔ pc = .decoding b := by
  cases pc <;> simp [WorkerPc.undecoded, eq_comm]

omit [DecidableEq Block] in
theorem State.accounted_iff {m : Nat} :
    s.Accounted m ↔ m ∈ s.carried ∨ m ∈ s.history.decoded := by
  simp only [State.Accounted, State.carried, State.carriers, List.mem_map, List.mem_append,
    MainPc.mem_unput, DrainPc.mem_holds, Ledger.mem_flatMap_iff, WorkerPc.mem_undecoded]
  apply or_congr_left
  constructor
  · rintro ⟨b, same, place⟩
    refine ⟨b, ?_, same⟩
    simpa [or_assoc] using place
  · rintro ⟨b, place, same⟩
    refine ⟨b, same, ?_⟩
    simpa [or_assoc] using place

theorem State.Owned.not_carrier (owned : s.Owned) {obd : Block} (pc : s.main = .initialised obd) :
    obd ∉ s.carriers ∧ obd ∉ s.history.dropped := by
  have holds : s.main.holds = [obd] := by rw [pc]; rfl
  refine ⟨fun carrier => ?_, owned.callback_alone holds (p := .dropped) (by simp)⟩
  simp only [State.carriers, List.mem_append, pc] at carrier
  rcases carrier with (((unput | mq) | drain) | tasks) | workers
  · cases unput
  · exact owned.callback_alone holds (p := .obdMq) (by simp) mq
  · exact owned.callback_alone holds (p := .drain) (by simp) drain
  · exact owned.callback_alone holds (p := .taskQueue) (by simp) tasks
  · obtain ⟨i, _, found, undecoded⟩ := Ledger.mem_flatMap_iff.mp workers
    rw [WorkerPc.mem_undecoded] at undecoded
    subst undecoded
    exact owned.worker_alone (p := .callback) found rfl (by simp) (by simp [State.blocksAt, holds])

theorem map_update_of_notMem {f : Block → Nat} {obd : Block} {bs : List Block} (v : Nat)
    (outside : obd ∉ bs) : bs.map (Function.update f obd v) = bs.map f :=
  List.map_congr_left fun _ member =>
    Function.update_of_ne (ne_of_mem_of_not_mem member outside) _ _

/-! ## The messages over a step -/

omit [DecidableEq Block] in
theorem State.Delivered.initial (mem : Block → Obd) (queue : Nat → Block)
    (queueSize threadCount : Nat) :
    (State.initial mem queue queueSize threadCount).Delivered := by
  have idle :
      (List.replicate threadCount (.waiting : WorkerPc Block)).flatMap WorkerPc.undecoded = [] := by
    simp [WorkerPc.undecoded]
  intro m
  simp only [State.carried, State.carriers, State.lost, State.initial, MainPc.unput,
    DrainPc.holds, Threadpool.create_tasks, idle]
  rfl

omit [DecidableEq Block] in
/-- What a worker does with its block, in terms of messages. -/
theorem count_workers_set {f : Block → Nat} {workers : List (WorkerPc Block)} {i : Nat}
    {pc : WorkerPc Block} (found : workers[i]? = some pc) (pc' : WorkerPc Block) (m : Nat) :
    (((workers.set i pc').flatMap WorkerPc.undecoded).map f).count m +
        (pc.undecoded.map f).count m =
      ((workers.flatMap WorkerPc.undecoded).map f).count m + (pc'.undecoded.map f).count m := by
  simp only [List.map_flatMap]
  exact Ledger.count_flatMap_set (f := fun pc => (WorkerPc.undecoded pc).map f) found pc'

theorem State.Delivered.step (delivered : s.Delivered) (owned : s.Owned) (step : Step s l t) :
    t.Delivered := by
  intro m
  have before := delivered m
  simp only [State.carried, State.carriers, State.lost, List.map_append, List.count_append]
    at before ⊢
  cases step with
  | allocate mem pc | reuse mem pc | discard mem pc | release mem pc | leaveLoop pc
  | joinDrain pc | joinWorkers pc | destroyObdPool pc =>
      simpa only [pc, MainPc.unput] using before
  | @acknowledge event obd mem pc =>
      obtain ⟨notCarrier, notDropped⟩ := owned.not_carrier pc
      have kept := map_update_of_notMem (f := s.history.message) s.history.acked notCarrier
      simp only [State.carriers, pc, MainPc.unput, List.nil_append, List.map_append] at kept
      have count := congrArg (List.count m) kept
      simp only [List.count_append] at count
      simp only [pc, MainPc.unput, map_update_of_notMem _ notDropped, List.map_cons, List.map_nil,
        Function.update_self, List.range_succ, List.count_append, List.count_nil] at before ⊢
      omega
  | put pc =>
      simp only [pc, MainPc.unput, List.map_append, List.count_append, List.map_nil,
        List.count_nil] at before ⊢
      omega
  | sigint => exact before
  | destroyThreadPool pc =>
      simpa only [pc, MainPc.unput, Threadpool.destroy_tasks] using before
  | evalFlag pc =>
      cases s.mqFlag <;> simpa [pc, DrainPc.holds] using before
  | isEmptyTrue pc | isEmptyFalse pc | getNull pc =>
      simpa only [pc, DrainPc.holds] using before
  | get pc queue =>
      simp only [pc, queue, DrainPc.holds, List.map_cons, List.map_nil, List.count_cons,
        List.count_nil] at before ⊢
      omega
  | addTask pc room running =>
      simp only [pc, DrainPc.holds, Threadpool.add_tasks owned.queue room running,
        List.map_append, List.count_append, List.map_nil, List.count_nil] at before ⊢
      omega
  | dropTask pc refuses =>
      simp only [pc, DrainPc.holds, List.map_cons, List.map_nil, List.count_cons,
        List.count_nil] at before ⊢
      omega
  | grab found some =>
      have moved := count_workers_set (f := s.history.message) found
        (.decoding (threadpoolThreadGrab s.threadPool).1) m
      simp only [Threadpool.grab_tasks owned.queue some, List.map_cons, List.count_cons] at before
      simp only [WorkerPc.undecoded, List.map_cons, List.map_nil, List.count_cons,
        List.count_nil] at moved ⊢
      omega
  | @decode i fuel o mem found =>
      have moved := count_workers_set (f := s.history.message) found (.releasing o) m
      simp only [WorkerPc.undecoded, List.map_cons, List.map_nil, List.count_cons,
        List.count_nil] at moved ⊢
      omega
  | workerRelease mem found =>
      have moved := count_workers_set (f := s.history.message) found .waiting m
      simp only [WorkerPc.undecoded] at moved ⊢
      omega
  | workerExit found =>
      have moved := count_workers_set (f := s.history.message) found .exited m
      simp only [WorkerPc.undecoded] at moved ⊢
      omega

theorem delivered_of_run {tr : List (State Block × Label Block)} (init : (pipeline Block).init s)
    (run : Run (pipeline Block) s tr t) : t.Delivered := by
  have start : s.Owned ∧ s.Delivered := by
    obtain ⟨mem, queue, queueSize, threadCount, rfl⟩ := init
    exact ⟨.initial mem queue queueSize threadCount, .initial mem queue queueSize threadCount⟩
  refine (run.preserves (fun u => u.Owned ∧ u.Delivered) ?_ start).2
  rintro u l ⟨owned, delivered⟩ enabled
  have step := step_of_enabled enabled
  exact ⟨owned.step step, delivered.step owned step⟩

/-! ## Losses -/

omit [DecidableEq Block] in
/-- A message acknowledged is accounted for unless its block has been dropped. -/
theorem State.Delivered.accounted_iff (delivered : s.Delivered) {m : Nat}
    (acked : m < s.history.acked) : s.Accounted m ↔ m ∉ s.lost := by
  have once : (List.range s.history.acked).count m = 1 :=
    List.count_eq_one_of_mem List.nodup_range (List.mem_range.mpr acked)
  have total := delivered m
  rw [once] at total
  rw [State.accounted_iff, ← List.count_pos_iff, ← List.count_pos_iff, ← List.count_eq_zero]
  omega

omit [DecidableEq Block] in
theorem State.Delivered.all_accounted_iff (delivered : s.Delivered) :
    (∀ m < s.history.acked, s.Accounted m) ↔ s.history.dropped = [] := by
  constructor
  · intro accounted
    rw [List.eq_nil_iff_forall_not_mem]
    intro b dropped
    have lost : s.history.message b ∈ s.lost := List.mem_map_of_mem dropped
    have acked : s.history.message b < s.history.acked := by
      have total := delivered (s.history.message b)
      have count := List.count_pos_iff.mpr lost
      exact List.mem_range.mp (List.count_pos_iff.mp (by omega))
    exact (delivered.accounted_iff acked).mp (accounted _ acked) lost
  · intro none m acked
    exact (delivered.accounted_iff acked).mpr (by simp [State.lost, none])

omit [DecidableEq Block] in
/-- A call of `threadpool_add` fails exactly when the queue is full: the thread pool is
    not shut down before the drain thread has exited. -/
theorem addFails_iff (phases : s.Phases) (enabled : enabled s .add) :
    addFails s .add = true ↔ s.threadPool.count = s.threadPool.queueSize := by
  obtain ⟨o, -, adding⟩ := enabled
  have early : s.main.stage < 3 := Nat.not_le.mp fun late => by
    have left := phases.joined (Nat.le_of_succ_le late)
    simp [adding] at left
  simp [addFails, adding, Threadpool.add_error_iff, phases.running early]

theorem dropped_eq_nil_iff {tr : List (State Block × Label Block)}
    (init : (pipeline Block).init s) (run : Run (pipeline Block) s tr t) :
    t.history.dropped = [] ↔
      ∀ p ∈ tr, p.2 = .add → p.1.threadPool.count ≠ p.1.threadPool.queueSize := by
  rw [← List.length_eq_zero_iff, dropped_of_run init run, failedAdds, List.countP_eq_zero]
  apply forall₂_congr
  intro p member
  obtain ⟨before, after, part, enabled, -⟩ := run.cut member
  have phases := phases_of_run init part
  obtain ⟨u, label⟩ := p
  cases label with
  | add => simp [addFails_iff phases enabled]
  | _ => simp [addFails]

end Pipeline

open Transition Pipeline

variable {Block : Type} [DecidableEq Block] {s t : Pipeline.State Block}
  {tr : List (Pipeline.State Block × Pipeline.Label Block)}

/-- Every message acknowledged is on its way or decoded exactly when the task queue had
    room at each call of `threadpool_add`. -/
theorem pipeline_accounted_iff (init : (pipeline Block).init s)
    (run : Run (pipeline Block) s tr t) :
    (∀ m < t.history.acked, t.Accounted m) ↔
      ∀ p ∈ tr, p.2 = .add → p.1.threadPool.count ≠ p.1.threadPool.queueSize :=
  (delivered_of_run init run).all_accounted_iff.trans (dropped_eq_nil_iff init run)

theorem pipeline_accounted_iff_oneMessage :
    (∀ m < (exec (pipeline Nat) mainInitial oneMessage).history.acked,
        (exec (pipeline Nat) mainInitial oneMessage).Accounted m) ↔
      ∀ p ∈ trace (pipeline Nat) mainInitial oneMessage, p.2 = .add →
        p.1.threadPool.count ≠ p.1.threadPool.queueSize :=
  pipeline_accounted_iff ⟨_, _, _, _, rfl⟩ (.ofSchedule _ (by decide +kernel))

/-- The event loop receives a message in block `b` and the drain thread hands it over. -/
def Pipeline.handOver (b : Nat) : List (Pipeline.Label Nat) :=
  [.readFuncCb b, .recv (.data ['A'.toUInt8]), .put, .evalFlag, .get, .add]

/-- Nine messages arrive before a worker has got to the first. -/
def Pipeline.nineMessages : List (Pipeline.Label Nat) := (List.range 9).flatMap handOver

theorem pipeline_not_accounted : ¬ ∀ (s t : Pipeline.State Nat) tr, (pipeline Nat).init s →
    Run (pipeline Nat) s tr t → t.sigint = false → ∀ m < t.history.acked, t.Accounted m := by
  intro always
  have run : Run (pipeline Nat) mainInitial _ _ :=
    .ofSchedule nineMessages (by decide +kernel)
  have init : (pipeline Nat).init mainInitial := ⟨_, _, _, _, rfl⟩
  have accounted := always _ _ _ init run (by decide +kernel)
  have kept := (delivered_of_run init run).all_accounted_iff.mp accounted
  revert kept
  decide +kernel

end ObdServer
