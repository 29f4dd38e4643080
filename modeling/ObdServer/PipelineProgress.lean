import ObdServer.PipelineHalt

/-! # The server left alone

Everything the threads do is paid for by a call of `read_func_cb`, a round of the drain thread
or SIGINT. When no message is on its way to a worker and no worker can go on, all messages have
been decoded or dropped, but for those that keep a worker in the decoder; such a worker is lost
for good.
-/

namespace ObdServer

namespace Pipeline

open Transition

variable {Block : Type} [DecidableEq Block] {s t u : State Block} {l : Label Block}
  {tr tr' : List (State Block × Label Block)} {i : Nat} {o : Block}

/-! ## Every run is paid for -/

def MainPc.work {Block : Type} : MainPc Block → Nat
  | .polling => 5
  | .initialised _ => 11
  | .releasing _ => 6
  | .acknowledged _ => 10
  | .joiningDrain => 4
  | .destroyingThreadPool => 3
  | .joiningWorkers => 2
  | .destroyingObdPool => 1
  | .returned => 0

def DrainPc.work {Block : Type} : DrainPc Block → Nat
  | .exited | .condition => 0
  | .beforeGet => 1
  | .testing => 2
  | .adding _ => 4

/-- What is to be done, each message in the queue included. -/
def State.work (s : State Block) : Nat :=
  s.main.work + 4 * s.obdMq.length + s.drain.work + 3 * s.threadPool.tasks.length +
    Ledger.weight WorkerPc.left s.workers

/-- The steps that bring new work: a call of `read_func_cb`, a round of the drain thread, and
    SIGINT. -/
def Label.pays : Label Block → Bool
  | .readFuncCb _ | .sigint | .evalFlag => true
  | _ => false

theorem State.work_step (valid : s.threadPool.Valid) (step : Step s l t) :
    t.work < s.work + 7 * l.pays.toNat := by
  cases step with
  | allocate _ pc | reuse _ pc | discard _ pc | acknowledge _ pc | release _ pc | leaveLoop pc
  | joinDrain pc | joinWorkers pc | destroyObdPool pc =>
      simp only [State.work, pc, MainPc.work, Label.pays, Bool.toNat_true, Bool.toNat_false]
      omega
  | destroyThreadPool pc =>
      simp only [State.work, pc, MainPc.work, Label.pays, Bool.toNat_false,
        Threadpool.destroy_tasks]
      omega
  | put pc =>
      simp only [State.work, pc, MainPc.work, Label.pays, Bool.toNat_false, List.length_append,
        List.length_singleton]
      omega
  | sigint =>
      simp only [State.work, Label.pays, Bool.toNat_true]
      omega
  | evalFlag pc =>
      cases s.mqFlag <;> simp only [State.work, pc, DrainPc.work, Label.pays, Bool.toNat_true,
        Bool.false_eq_true, if_true, if_false] <;> omega
  | isEmptyTrue pc | isEmptyFalse pc | getNull pc | dropTask pc =>
      simp only [State.work, pc, DrainPc.work, Label.pays, Bool.toNat_false]
      omega
  | get pc queue =>
      simp only [State.work, pc, queue, DrainPc.work, Label.pays, Bool.toNat_false,
        List.length_cons]
      omega
  | addTask pc room running =>
      simp only [State.work, pc, DrainPc.work, Label.pays, Bool.toNat_false,
        Threadpool.add_tasks valid room running, List.length_append, List.length_singleton]
      omega
  | grab found some =>
      have moved := Ledger.weight_set (w := WorkerPc.left) found
        (.decoding (threadpoolThreadGrab s.threadPool).1)
      simp only [State.work, Threadpool.grab_tasks valid some, List.length_cons, WorkerPc.left,
        Label.pays, Bool.toNat_false] at moved ⊢
      omega
  | @decode i fuel o mem found =>
      have moved := Ledger.weight_set (w := WorkerPc.left) found (.releasing o)
      simp only [State.work, WorkerPc.left, Label.pays, Bool.toNat_false] at moved ⊢
      omega
  | workerRelease mem found =>
      have moved := Ledger.weight_set (w := WorkerPc.left) found .waiting
      simp only [State.work, WorkerPc.left, Label.pays, Bool.toNat_false] at moved ⊢
      omega
  | workerExit found =>
      have moved := Ledger.weight_set (w := WorkerPc.left) found .exited
      simp only [State.work, WorkerPc.left, Label.pays, Bool.toNat_false] at moved ⊢
      omega

/-! ## At rest -/

/-- No worker leaves a thread pool that runs. -/
theorem not_exited_of_run (init : (pipeline Block).init s) (run : Run (pipeline Block) s tr t)
    (running : t.threadPool.shutdown = .running) : ∀ pc ∈ t.workers, pc ≠ .exited := by
  have start : s.threadPool.shutdown = .running → ∀ pc ∈ s.workers, pc ≠ .exited := by
    obtain ⟨mem, queue, queueSize, threadCount, rfl⟩ := init
    intro _ pc member
    rw [List.eq_of_mem_replicate member]
    simp
  refine run.preserves (fun u => u.threadPool.shutdown = .running → ∀ pc ∈ u.workers,
    pc ≠ .exited) ?_ start running
  intro u l before enabled
  have step := step_of_enabled enabled
  show (next u l).threadPool.shutdown = .running → ∀ pc ∈ (next u l).workers, pc ≠ .exited
  generalize next u l = v at step ⊢
  -- a worker that goes on is one of those before or in another place of its loop
  have replaced : ∀ {j pc}, (u.threadPool.shutdown = .running → ∀ pc ∈ u.workers, pc ≠ .exited) →
      pc ≠ .exited → u.threadPool.shutdown = .running →
      ∀ pc' ∈ u.workers.set j pc, pc' ≠ .exited := by
    intro j pc before alive running pc' member
    rcases List.mem_or_eq_of_mem_set member with old | rfl
    · exact before running pc' old
    · exact alive
  cases step with
  | destroyThreadPool pc =>
      intro running
      by_cases earlier : u.threadPool.shutdown = .running
      · rw [Threadpool.destroy_immediate earlier] at running
        cases running
      · simp [threadpoolDestroy, earlier] at running
  | addTask pc room running => exact fun _ => before running
  | grab found => exact replaced before (by simp)
  | decode mem found => exact replaced before (by simp)
  | workerRelease mem found => exact replaced before (by simp)
  | workerExit found stopped => exact fun running => absurd running stopped
  | _ => exact before

/-- Nothing is on its way to a worker, and no worker can go on. -/
structure State.Resting (s : State Block) : Prop where
  polling : s.main = .polling
  empty : s.obdMq = []
  handed : ∀ o, s.drain ≠ .adding o
  grab : ∀ i, ¬ enabled s (.grab i)
  decode : ∀ i fuel, ¬ enabled s (.decode i fuel)
  release : ∀ i, ¬ enabled s (.workerRelease i)

omit [DecidableEq Block] in
theorem State.Resting.tasks_eq_nil (resting : s.Resting) (phases : s.Phases)
    (free : ∃ i : Nat, s.workers[i]? = some .waiting) : s.threadPool.tasks = [] := by
  obtain ⟨i, found⟩ := free
  have running := phases.running (by simp [resting.polling, MainPc.stage])
  rw [Threadpool.tasks_eq_nil_iff]
  by_contra some
  refine resting.grab i ⟨found, Threadpool.turn_grab_iff.mpr ⟨some, ?_⟩⟩
  simp [running]

omit [DecidableEq Block] in
/-- A message that is still carried then is in a worker, or all workers are lost. -/
theorem State.Resting.carried (resting : s.Resting) (phases : s.Phases)
    {messages : List (List UInt8)} (intact : s.Intact messages)
    (alive : ∀ pc ∈ s.workers, pc ≠ .exited) {m : Nat} (carried : m ∈ s.carried) :
    (∃ i o, s.workers[i]? = some (.decoding o) ∧ s.history.message o = m ∧
        s.Trapped messages i) ∨
      ∀ i < s.workers.length, s.Trapped messages i := by
  have busy : ∀ i pc, s.workers[i]? = some pc → pc ≠ .waiting → s.Trapped messages i := by
    intro i pc found other
    refine trapped_of_resting intact found ?_ (resting.decode i) (resting.release i)
    cases pc with
    | waiting => exact absurd rfl other
    | exited => exact absurd rfl (alive _ (List.mem_of_getElem? found))
    | decoding | releasing => simp [WorkerPc.holds]
  by_cases free : ∃ i : Nat, s.workers[i]? = some .waiting
  · obtain ⟨b, carrier, rfl⟩ := List.mem_map.mp carried
    rcases State.mem_carriers.mp carrier with main | mq | drain | tasks | ⟨i, worker⟩
    · simp [resting.polling] at main
    · simp [resting.empty] at mq
    · exact absurd drain (resting.handed b)
    · simp [resting.tasks_eq_nil phases free] at tasks
    · exact .inl ⟨i, b, worker, rfl, busy i _ worker (by simp)⟩
  · refine .inr fun i inside => busy i _ (List.getElem?_eq_getElem inside) fun waiting => ?_
    exact free ⟨i, (List.getElem?_eq_getElem inside).trans (congrArg some waiting)⟩

/-! ## Workers that are lost -/

/-- The worker is in a decoder that does not end. -/
def State.Lost (s : State Block) (i : Nat) (o : Block) : Prop :=
  s.workers[i]? = some (.decoding o) ∧ ¬ Terminates (s.mem o)

omit [DecidableEq Block] in
theorem State.Intact.lost_of_trapped {messages : List (List UInt8)} (intact : s.Intact messages)
    (trapped : s.Trapped messages i) : ∃ o, s.Lost i o := by
  obtain ⟨o, bytes, worker, numbered, endless⟩ := trapped
  obtain ⟨bytes', numbered', small, contents, put⟩ :=
    intact.contents o (State.mem_carriers.mpr (.inr (.inr (.inr (.inr ⟨i, worker⟩)))))
  obtain rfl := Option.some_inj.mp (numbered.symm.trans numbered')
  refine ⟨o, worker, ?_⟩
  rw [contents] at put ⊢
  have queued := (received_queued_iff zeroBlock small).mp put
  exact fun returns => (terminates_iff_not_endless zeroBlock small queued).mp returns endless

omit [DecidableEq Block] in
theorem State.Lost.not_decodes (lost : s.Lost i o) (fuel : Nat) :
    ¬ enabled s (.decode i fuel) := by
  rintro ⟨o', -, worker, returns⟩
  obtain rfl := WorkerPc.decoding.inj (Option.some_inj.mp (lost.1.symm.trans worker))
  obtain ⟨result, decoded⟩ := Option.isSome_iff_exists.mp returns
  obtain ⟨r, terminates, -⟩ := Option.map_eq_some_iff.mp decoded
  exact lost.2 ⟨fuel, r, terminates⟩

theorem State.Lost.step (lost : s.Lost i o) (owned : s.Owned) (enabled : enabled s l) :
    (next s l).Lost i o := by
  have step := step_of_enabled enabled
  have stays : (next s l).workers[i]? = some (.decoding o) := by
    have other : ∀ {j pc pc'}, s.workers[j]? = some pc → pc ≠ .decoding o →
        (s.workers.set j pc')[i]? = some (.decoding o) := by
      intro j pc pc' found different
      have apart : j ≠ i := by
        rintro rfl
        exact different (Option.some_inj.mp (found.symm.trans lost.1))
      rw [List.getElem?_set_ne apart]
      exact lost.1
    have notDecoded : ∀ fuel, l ≠ .decode i fuel := by
      rintro fuel rfl
      exact lost.not_decodes fuel enabled
    generalize next s l = t at step ⊢
    cases step with
    | grab found => exact other found (by simp)
    | workerRelease mem found => exact other found (by simp)
    | workerExit found => exact other found (by simp)
    | @decode j fuel o' mem found =>
        have apart : j ≠ i := by
          rintro rfl
          exact notDecoded fuel rfl
        show (s.workers.set j _)[i]? = _
        rw [List.getElem?_set_ne apart]
        exact lost.1
    | _ => exact lost.1
  have carrier : o ∈ (next s l).carriers :=
    State.mem_carriers.mpr (.inr (.inr (.inr (.inr ⟨i, stays⟩))))
  refine ⟨stays, ?_⟩
  rw [mem_of_not_written fun written => ?_]
  · exact lost.2
  · obtain ⟨-, acknowledged⟩ := written_not_carrier (owned.step step) enabled written carrier
    have alone : o ∉ (next s l).blocksAt (.worker i) :=
      (owned.step step).callback_alone (by rw [acknowledged]; rfl) (by simp)
    exact alone (by simp [State.blocksAt, State.workerHolds, stays, WorkerPc.holds])

theorem lost_of_run (owned : t.Owned) (rest : Run (pipeline Block) t tr' u) (lost : t.Lost i o) :
    u.Lost i o :=
  (rest.preserves (fun v => v.Owned ∧ v.Lost i o)
    (fun _ _ both enabled => ⟨both.1.step (step_of_enabled enabled),
      both.2.step both.1 enabled⟩) ⟨owned, lost⟩).2

/-- With all workers lost nothing more is decoded. -/
theorem decoded_of_allLost (owned : t.Owned) (rest : Run (pipeline Block) t tr' u)
    (all : ∀ i < t.workers.length, ∃ o, t.Lost i o) :
    u.history.decoded = t.history.decoded := by
  refine (rest.preserves (fun v => v.Owned ∧ (∀ i < v.workers.length, ∃ o, v.Lost i o) ∧
    v.history.decoded = t.history.decoded) ?_ ⟨owned, all, rfl⟩).2.2
  rintro v l ⟨owned, all, same⟩ enabled
  have step := step_of_enabled enabled
  have length : (next v l).workers.length = v.workers.length := by
    generalize next v l = w at step ⊢
    cases step with
    | grab | decode | workerRelease | workerExit => exact List.length_set
    | _ => rfl
  have notDecoded : ∀ i fuel, l ≠ .decode i fuel := by
    rintro i fuel rfl
    obtain ⟨o, -, worker, -⟩ := id enabled
    obtain ⟨o', lost⟩ := all i (List.getElem?_eq_some_iff.mp worker).1
    exact lost.not_decodes fuel enabled
  refine ⟨owned.step step, fun i inside => ?_, ?_⟩
  · obtain ⟨o, lost⟩ := all i (length ▸ inside)
    exact ⟨o, lost.step owned enabled⟩
  · rw [← same]
    show (next v l).history.decoded = _
    generalize next v l = w at step ⊢
    cases step with
    | decode => exact absurd rfl (notDecoded _ _)
    | _ => rfl

end Pipeline

open Transition Pipeline

variable {Block : Type} [DecidableEq Block] {s t u : Pipeline.State Block}
  {tr tr' : List (Pipeline.State Block × Pipeline.Label Block)}

/-- A run has at most seven steps for each call of `read_func_cb`, each round of the drain
    thread and each SIGINT, one for each worker, and five others. -/
theorem pipeline_bounded (init : (pipeline Block).init s) (run : Run (pipeline Block) s tr t) :
    tr.length ≤ 7 * tr.countP (fun p => p.2.pays) + s.workers.length + 5 := by
  have bound := (run.length_le State.Owned State.work Label.pays 7
    (fun u l owned enabled =>
      ⟨State.work_step owned.queue (step_of_enabled enabled),
        owned.step (step_of_enabled enabled)⟩)
    (owned_of_run init .refl)).1
  have start : s.work = s.workers.length + 5 := by
    obtain ⟨mem, queue, queueSize, threadCount, rfl⟩ := init
    have waiting : ∀ n, Ledger.weight WorkerPc.left
        (List.replicate n (.waiting : WorkerPc Block)) = n := by
      intro n
      induction n with
      | zero => rfl
      | succ n ih => rw [List.replicate_succ, Ledger.weight, ih, WorkerPc.left, Nat.add_comm]
    simp only [State.work, State.initial, waiting, Threadpool.create_tasks, MainPc.work,
      DrainPc.work, List.length_nil, List.length_replicate]
    omega
  omega

theorem pipeline_bounded_oneMessage :
    (trace (pipeline Nat) mainInitial oneMessage).length ≤
      7 * (trace (pipeline Nat) mainInitial oneMessage).countP (fun p => p.2.pays) +
        mainInitial.workers.length + 5 :=
  pipeline_bounded ⟨_, _, _, _, rfl⟩ (.ofSchedule oneMessage (by decide +kernel))

/-- Left alone, the server catches up: when nothing is on its way to a worker and no worker can
    go on, each message acknowledged has been decoded or dropped, or it is the one that keeps
    its worker in the decoder for ever, unless all workers are lost in this way. -/
theorem pipeline_catchesUp (init : (pipeline Block).init s) (run : Run (pipeline Block) s tr t)
    (resting : t.Resting) :
    (∀ m < t.history.acked, m ∈ t.history.decoded ∨ m ∈ t.lost ∨
        ∃ i o, t.workers[i]? = some (.decoding o) ∧ t.history.message o = m ∧
          t.Trapped (acknowledgedBytes tr) i) ∨
      ∀ i < t.workers.length, t.Trapped (acknowledgedBytes tr) i := by
  have phases := phases_of_run init run
  have running := phases.running (by simp [resting.polling, MainPc.stage])
  have alive := not_exited_of_run init run running
  by_cases all : ∀ i < t.workers.length, t.Trapped (acknowledgedBytes tr) i
  · exact .inr all
  · refine .inl fun m acked => ?_
    by_cases lost : m ∈ t.lost
    · exact .inr (.inl lost)
    · have accounted := ((delivered_of_run init run).accounted_iff acked).mpr lost
      rcases State.accounted_iff.mp accounted with carried | decoded
      · have kept := resting.carried phases (intact_of_run init run) alive carried
        exact .inr (.inr (kept.resolve_right all))
      · exact .inl decoded

theorem pipeline_catchesUp_oneMessage :
    let t := exec (pipeline Nat) mainInitial oneMessage
    let messages := acknowledgedBytes (trace (pipeline Nat) mainInitial oneMessage)
    (∀ m < t.history.acked, m ∈ t.history.decoded ∨ m ∈ t.lost ∨
        ∃ i o, t.workers[i]? = some (.decoding o) ∧ t.history.message o = m ∧
          t.Trapped messages i) ∨
      ∀ i < t.workers.length, t.Trapped messages i := by
  have waiting : ∀ pc ∈ (exec (pipeline Nat) mainInitial oneMessage).workers, pc = .waiting := by
    decide +kernel
  refine pipeline_catchesUp ⟨_, _, _, _, rfl⟩ (.ofSchedule oneMessage (by decide +kernel))
    ⟨by decide +kernel, by decide +kernel, ?_, ?_, ?_, ?_⟩
  · have idle : (exec (pipeline Nat) mainInitial oneMessage).drain = .condition := by
      decide +kernel
    simp [idle]
  · rintro i ⟨-, turn⟩
    revert turn
    decide +kernel
  · rintro i fuel ⟨o, -, worker, -⟩
    cases waiting _ (List.mem_of_getElem? worker)
  · rintro i ⟨o, -, worker⟩
    cases waiting _ (List.mem_of_getElem? worker)

/-- A worker that gets a text on which the decoder does not end is lost for the rest of the
    run, and `main` does not return; when all are lost, nothing is decoded any more. -/
theorem pipeline_poisoned (init : (pipeline Block).init s) (run : Run (pipeline Block) s tr t)
    (rest : Run (pipeline Block) t tr' u) :
    (∀ i, t.Trapped (acknowledgedBytes tr) i →
        u.workers[i]? = t.workers[i]? ∧ u.main ≠ .returned) ∧
      ((∀ i < t.workers.length, t.Trapped (acknowledgedBytes tr) i) →
        u.history.decoded = t.history.decoded) := by
  have owned := owned_of_run init run
  have intact := intact_of_run init run
  constructor
  · intro i trapped
    obtain ⟨o, lost⟩ := intact.lost_of_trapped trapped
    have still := lost_of_run owned rest lost
    refine ⟨still.1.trans lost.1.symm, fun returned => ?_⟩
    have gone := (phases_of_run init (run.trans rest)).workers (by simp [returned, MainPc.stage])
    cases gone _ (List.mem_of_getElem? still.1)
  · exact fun all => decoded_of_allLost owned rest fun i inside =>
      intact.lost_of_trapped (all i inside)

/-- A text of 255 characters gets to the first worker. -/
def Pipeline.poisoned : List (Pipeline.Label Nat) :=
  [.readFuncCb 0, .recv (.data longText), .put, .evalFlag, .get, .add, .grab 0]

theorem Pipeline.trapped_poisoned :
    (exec (pipeline Nat) mainInitial Pipeline.poisoned).Trapped
      (acknowledgedBytes (trace (pipeline Nat) mainInitial Pipeline.poisoned)) 0 :=
  ⟨0, longText, by decide +kernel, by decide +kernel, by decide +kernel, 0, 253,
    by decide +kernel, by decide +kernel, by decide⟩

theorem pipeline_poisoned_longText :
    let t := exec (pipeline Nat) mainInitial Pipeline.poisoned
    let u := exec (pipeline Nat) t (handOver 1)
    u.workers[0]? = t.workers[0]? ∧ u.main ≠ .returned :=
  (pipeline_poisoned ⟨_, _, _, _, rfl⟩ (.ofSchedule Pipeline.poisoned (by decide +kernel))
    (.ofSchedule (handOver 1) (by decide +kernel))).1 0 Pipeline.trapped_poisoned

end ObdServer
