import ObdServer.PipelineContents

/-! # How the shutdown ends

Behind `ev_run` every thread has a bounded number of steps left. When none is left, `main` has
returned, or it waits for the drain thread, which waits for the mutex it has locked itself, or
for a worker that never gets out of the decoder.
-/

namespace ObdServer

namespace Pipeline

open Transition

variable {Block : Type} [DecidableEq Block] {s t u : State Block} {l : Label Block}
  {tr tr' : List (State Block × Label Block)}

/-! ## What is left to do -/

/-- The steps the drain thread still has, and those of the task it may add. -/
def DrainPc.left {Block : Type} (mqHeld : Bool) : DrainPc Block → Nat
  | .exited => 0
  | .testing => 1
  | .condition => 2
  | .adding _ => 6
  | .beforeGet => if mqHeld then 0 else 7

def WorkerPc.left {Block : Type} : WorkerPc Block → Nat
  | .exited => 0
  | .waiting => 1
  | .releasing _ => 2
  | .decoding _ => 3

/-- What is left to do behind `ev_run`. A task is grabbed, decoded and released. -/
def State.left (s : State Block) : Nat :=
  (5 - s.main.stage) + s.drain.left s.mqHeld + 3 * s.threadPool.tasks.length +
    Ledger.weight WorkerPc.left s.workers

/-- The event loop is over. -/
structure State.Leaving (s : State Block) : Prop where
  owned : s.Owned
  phases : s.Phases
  flag : s.mqFlag = true
  sigint : s.sigint = true

theorem State.Leaving.left_lt (leaving : s.Leaving) (enabled : enabled s l) :
    (next s l).left < s.left ∧ (next s l).Leaving := by
  have step := step_of_enabled enabled
  have owned := leaving.owned.step step
  have phases := leaving.phases.step step
  have behind := leaving.phases.flag.mp leaving.flag
  have unheld : l = .get → s.mqHeld = false := by
    rintro rfl
    exact enabled.2
  have unsignalled : l ≠ .sigint := by
    rintro rfl
    exact absurd leaving.sigint (by simp [show s.sigint = false from enabled])
  generalize next s l = t at step owned phases ⊢
  cases step with
  | allocate _ pc | reuse _ pc | discard _ pc | acknowledge _ pc | release _ pc | put pc
  | leaveLoop pc => simp [pc, MainPc.stage] at behind
  | sigint => exact absurd rfl unsignalled
  | joinDrain pc | joinWorkers pc | destroyObdPool pc =>
      refine ⟨?_, owned, phases, leaving.flag, leaving.sigint⟩
      simp only [State.left, pc, MainPc.stage]
      omega
  | destroyThreadPool pc =>
      refine ⟨?_, owned, phases, leaving.flag, leaving.sigint⟩
      simp only [State.left, pc, MainPc.stage, Threadpool.destroy_tasks]
      omega
  | evalFlag pc =>
      refine ⟨?_, owned, phases, leaving.flag, leaving.sigint⟩
      simp only [State.left, pc, DrainPc.left, leaving.flag, if_true]
      omega
  | isEmptyTrue pc | isEmptyFalse pc | dropTask pc =>
      refine ⟨?_, owned, phases, leaving.flag, leaving.sigint⟩
      simp only [State.left, pc, DrainPc.left, if_true]
      omega
  | getNull pc | get pc =>
      refine ⟨?_, owned, phases, leaving.flag, leaving.sigint⟩
      simp only [State.left, pc, DrainPc.left, unheld rfl, Bool.false_eq_true, if_false]
      omega
  | addTask pc room running =>
      refine ⟨?_, owned, phases, leaving.flag, leaving.sigint⟩
      simp only [State.left, pc, DrainPc.left,
        Threadpool.add_tasks leaving.owned.queue room running, List.length_append,
        List.length_singleton]
      omega
  | grab found some =>
      refine ⟨?_, owned, phases, leaving.flag, leaving.sigint⟩
      have moved := Ledger.weight_set (w := WorkerPc.left) found
        (.decoding (threadpoolThreadGrab s.threadPool).1)
      simp only [State.left, Threadpool.grab_tasks leaving.owned.queue some, List.length_cons,
        WorkerPc.left] at moved ⊢
      omega
  | @decode i fuel o mem found =>
      refine ⟨?_, owned, phases, leaving.flag, leaving.sigint⟩
      have moved := Ledger.weight_set (w := WorkerPc.left) found (.releasing o)
      simp only [State.left, WorkerPc.left] at moved ⊢
      omega
  | workerRelease mem found =>
      refine ⟨?_, owned, phases, leaving.flag, leaving.sigint⟩
      have moved := Ledger.weight_set (w := WorkerPc.left) found .waiting
      simp only [State.left, WorkerPc.left] at moved ⊢
      omega
  | workerExit found =>
      refine ⟨?_, owned, phases, leaving.flag, leaving.sigint⟩
      have moved := Ledger.weight_set (w := WorkerPc.left) found .exited
      simp only [State.left, WorkerPc.left] at moved ⊢
      omega

/-- `ev_run` returns only after SIGINT. -/
theorem leaving_of_run (init : (pipeline Block).init s) (run : Run (pipeline Block) s tr t)
    (flag : t.mqFlag = true) : t.Leaving := by
  have start : s.mqFlag = true → s.sigint = true := by
    obtain ⟨mem, queue, queueSize, threadCount, rfl⟩ := init
    intro set
    cases set
  refine ⟨owned_of_run init run, phases_of_run init run, flag, ?_⟩
  refine run.preserves (fun u => u.mqFlag = true → u.sigint = true) ?_ start flag
  intro u l before enabled
  have step := step_of_enabled enabled
  show (next u l).mqFlag = true → (next u l).sigint = true
  generalize next u l = v at step ⊢
  cases step with
  | leaveLoop _ signalled => exact fun _ => signalled
  | sigint => exact fun _ => rfl
  | _ => exact before

theorem DrainPc.left_le {Block : Type} (mqHeld : Bool) (pc : DrainPc Block) :
    pc.left mqHeld ≤ 7 := by
  cases mqHeld <;> cases pc <;> simp [DrainPc.left]

theorem WorkerPc.left_le {Block : Type} (pc : WorkerPc Block) : pc.left ≤ 3 := by
  cases pc <;> simp [WorkerPc.left]

/-! ## Where nothing is left -/

/-- The worker decodes a text on which the decoder does not end. -/
def State.Trapped (s : State Block) (messages : List (List UInt8)) (i : Nat) : Prop :=
  ∃ o bytes, s.workers[i]? = some (.decoding o) ∧
    messages[s.history.message o]? = some bytes ∧ Endless (messageText bytes)

/-- The drain thread has locked `mq_mutex` in `mq_is_empty` and asks for it in `mq_get`. -/
def State.SelfLocked (s : State Block) : Prop := s.drain = .beforeGet ∧ s.mqHeld = true

omit [DecidableEq Block] in
theorem not_trapped_of_exited {messages : List (List UInt8)}
    (gone : ∀ pc ∈ s.workers, pc = .exited) (i : Nat) : ¬ s.Trapped messages i := by
  rintro ⟨o, bytes, found, -⟩
  cases gone _ (List.mem_of_getElem? found)

theorem selfLocked_step (locked : s.SelfLocked) (enabled : enabled s l) :
    (next s l).SelfLocked := by
  obtain ⟨drain, held⟩ := locked
  have unheld : l ≠ .get ∧ l ≠ .isEmpty := by
    constructor
    · rintro rfl
      exact absurd held (by simp [enabled.2])
    · rintro rfl
      exact absurd held (by simp [enabled.2])
  have step := step_of_enabled enabled
  generalize next s l = t at step ⊢
  cases step with
  | evalFlag pc | isEmptyTrue pc | isEmptyFalse pc | addTask pc | dropTask pc =>
      simp [drain] at pc
  | getNull | get => exact absurd rfl unheld.1
  | _ => exact ⟨drain, held⟩

/-- Once `mq_is_empty` has found a message, the drain thread is stuck. -/
theorem selfLocked_of_run (run : Run (pipeline Block) s tr t)
    (found : (u, .isEmpty) ∈ tr) (queued : u.obdMq ≠ []) : t.SelfLocked := by
  obtain ⟨before, after, -, enabled, rest, -⟩ := run.cut found
  refine rest.preserves State.SelfLocked (fun _ _ locked enabled => selfLocked_step locked enabled)
    ⟨?_, rfl⟩
  exact if_neg queued

/-- The mutex stays locked only by `mq_is_empty`. -/
theorem held_of_run (init : (pipeline Block).init s) (run : Run (pipeline Block) s tr t)
    (held : t.mqHeld = true) :
    t.drain = .exited ∨ ∃ u, (u, Label.isEmpty) ∈ tr ∧ u.obdMq ≠ [] := by
  induction run with
  | refl =>
      obtain ⟨mem, queue, queueSize, threadCount, rfl⟩ := init
      cases held
  | @tail tr u l earlier enabled ih =>
      have weaken : (∃ v, (v, Label.isEmpty) ∈ tr ∧ v.obdMq ≠ []) →
          ∃ v, (v, Label.isEmpty) ∈ tr ++ [(u, l)] ∧ v.obdMq ≠ [] := by
        rintro ⟨v, member, queued⟩
        exact ⟨v, List.mem_append_left _ member, queued⟩
      have step := step_of_enabled enabled
      have held : (next u l).mqHeld = true := held
      show (next u l).drain = .exited ∨ _
      generalize next u l = v at step held ⊢
      cases step with
      | isEmptyTrue => exact .inl rfl
      | isEmptyFalse _ queued => exact .inr ⟨u, by simp, queued⟩
      | evalFlag pc | getNull pc | get pc | addTask pc | dropTask pc =>
          refine .inr (weaken ((ih held).resolve_left ?_))
          simp [pc]
      | _ => exact (ih held).imp id weaken

omit [DecidableEq Block] in
/-- A worker that cannot get out of `OBD_decode_thread` is in the decoder for ever. -/
theorem trapped_of_resting {messages : List (List UInt8)} (intact : s.Intact messages) {i : Nat}
    {pc : WorkerPc Block} (found : s.workers[i]? = some pc) (busy : pc.holds ≠ [])
    (resting : ∀ fuel, ¬ enabled s (.decode i fuel)) (kept : ¬ enabled s (.workerRelease i)) :
    s.Trapped messages i := by
  cases pc with
  | waiting | exited => exact absurd rfl busy
  | releasing o =>
      refine absurd ⟨o, ?_, found⟩ kept
      simp [State.workerHolds, found, WorkerPc.holds]
  | decoding o =>
      obtain ⟨bytes, numbered, small, contents, put⟩ :=
        intact.contents o (State.mem_carriers.mpr (.inr (.inr (.inr (.inr ⟨i, found⟩)))))
      rw [contents] at put
      have never : ¬ Terminates (received zeroBlock bytes) := by
        rintro ⟨fuel, result, returns⟩
        refine resting fuel ⟨o, ?_, found, ?_⟩
        · simp [State.workerHolds, found, WorkerPc.holds]
        · rw [contents, obdDecodeThread, returns]
          rfl
      have queued := (received_queued_iff zeroBlock small).mp put
      have endless := mt (terminates_iff_not_endless zeroBlock small queued).mpr never
      exact ⟨o, bytes, found, numbered, not_not.mp endless⟩

omit [DecidableEq Block] in
/-- A drain thread that can do nothing has left or waits for the mutex. -/
theorem held_of_halted (halted : ∀ l, ¬ enabled s l) (alive : s.drain ≠ .exited) :
    s.mqHeld = true := by
  by_contra free
  have free : s.mqHeld = false := by simpa using free
  cases drain : s.drain with
  | exited => exact alive drain
  | condition => exact halted .evalFlag drain
  | testing => exact halted .isEmpty ⟨drain, free⟩
  | beforeGet => exact halted .get ⟨drain, free⟩
  | adding o => exact halted .add ⟨o, by simp [drain, DrainPc.holds], drain⟩

/-- When `main` has returned, nothing goes on. -/
theorem halted_of_returned (init : (pipeline Block).init s) (run : Run (pipeline Block) s tr t)
    (returned : t.main = .returned) : ∀ l, ¬ enabled t l := by
  have phases := phases_of_run init run
  have late : t.main.stage = 5 := by simp [returned, MainPc.stage]
  have sigint := (leaving_of_run init run (phases.flag.mpr (by omega))).sigint
  exact halted_of_exited returned (phases.joined (by omega)) (phases.workers (by omega)) sigint

end Pipeline

open Transition Pipeline

variable {Block : Type} [DecidableEq Block] {s t u : Pipeline.State Block}
  {tr tr' : List (Pipeline.State Block × Pipeline.Label Block)}

/-- Once `mq_flag` is set, all threads together have at most three steps for each task and
    each worker left, and eleven others. -/
theorem pipeline_stops (init : (pipeline Block).init s) (run : Run (pipeline Block) s tr t)
    (flag : t.mqFlag = true) (rest : Run (pipeline Block) t tr' u) :
    tr'.length ≤ 3 * (t.threadPool.count + t.workers.length) + 11 := by
  have leaving := leaving_of_run init run flag
  have bound := (rest.length_le State.Leaving State.left (fun _ => false) 0
    (fun _ _ leaving enabled => leaving.left_lt enabled) leaving).1
  have drain := t.drain.left_le t.mqHeld
  have workers := Ledger.weight_le (w := WorkerPc.left) WorkerPc.left_le t.workers
  have behind := leaving.phases.flag.mp flag
  simp only [State.left, Threadpool.tasks_length] at bound
  omega

/-- SIGINT arrives when one message is on its way. -/
def Pipeline.interrupted : List (Pipeline.Label Nat) := handOver 0 ++ [.sigint, .leaveLoop]

/-- The message is decoded, and the server goes down. -/
def Pipeline.goesDown : List (Pipeline.Label Nat) :=
  [.grab 0, .evalFlag, .isEmpty, .decode 0 0, .joinDrain, .workerRelease 0, .destroyThreadPool] ++
    (List.range 8).map .workerExit ++ [.joinWorkers, .destroyObdPool]

theorem pipeline_stops_interrupted :
    (trace (pipeline Nat) (exec (pipeline Nat) mainInitial interrupted) goesDown).length ≤
      3 * ((exec (pipeline Nat) mainInitial interrupted).threadPool.count +
        (exec (pipeline Nat) mainInitial interrupted).workers.length) + 11 :=
  pipeline_stops ⟨_, _, _, _, rfl⟩ (.ofSchedule interrupted (by decide +kernel))
    (by decide +kernel) (.ofSchedule goesDown (by decide +kernel))

/-- When then no thread can go on, `main` has returned exactly if `mq_is_empty` found no
    message each time it was called, and no worker is in a decoder that does not end. -/
theorem pipeline_returns_iff (init : (pipeline Block).init s) (run : Run (pipeline Block) s tr t)
    (flag : t.mqFlag = true) (halted : ∀ l, ¬ Pipeline.enabled t l) :
    t.main = .returned ↔
      (∀ p ∈ tr, p.2 = .isEmpty → p.1.obdMq = []) ∧ ∀ i, ¬ t.Trapped (acknowledgedBytes tr) i := by
  have phases := phases_of_run init run
  constructor
  · intro returned
    have left := phases.joined (by simp [returned, MainPc.stage])
    refine ⟨?_, not_trapped_of_exited (phases.workers (by simp [returned, MainPc.stage]))⟩
    rintro ⟨u, l⟩ found rfl
    by_contra queued
    exact absurd (selfLocked_of_run run found queued).1 (by simp [left])
  · rintro ⟨empty, ends⟩
    have behind := phases.flag.mp flag
    cases main : t.main with
    | returned => rfl
    | polling | initialised | releasing | acknowledged => simp [main, MainPc.stage] at behind
    | destroyingThreadPool => exact absurd main (halted .destroyThreadPool)
    | destroyingObdPool => exact absurd main (halted .destroyObdPool)
    | joiningDrain =>
        have alive : t.drain ≠ .exited := fun left => halted .joinDrain ⟨main, left⟩
        obtain ⟨u, found, queued⟩ :=
          (held_of_run init run (held_of_halted halted alive)).resolve_left alive
        exact absurd (empty _ found rfl) queued
    | joiningWorkers =>
        have immediate := phases.immediate (by simp [main, MainPc.stage])
        refine absurd ⟨main, fun pc member => ?_⟩ (halted .joinWorkers)
        obtain ⟨i, found⟩ := List.mem_iff_getElem?.mp member
        have idle : pc.holds = [] := by
          by_contra busy
          exact ends i (trapped_of_resting (intact_of_run init run) found busy
            (fun fuel => halted (.decode i fuel)) (halted (.workerRelease i)))
        cases pc with
        | exited => rfl
        | decoding | releasing => cases idle
        | waiting =>
            refine absurd ⟨found, ?_⟩ (halted (.workerExit i))
            simp [threadpoolThreadTurn, immediate]

theorem pipeline_returns_iff_interrupted :
    (exec (pipeline Nat) mainInitial (interrupted ++ goesDown)).main = .returned ↔
      (∀ p ∈ trace (pipeline Nat) mainInitial (interrupted ++ goesDown), p.2 = .isEmpty →
        p.1.obdMq = []) ∧
      ∀ i, ¬ (exec (pipeline Nat) mainInitial (interrupted ++ goesDown)).Trapped
        (acknowledgedBytes (trace (pipeline Nat) mainInitial (interrupted ++ goesDown))) i := by
  have init : (pipeline Nat).init mainInitial := ⟨_, _, _, _, rfl⟩
  have run := Run.ofSchedule (M := pipeline Nat) (s := mainInitial) (interrupted ++ goesDown)
    (by decide +kernel)
  exact pipeline_returns_iff init run (by decide +kernel)
    (halted_of_returned init run (by decide +kernel))

end ObdServer
