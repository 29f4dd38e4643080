import ObdServer.Pipeline

/-! # What one step of the pipeline does

Every step is one of the outcomes below. They say nothing about the bytes in the blocks,
which the movement of the blocks depends on only through the outcome itself.
-/

namespace ObdServer.Pipeline

variable {Block : Type} [DecidableEq Block] {s : State Block} {l : Label Block}

/-- The outcomes of a step, with all the state but `mem` that each depends on. -/
inductive Step (s : State Block) : Label Block → State Block → Prop where
  | allocate {fresh : Block} (mem : Block → Obd) :
      s.main = .polling → s.objPool = [] → fresh ∉ s.history.obtained →
      Step s (.readFuncCb fresh)
        { s with
          mem
          main := .initialised fresh
          history.obtained := fresh :: s.history.obtained }
  | reuse {fresh obd : Block} {rest : List Block} (mem : Block → Obd) :
      s.main = .polling → s.objPool = obd :: rest →
      Step s (.readFuncCb fresh) { s with mem, objPool := rest, main := .initialised obd }
  | discard {event : ReadEvent} {obd : Block} (mem : Block → Obd) :
      s.main = .initialised obd → Step s (.recv event) { s with mem, main := .releasing obd }
  | acknowledge {event : ReadEvent} {obd : Block} (mem : Block → Obd) :
      s.main = .initialised obd →
      Step s (.recv event)
        { s with
          mem
          main := .acknowledged obd
          history.acked := s.history.acked + 1
          history.message := Function.update s.history.message obd s.history.acked }
  | release {obd : Block} (mem : Block → Obd) :
      s.main = .releasing obd →
      Step s .release { s with mem, objPool := obd :: s.objPool, main := .polling }
  | put {obd : Block} :
      s.main = .acknowledged obd →
      Step s .put { s with obdMq := s.obdMq ++ [obd], main := .polling }
  | sigint : Step s .sigint { s with sigint := true }
  | leaveLoop :
      s.main = .polling → s.sigint = true →
      Step s .leaveLoop { s with mqFlag := true, main := .joiningDrain }
  | joinDrain :
      s.main = .joiningDrain → s.drain = .exited →
      Step s .joinDrain { s with main := .destroyingThreadPool }
  | destroyThreadPool :
      s.main = .destroyingThreadPool →
      Step s .destroyThreadPool
        { s with threadPool := (threadpoolDestroy s.threadPool false).2, main := .joiningWorkers }
  | joinWorkers :
      s.main = .joiningWorkers → (∀ pc ∈ s.workers, pc = .exited) →
      Step s .joinWorkers { s with main := .destroyingObdPool }
  | destroyObdPool :
      s.main = .destroyingObdPool →
      Step s .destroyObdPool
        { s with
          objPool := []
          main := .returned
          history.freed := s.objPool ++ s.history.freed }
  | evalFlag :
      s.drain = .condition →
      Step s .evalFlag { s with drain := if s.mqFlag then .testing else .beforeGet }
  | isEmptyTrue :
      s.drain = .testing → s.obdMq = [] →
      Step s .isEmpty { s with drain := .exited, mqHeld := true }
  | isEmptyFalse :
      s.drain = .testing → s.obdMq ≠ [] →
      Step s .isEmpty { s with drain := .beforeGet, mqHeld := true }
  | getNull :
      s.drain = .beforeGet → s.obdMq = [] → Step s .get { s with drain := .condition }
  | get {o : Block} {rest : List Block} :
      s.drain = .beforeGet → s.obdMq = o :: rest →
      Step s .get { s with obdMq := rest, drain := .adding o }
  | addTask {o : Block} :
      s.drain = .adding o → s.threadPool.count ≠ s.threadPool.queueSize →
      s.threadPool.shutdown = .running →
      Step s .add { s with threadPool := (threadpoolAdd s.threadPool o).2, drain := .condition }
  | dropTask {o : Block} :
      s.drain = .adding o →
      s.threadPool.count = s.threadPool.queueSize ∨ s.threadPool.shutdown ≠ .running →
      Step s .add
        { s with drain := .condition, history.dropped := o :: s.history.dropped }
  | grab {i : Nat} :
      s.workers[i]? = some .waiting → s.threadPool.count ≠ 0 →
      s.threadPool.shutdown ≠ .immediate →
      Step s (.grab i)
        { s with
          threadPool := (threadpoolThreadGrab s.threadPool).2
          workers := s.workers.set i (.decoding (threadpoolThreadGrab s.threadPool).1) }
  | decode {i fuel : Nat} {o : Block} (mem : Block → Obd) :
      s.workers[i]? = some (.decoding o) →
      Step s (.decode i fuel)
        { s with
          mem
          workers := s.workers.set i (.releasing o)
          history.decoded := s.history.message o :: s.history.decoded }
  | workerRelease {i : Nat} {o : Block} (mem : Block → Obd) :
      s.workers[i]? = some (.releasing o) →
      Step s (.workerRelease i)
        { s with mem, objPool := o :: s.objPool, workers := s.workers.set i .waiting }
  | workerExit {i : Nat} :
      s.workers[i]? = some .waiting → s.threadPool.shutdown ≠ .running →
      Step s (.workerExit i) { s with workers := s.workers.set i .exited }

/-- Every step has one of these outcomes. -/
theorem step_of_enabled (enabled : enabled s l) : Step s l (next s l) := by
  cases l with
  | readFuncCb fresh =>
      obtain ⟨polling, free⟩ := enabled
      cases pool : s.objPool with
      | nil =>
          simp only [next, pool, malloc, if_true, State.initBlock]
          rw [← pool]
          exact .allocate _ polling pool (free pool)
      | cons obd rest =>
          simp only [next, pool, malloc, reduceCtorEq, if_false, State.initBlock]
          exact .reuse _ polling pool
  | recv event =>
      obtain ⟨⟨obd, -, initialised⟩, -⟩ := enabled
      simp only [next, initialised]
      cases event with
      | evError | recvError | closed => exact .discard _ initialised
      | data bytes =>
          simp only [State.afterRecv]
          split_ifs
          · exact .discard _ initialised
          · exact .acknowledge _ initialised
  | release =>
      obtain ⟨obd, -, releasing⟩ := enabled
      simp only [next, releasing]
      exact .release _ releasing
  | put =>
      obtain ⟨⟨obd, -, acknowledged⟩, -⟩ := enabled
      simp only [next, acknowledged]
      exact .put acknowledged
  | sigint => exact .sigint
  | leaveLoop => exact .leaveLoop enabled.1 enabled.2
  | joinDrain => exact .joinDrain enabled.1 enabled.2
  | destroyThreadPool => exact .destroyThreadPool enabled
  | joinWorkers => exact .joinWorkers enabled.1 enabled.2
  | destroyObdPool => exact .destroyObdPool enabled
  | evalFlag => exact .evalFlag enabled
  | isEmpty =>
      by_cases empty : s.obdMq = []
      · simp only [next, empty, if_true]
        rw [← empty]
        exact .isEmptyTrue enabled.1 empty
      · simp only [next, empty, if_false]
        exact .isEmptyFalse enabled.1 empty
  | get =>
      cases queue : s.obdMq with
      | nil =>
          simp only [next, queue]
          rw [← queue]
          exact .getNull enabled.1 queue
      | cons o rest =>
          simp only [next, queue]
          exact .get enabled.1 queue
  | add =>
      obtain ⟨o, -, adding⟩ := enabled
      simp only [next, adding, State.addTask]
      by_cases refuses : s.threadPool.count = s.threadPool.queueSize ∨
          s.threadPool.shutdown ≠ .running
      · obtain ⟨error, refused⟩ := Threadpool.add_refused refuses o
        simp only [refused, Option.isSome_some, if_true]
        exact .dropTask adding refuses
      · obtain ⟨room, running⟩ := not_or.mp refuses
        have accepted := Threadpool.add_accepted room (not_not.mp running) o
        have step := Step.addTask adding room (not_not.mp running)
        simp only [accepted] at step ⊢
        exact step
  | grab i =>
      obtain ⟨waiting, turn⟩ := enabled
      obtain ⟨some, goesOn⟩ := Threadpool.turn_grab_iff.mp turn
      exact .grab waiting some goesOn
  | decode i fuel =>
      obtain ⟨o, -, decoding, -⟩ := enabled
      simp only [next, decoding]
      exact .decode _ decoding
  | workerRelease i =>
      obtain ⟨o, -, releasing⟩ := enabled
      simp only [next, releasing]
      exact .workerRelease _ releasing
  | workerExit i =>
      obtain ⟨waiting, turn⟩ := enabled
      exact .workerExit waiting (Threadpool.turn_leave_shutdown turn)

end ObdServer.Pipeline
