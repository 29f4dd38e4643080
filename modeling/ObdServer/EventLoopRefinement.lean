import ObdServer.ConnectionBounds
import ObdServer.PipelineSteps

/-! # The event loop on its two sides

As far as it gets without a fault, the event loop does to the connections what `Connections`
says, where memory never runs out and no descriptor is out of range, and a `read_func_cb` does
to the messages what `Pipeline` says.
-/

namespace ObdServer

namespace EventLoop

open Transition

variable {Watcher Block : Type} [DecidableEq Watcher] [DecidableEq Block]
  {s t : State Watcher Block} {l : Label Watcher Block}
  {call : Connections.AcceptCall Watcher} {read : ReadCall Block} {w : Watcher}

/-! ## The connections -/

omit [DecidableEq Watcher] [DecidableEq Block] in
theorem onConnections_ok {result : Except Connections.Fault (Connections.State Watcher)}
    (kept : s.onConnections result = .ok t) : result = .ok t.connections := by
  cases result with
  | error fault => cases kept
  | ok c =>
      cases kept
      rfl

omit [DecidableEq Block] in
/-- An `accept_func_cb` that returns is a step of the connections. -/
theorem accept_connections (enabled : enabled s (.accept call))
    (returned : acceptFuncCb s call = .ok t) :
    ∃ l, Connections.enabled s.connections l ∧
      Connections.next s.connections l = t.connections := by
  have result := onConnections_ok returned
  have block : (s.connections.malloc call.malloc call.stale).1 ≠ none := fun none => by
    cases result.symm.trans (acceptFuncCb_none none)
  have notMax : call.evError = false → call.socket ≠ some socketAllocMaxClient :=
    fun noError max => by
      cases result.symm.trans (acceptFuncCb_max block noError max)
  obtain ⟨call', enabled', same⟩ := accept_possible enabled.1 enabled.2 block notMax
  refine ⟨.accept call', enabled', ?_⟩
  rw [Connections.next, same, result]
  rfl

/-- A `read_func_cb` that returns is a step of the connections. -/
theorem invoke_connections (enabled : enabled s (.invoke read))
    (returned : next s (.invoke read) = .ok t) :
    ∃ l, Connections.enabled s.connections l ∧
      Connections.next s.connections l = t.connections := by
  obtain ⟨w, error, rest, queue, evError, called⟩ := next_invoke enabled
  rw [called] at returned
  rcases readFuncCb_connections { s with connections.pendings := rest } w read with
    fault | ⟨s', result⟩
  · cases fault.symm.trans returned
  · have kept := onConnections_ok (result.symm.trans returned)
    refine ⟨.invoke (recvResult read.event), by simp [Connections.enabled, queue], ?_⟩
    have same : decide (read.event = .evError) = error := by
      cases error with
      | true | false => simpa using evError
    rw [same] at kept
    simp only [Connections.next, queue, kept]
    rfl

/-- A step that does not fault is one of the connections, or it leaves them alone. -/
theorem next_connections (enabled : enabled s l) (returned : next s l = .ok t) :
    ∃ tr, Run (connections Watcher) s.connections tr t.connections := by
  have one : (∃ l, Connections.enabled s.connections l ∧
      Connections.next s.connections l = t.connections) →
      ∃ tr, Run (connections Watcher) s.connections tr t.connections := by
    rintro ⟨l, taken, result⟩
    exact ⟨[(s.connections, l)], result ▸ Run.single (M := connections Watcher) taken⟩
  cases l with
  | accept call => exact one (accept_connections enabled returned)
  | ready fd =>
      cases returned
      exact one ⟨.ready fd, trivial, rfl⟩
  | kill fd =>
      cases returned
      exact one ⟨.kill fd, enabled, rfl⟩
  | invoke read => exact one (invoke_connections enabled returned)
  | drain =>
      refine ⟨[], ?_⟩
      cases queue : s.obdMq with
      | nil | cons o rest =>
          simp only [next, queue] at returned
          cases returned
          exact .refl
  | workerRelease obd content =>
      cases returned
      exact ⟨[], .refl⟩

/-- Until a callback faults, the connections are these. -/
def Tracks (u : Except Fault (State Watcher Block)) (c : Connections.State Watcher) : Prop :=
  ∀ s, u = .ok s → s.connections = c

theorem Tracks.step {u : Except Fault (State Watcher Block)} {c : Connections.State Watcher}
    (tracks : Tracks u c) (enabled : (eventLoop Watcher Block).enabled u l) :
    ∃ tr c', Run (connections Watcher) c tr c' ∧
      Tracks ((eventLoop Watcher Block).next u l) c' := by
  cases u with
  | error fault => exact enabled.elim
  | ok s =>
      obtain rfl := tracks s rfl
      cases result : (eventLoop Watcher Block).next (.ok s) l with
      | error fault =>
          refine ⟨[], s.connections, .refl, ?_⟩
          rintro t same
          cases same
      | ok t =>
          obtain ⟨tr, run⟩ := next_connections enabled result
          refine ⟨tr, t.connections, run, ?_⟩
          rintro t' same
          cases same
          rfl

/-- A run of the event loop that has not faulted is one of the connections. -/
theorem eventLoop_connections {u : Except Fault (State Watcher Block)}
    {tr : List (Except Fault (State Watcher Block) × Label Watcher Block)}
    (init : (eventLoop Watcher Block).init u) (run : Run (eventLoop Watcher Block) u tr (.ok s)) :
    ∃ c tr', (connections Watcher).init c ∧ Run (connections Watcher) c tr' s.connections := by
  obtain ⟨watchers, mem, rfl⟩ := init
  have start : Tracks (.ok (State.initial watchers mem))
      (Connections.State.initial watchers) := by
    rintro s same
    cases same
    rfl
  obtain ⟨tr', c, run', last⟩ := run.forward Tracks (fun _ _ _ tracks => tracks.step) start
  exact ⟨_, tr', ⟨watchers, rfl⟩, last s rfl ▸ run'⟩

/-! ## The messages -/

/-- The blocks and messages of both models are the same. -/
structure Shares (s : State Watcher Block) (p : Pipeline.State Block) : Prop where
  mem : p.mem = s.mem
  objPool : p.objPool = s.objPool
  obtained : p.history.obtained = s.obtained
  obdMq : p.obdMq = s.obdMq

section Pipeline

variable {p : Pipeline.State Block} {s' : State Watcher Block} {fresh obd : Block}

omit [DecidableEq Watcher] in
theorem obdInit_pipeline (shares : Shares s p) (given : read.malloc = some fresh) :
    ∃ obd t, s.obdInit read = (.valid obd, t) ∧
      (Pipeline.next p (.readFuncCb fresh)).main = .initialised obd ∧
      Shares t (Pipeline.next p (.readFuncCb fresh)) := by
  obtain ⟨mem, objPool, obtained, obdMq⟩ := shares
  cases pool : s.objPool with
  | cons obd rest =>
      refine ⟨obd, { s with objPool := rest }.store obd (s.mem obd).init,
        by simp [State.obdInit, pool], ?_⟩
      simp only [Pipeline.next, objPool, pool, Pipeline.malloc]
      exact ⟨rfl, by simp only [Pipeline.State.initBlock, State.store, mem], rfl, obtained, obdMq⟩
  | nil =>
      refine ⟨fresh, { s with obtained := fresh :: s.obtained }.store fresh (s.mem fresh).init,
        by simp [State.obdInit, pool, given], ?_⟩
      simp only [Pipeline.next, objPool, pool, Pipeline.malloc]
      refine ⟨rfl, by simp only [Pipeline.State.initBlock, State.store, mem], rfl, ?_, obdMq⟩
      simp only [Pipeline.State.initBlock, if_true, obtained, State.store]

omit [DecidableEq Watcher] in
theorem release_pipeline (shares : Shares s p) (releasing : p.main = .releasing obd) :
    Run (pipeline Block) p [(p, .release)] (Pipeline.next p .release) ∧
      (Pipeline.next p .release).main = .polling ∧
      Shares (s.release obd) (Pipeline.next p .release) := by
  refine ⟨.single ⟨obd, by simp [releasing, Pipeline.MainPc.holds], releasing⟩, ?_⟩
  obtain ⟨mem, objPool, obtained, obdMq⟩ := shares
  simp only [Pipeline.next, releasing]
  refine ⟨rfl, ?_, ?_, obtained, obdMq⟩
  · simp only [Pipeline.State.releaseBlock, State.release, State.store, mem]
  · simp only [Pipeline.State.releaseBlock, State.release, objPool]

omit [DecidableEq Watcher] in
theorem put_pipeline {content : Obd} (shares : Shares (s.store obd content) p)
    (acknowledged : p.main = .acknowledged obd) (unlocked : p.mqHeld = false) :
    Run (pipeline Block) p [(p, .put)] (Pipeline.next p .put) ∧
      (Pipeline.next p .put).main = .polling ∧
      Shares (s.put obd content) (Pipeline.next p .put) := by
  refine ⟨.single ⟨⟨obd, ?_, acknowledged⟩, unlocked⟩, ?_⟩
  · simp [acknowledged, Pipeline.MainPc.holds]
  obtain ⟨mem, objPool, obtained, obdMq⟩ := shares
  simp only [Pipeline.next, acknowledged]
  exact ⟨trivial, mem, objPool, obtained, by rw [obdMq]; rfl⟩

theorem recv_pipeline {event : Pipeline.ReadEvent} (initialised : p.main = .initialised obd)
    (possible : event.Possible) :
    Run (pipeline Block) p [(p, .recv event)] (p.afterRecv obd event) := by
  have enabled : Pipeline.enabled p (.recv event) :=
    ⟨⟨obd, by simp [initialised, Pipeline.MainPc.holds], initialised⟩, possible⟩
  have received : Pipeline.next p (.recv event) = p.afterRecv obd event := by
    simp only [Pipeline.next, initialised]
  exact received ▸ .single enabled

/-- What `read_func_cb` does with the block it has got. -/
def State.finish (s : State Watcher Block) (obd : Block) :
    Pipeline.ReadEvent → State Watcher Block
  | .evError | .recvError | .closed => s.release obd
  | .data bytes =>
      let content := (s.mem obd).store bytes
      if content.dataLength = 0 then (s.store obd content).release obd
      else s.put obd { content with id := obdGetCmd content }

theorem readFuncCb_finish (init : s.obdInit read = (.valid obd, s'))
    (result : readFuncCb s w read = .ok t) :
    ∃ connections, t = { s'.finish obd read.event with connections } := by
  simp only [readFuncCb, init] at result
  cases event : read.event with
  | evError | recvError =>
      rw [event] at result
      exact ⟨_, (Except.ok.inj result).symm⟩
  | closed =>
      simp only [event, ObdPointer.deref, State.obdRelease, State.onConnections, bind,
        Except.bind] at result
      split at result
      · exact ⟨_, (Except.ok.inj result).symm⟩
      · cases result
  | data bytes =>
      simp only [event, ObdPointer.deref, State.obdRelease, bind, Except.bind] at result
      simp only [State.finish]
      split_ifs at result ⊢
      · exact ⟨_, (Except.ok.inj result).symm⟩
      · exact ⟨_, (Except.ok.inj result).symm⟩

omit [DecidableEq Watcher] in
theorem finish_pipeline {event : Pipeline.ReadEvent} (shares : Shares s p)
    (initialised : p.main = .initialised obd) (unlocked : p.mqHeld = false)
    (possible : event.Possible) :
    ∃ tr q, Run (pipeline Block) p tr q ∧ q.main = .polling ∧ Shares (s.finish obd event) q := by
  have recv := recv_pipeline initialised possible
  obtain ⟨mem, objPool, obtained, obdMq⟩ := shares
  cases event with
  | evError | recvError | closed =>
      have shares' : Shares s { p with main := .releasing obd } := ⟨mem, objPool, obtained, obdMq⟩
      obtain ⟨run, polling, shared⟩ := release_pipeline shares' rfl
      exact ⟨_, _, recv.trans run, polling, shared⟩
  | data bytes =>
      by_cases empty : ((s.mem obd).store bytes).dataLength = 0
      · have shares' : Shares (s.store obd ((s.mem obd).store bytes))
            (p.afterRecv obd (.data bytes)) := by
          simp only [Pipeline.State.afterRecv, mem, if_pos empty]
          exact ⟨rfl, objPool, obtained, obdMq⟩
        have releasing : (p.afterRecv obd (.data bytes)).main = .releasing obd := by
          simp only [Pipeline.State.afterRecv, mem, if_pos empty]
        obtain ⟨run, polling, shared⟩ := release_pipeline shares' releasing
        simp only [State.finish, if_pos empty]
        exact ⟨_, _, recv.trans run, polling, shared⟩
      · have shares' : Shares (s.store obd { (s.mem obd).store bytes with
            id := obdGetCmd ((s.mem obd).store bytes) }) (p.afterRecv obd (.data bytes)) := by
          simp only [Pipeline.State.afterRecv, mem, if_neg empty]
          exact ⟨rfl, objPool, obtained, obdMq⟩
        have acknowledged : (p.afterRecv obd (.data bytes)).main = .acknowledged obd := by
          simp only [Pipeline.State.afterRecv, mem, if_neg empty]
        have unlocked' : (p.afterRecv obd (.data bytes)).mqHeld = false := by
          simpa only [Pipeline.State.afterRecv, mem, if_neg empty] using unlocked
        obtain ⟨run, polling, shared⟩ := put_pipeline shares' acknowledged unlocked'
        simp only [State.finish, if_neg empty]
        exact ⟨_, _, recv.trans run, polling, shared⟩

/-- A `read_func_cb` that has its block is one way of the pipeline through the callback. -/
theorem readFuncCb_pipeline (shares : Shares s p) (polling : p.main = .polling)
    (unlocked : p.mqHeld = false) (given : read.malloc = some fresh)
    (unused : s.objPool = [] → fresh ∉ s.obtained) (possible : read.event.Possible)
    (result : readFuncCb s w read = .ok t) :
    ∃ tr q, Run (pipeline Block) p tr q ∧ q.main = .polling ∧ Shares t q := by
  obtain ⟨obd, s', init, initialised, shares'⟩ := obdInit_pipeline shares given
  obtain ⟨connections, rfl⟩ := readFuncCb_finish init result
  have called : Pipeline.enabled p (.readFuncCb fresh) :=
    ⟨polling, fun empty => shares.obtained ▸ unused (shares.objPool ▸ empty)⟩
  have first : Run (pipeline Block) p [(p, .readFuncCb fresh)]
      (Pipeline.next p (.readFuncCb fresh)) := .single called
  obtain ⟨tr, q, run, back, shared⟩ := finish_pipeline shares' initialised unlocked possible
  exact ⟨_, q, first.trans run, back, ⟨shared.mem, shared.objPool, shared.obtained, shared.obdMq⟩⟩

end Pipeline

end EventLoop

end ObdServer
