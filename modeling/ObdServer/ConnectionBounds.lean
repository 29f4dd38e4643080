import ObdServer.ConnectionTable
import ObdServer.EventLoop

/-! # The bounds of the connection table

Both functions let a descriptor equal to `SOCKET_ALLOC_MAX_CLIENT` pass, one more than the
last index of `libev_list`. As long as `accept` does not return it, every access is in range
and every connection watched has its slot.
-/

namespace ObdServer

namespace EventLoop

open Transition

variable {Watcher Block : Type} [DecidableEq Watcher] {s t : State Watcher Block}
  {call : Connections.AcceptCall Watcher} {w : Watcher}

/-- In this step `accept_func_cb` gets a block and no error, and `accept` returns the
    length of the table. -/
def AcceptsMax (u : Except Fault (State Watcher Block)) (l : Label Watcher Block) : Prop :=
  ∃ s call, u = .ok s ∧ l = .accept call ∧
    (s.connections.malloc call.malloc call.stale).1 ≠ none ∧ call.evError = false ∧
    call.socket = some socketAllocMaxClient

/-- No access was out of range, and the connections registered have slots. -/
def InTable (u : Except Fault (State Watcher Block)) : Prop :=
  match u with
  | .ok s => ∀ fd, s.connections.libevList fd ≠ none ∨ s.connections.anfds fd ≠ [] →
      fd < socketAllocMaxClient
  | .error fault => fault ≠ .connections .outOfRange

/-- The table agrees with the rest, until a callback faults for another reason. -/
def Agrees (u : Except Fault (State Watcher Block)) : Prop :=
  match u with
  | .ok s => s.connections.Agrees
  | .error fault => fault ≠ .connections .outOfRange

omit [DecidableEq Watcher] in
theorem Agrees.inTable {u : Except Fault (State Watcher Block)} (agrees : Agrees u) :
    InTable u := by
  cases u with
  | error fault => exact agrees
  | ok s =>
      have agrees : s.connections.Agrees := agrees
      rintro fd registered
      obtain ⟨w, here⟩ : ∃ w, s.connections.libevList fd = some w := by
        rw [← Option.ne_none_iff_exists']
        rcases registered with slot | watched
        · exact slot
        · exact fun none => watched (agrees.anfds_closed none)
      exact agrees.range fd w here

/-! ## `accept_func_cb` -/

/-- With EV_ERROR `accept` is not called. -/
theorem acceptFuncCb_evError {c : Connections.State Watcher} (evError : call.evError = true)
    (socket : Option Nat) :
    Connections.acceptFuncCb c { call with socket } = Connections.acceptFuncCb c call := by
  simp only [Connections.acceptFuncCb, evError, if_true]

/-- Without a block it gives `NULL` back to the pool. -/
theorem acceptFuncCb_none {c : Connections.State Watcher}
    (none : (c.malloc call.malloc call.stale).1 = none) :
    Connections.acceptFuncCb c call = .error .nullPointer := by
  unfold Connections.acceptFuncCb
  cases taken : c.malloc call.malloc call.stale with
  | mk first rest =>
      rw [taken] at none
      cases none
      rfl

theorem acceptFuncCb_max {c : Connections.State Watcher}
    (block : (c.malloc call.malloc call.stale).1 ≠ none) (noError : call.evError = false)
    (max : call.socket = some socketAllocMaxClient) :
    Connections.acceptFuncCb c call = .error .outOfRange := by
  unfold Connections.acceptFuncCb
  cases taken : c.malloc call.malloc call.stale with
  | mk first rest =>
      cases first with
      | none => simp [taken] at block
      | some w => simp [noError, max, Connections.State.slot, bind, Except.bind]

/-- A call that gets a block and no descriptor out of range is one of those of `Connections`. -/
theorem accept_possible {c : Connections.State Watcher}
    (fresh : c.evPool = [] → ∀ w ∈ call.malloc, w ∉ c.obtained)
    (closed : ∀ fd ∈ call.socket, c.isOpen fd = false)
    (block : (c.malloc call.malloc call.stale).1 ≠ none)
    (notMax : call.evError = false → call.socket ≠ some socketAllocMaxClient) :
    ∃ call', Connections.enabled c (.accept call') ∧
      Connections.acceptFuncCb c call' = Connections.acceptFuncCb c call := by
  have succeeds : c.evPool = [] → call.malloc.any (· ∉ c.obtained) := by
    intro empty
    cases given : call.malloc with
    | none => simp [Connections.State.malloc, empty, given] at block
    | some w => simpa using fresh empty w given
  cases evError : call.evError with
  | true =>
      exact ⟨{ call with socket := none }, ⟨succeeds, by simp⟩, acceptFuncCb_evError evError none⟩
  | false =>
      refine ⟨call, ⟨succeeds, fun fd accepted => ⟨closed fd accepted, ?_⟩⟩, rfl⟩
      rintro rfl
      exact notMax evError accepted

theorem accept_agrees {c : Connections.State Watcher} (agrees : c.Agrees)
    (fresh : c.evPool = [] → ∀ w ∈ call.malloc, w ∉ c.obtained)
    (closed : ∀ fd ∈ call.socket, c.isOpen fd = false)
    (block : (c.malloc call.malloc call.stale).1 ≠ none)
    (notMax : call.evError = false → call.socket ≠ some socketAllocMaxClient) :
    ∃ c', Connections.acceptFuncCb c call = .ok c' ∧ c'.Agrees := by
  obtain ⟨call', enabled, same⟩ := accept_possible fresh closed block notMax
  obtain ⟨c', result, step⟩ := Connections.accept_step agrees enabled
  exact ⟨c', same ▸ result, agrees.step step⟩

/-! ## `read_func_cb` -/

variable [DecidableEq Block] {read : ReadCall Block} {l : Label Watcher Block}

/-- What `recv` returns; behind EV_ERROR it is not called. -/
def recvResult : Pipeline.ReadEvent → Connections.Recv
  | .evError | .recvError => .failed
  | .closed => .closed
  | .data _ => .received

omit [DecidableEq Watcher] in
theorem obdInit_connections (s : State Watcher Block) (read : ReadCall Block) :
    (s.obdInit read).2.connections = s.connections := by
  unfold State.obdInit
  cases s.objPool with
  | cons obd rest => rfl
  | nil => cases read.malloc with
      | none | some _ => rfl

/-- What `read_func_cb` does to the connections when it does not fault is what
    `Connections.readFuncCb` does. -/
theorem readFuncCb_connections (s : State Watcher Block) (w : Watcher) (read : ReadCall Block) :
    readFuncCb s w read = .error .indeterminatePointer ∨
      ∃ t : State Watcher Block, readFuncCb s w read = t.onConnections
        (Connections.readFuncCb s.connections w (read.event = .evError)
          (recvResult read.event)) := by
  have kept := obdInit_connections s read
  unfold readFuncCb
  cases init : s.obdInit read with
  | mk obd s' =>
      rw [init] at kept
      rw [← show s'.connections = s.connections from kept]
      cases obd with
      | indeterminate isNull =>
          cases event : read.event with
          | evError => cases isNull with
              | true => exact .inr ⟨s', rfl⟩
              | false => exact .inl rfl
          | recvError | closed | data => exact .inl rfl
      | valid o =>
          refine .inr ?_
          cases event : read.event with
          | evError | recvError | closed => exact ⟨s'.release o, rfl⟩
          | data bytes =>
              simp only [ObdPointer.deref, bind, Except.bind]
              split_ifs
              · exact ⟨(s'.store o ((s'.mem o).store bytes)).release o, rfl⟩
              · exact ⟨s'.put o { (s'.mem o).store bytes with
                  id := obdGetCmd ((s'.mem o).store bytes) }, rfl⟩

theorem invoke_agrees (agrees : s.connections.Agrees) (enabled : enabled s (.invoke read)) :
    Agrees (next s (.invoke read)) := by
  obtain ⟨w, error, rest, queue, evError, called⟩ := next_invoke enabled
  have dismissed := agrees.step
    (.dismiss queue : Connections.Step _ (.invoke (recvResult read.event)) _)
  rw [called]
  rcases readFuncCb_connections { s with connections.pendings := rest } w read with
    fault | ⟨t, result⟩
  · rw [fault]
    simp [Agrees]
  · rw [result]
    cases event : read.event with
    | evError | recvError | data => exact dismissed
    | closed =>
        obtain rfl : error = false := by simpa [event] using evError
        obtain ⟨fd, here, -⟩ := agrees.pendings w false (by simp [queue])
        have freed := Connections.freeLibev_eq agrees here rest
        rw [← agrees.watcherFd fd w here] at freed
        have hungUp : Connections.readFuncCb { s.connections with pendings := rest } w
            (decide (Pipeline.ReadEvent.closed = .evError)) (recvResult .closed) = _ := freed
        simp only [hungUp]
        have slot : s.connections.libevList (s.connections.watchers w).fd = some w :=
          (agrees.watcherFd fd w here).symm ▸ here
        exact agrees.step (.hangUp queue slot : Connections.Step _ (.invoke .closed) _)

/-! ## Runs -/

theorem next_agrees (agrees : s.connections.Agrees) (enabled : enabled s l)
    (notMax : ¬ AcceptsMax (.ok s) l) : Agrees (next s l) := by
  cases l with
  | accept call =>
      by_cases block : (s.connections.malloc call.malloc call.stale).1 = none
      · simp only [next, acceptFuncCb, acceptFuncCb_none block, State.onConnections, Agrees]
        decide
      · obtain ⟨c', result, after⟩ := accept_agrees agrees enabled.1 enabled.2 block
          fun noError max => notMax ⟨s, call, rfl, rfl, block, noError, max⟩
        simp only [next, acceptFuncCb, result]
        exact after
  | ready fd => exact agrees.step (Connections.ready_step s.connections fd)
  | kill fd => exact agrees.step (Connections.kill_step agrees enabled)
  | invoke read => exact invoke_agrees agrees enabled
  | drain =>
      simp only [next]
      cases s.obdMq with
      | nil => exact agrees
      | cons o rest => exact agrees
  | workerRelease obd content => exact agrees

end EventLoop

open Transition EventLoop

variable {Watcher Block : Type} [DecidableEq Watcher] [DecidableEq Block]
  {u v : Except EventLoop.Fault (EventLoop.State Watcher Block)}
  {tr : List (Except EventLoop.Fault (EventLoop.State Watcher Block) ×
    EventLoop.Label Watcher Block)}

/-- The table is never left, and no connection is registered without a slot, exactly as long
    as `accept` does not return the length of the table. -/
theorem eventLoop_inTable_iff (init : (eventLoop Watcher Block).init u)
    (run : Run (eventLoop Watcher Block) u tr v) :
    (∀ x, Visits tr v x → InTable x) ↔ ∀ p ∈ tr, ¬ AcceptsMax p.1 p.2 := by
  refine run.safe_iff Agrees (fun x l => ¬ AcceptsMax x l) ?_ (fun x => Agrees.inTable) ?_ ?_
  · intro x l agrees notMax enabled
    cases x with
    | error fault => exact enabled.elim
    | ok s => exact next_agrees agrees enabled notMax
  · intro x l agrees max enabled inTable
    obtain ⟨s, call, rfl, rfl, block, noError, full⟩ := not_not.mp max
    have out := acceptFuncCb_max block noError full
    have faulted : (eventLoop Watcher Block).next (.ok s) (.accept call) =
        .error (.connections .outOfRange) := by
      show acceptFuncCb s call = _
      rw [acceptFuncCb, out]
      rfl
    rw [faulted] at inTable
    exact inTable rfl
  · obtain ⟨watchers, mem, rfl⟩ := init
    exact .initial watchers

namespace EventLoop

abbrev started : Except Fault (State Nat Nat) :=
  .ok (.initial (fun _ => ⟨false, 0⟩) fun _ => zeroBlock)

/-- A call of `accept_func_cb` that gets block 0 and socket `fd`. -/
def accepts (fd : Nat) : Label Nat Nat :=
  .accept { malloc := some 0, stale := ⟨true, 0⟩, evError := false, socket := some fd }

/-- The connection in the last slot closes, and the next gets its slot. -/
def lastSlot : List (Label Nat Nat) :=
  [accepts 20479, .ready 20479, .invoke { malloc := some 0, leftNull := false, event := .closed },
    accepts 20479]

end EventLoop

theorem eventLoop_inTable_iff_lastSlot :
    (∀ x, Visits (trace (eventLoop Nat Nat) started lastSlot)
      (exec (eventLoop Nat Nat) started lastSlot) x → InTable x) ↔
      ∀ p ∈ trace (eventLoop Nat Nat) started lastSlot, ¬ AcceptsMax p.1 p.2 :=
  eventLoop_inTable_iff ⟨_, _, rfl⟩ (.ofSchedule _ (by decide +kernel))

theorem eventLoop_leavesTable : ¬ ∀ (u v : Except EventLoop.Fault (EventLoop.State Nat Nat)) tr,
    (eventLoop Nat Nat).init u → Run (eventLoop Nat Nat) u tr v →
      ∀ x, Visits tr v x → InTable x := by
  intro always
  have run : Run (eventLoop Nat Nat) started _ _ := .ofSchedule [accepts 20480] (by decide +kernel)
  exact always _ _ _ ⟨_, _, rfl⟩ run _ (.inl rfl) rfl

end ObdServer
