import ObdServer.ConnectionBounds

/-! # The callbacks without memory

`accept_func_cb` gives the `NULL` it has got back to `ev_pool`, which stores a link in it, and
`OBD_init` returns without a value, which `read_func_cb` then uses. The only failure of
`malloc` the server survives is that of a `read_func_cb` called with EV_ERROR, and that only
where the value it finds is `NULL`.
-/

namespace ObdServer

namespace EventLoop

open Transition

variable {Watcher Block : Type} [DecidableEq Watcher] [DecidableEq Block]
  {s t : State Watcher Block} {l : Label Watcher Block}
  {accept : Connections.AcceptCall Watcher} {read : ReadCall Block} {w : Watcher}

/-- The pool the callback allocates from is empty, and `malloc` returns `NULL`. -/
def Starved (u : Except Fault (State Watcher Block)) (l : Label Watcher Block) : Prop :=
  match u, l with
  | .ok s, .accept call => s.connections.evPool = [] ∧ call.malloc = none
  | .ok s, .invoke call => s.objPool = [] ∧ call.malloc = none
  | _, _ => False

structure Unchanged (s t : State Watcher Block) : Prop where
  libevList : t.connections.libevList = s.connections.libevList
  obdMq : t.obdMq = s.obdMq
  evPool : t.connections.evPool = s.connections.evPool
  objPool : t.objPool = s.objPool

/-- The step ends without a fault, and the table, the queue and the pools are as they were. -/
def Intact (u : Except Fault (State Watcher Block)) (l : Label Watcher Block) : Prop :=
  ∃ s t, u = .ok s ∧ (eventLoop Watcher Block).next u l = .ok t ∧ Unchanged s t

/-- `read_func_cb` is called with EV_ERROR and finds `NULL` in place of a block. -/
def Spared (l : Label Watcher Block) : Prop :=
  ∃ call, l = .invoke call ∧ call.event = .evError ∧ call.leftNull = true

/-- A callback has used a pointer that is null or has no value. -/
def PointerFault (u : Except Fault (State Watcher Block)) : Prop :=
  u = .error (.connections .nullPointer) ∨ u = .error .indeterminatePointer

/-! ## A failed allocation -/

omit [DecidableEq Block] in
theorem acceptFuncCb_starved (empty : s.connections.evPool = []) (failed : accept.malloc = none) :
    acceptFuncCb s accept = .error (.connections .nullPointer) := by
  have none : (s.connections.malloc accept.malloc accept.stale).1 = none := by
    simp [Connections.State.malloc, empty, failed]
  rw [acceptFuncCb, acceptFuncCb_none none]
  rfl

omit [DecidableEq Watcher] in
theorem obdInit_starved (empty : s.objPool = []) (failed : read.malloc = none) :
    s.obdInit read = (.indeterminate read.leftNull, s) := by
  simp [State.obdInit, empty, failed]

theorem readFuncCb_starved (empty : s.objPool = []) (failed : read.malloc = none) (w : Watcher) :
    readFuncCb s w read =
      if read.event = .evError ∧ read.leftNull = true then .ok s
      else .error .indeterminatePointer := by
  simp only [readFuncCb, obdInit_starved empty failed]
  cases event : read.event with
  | evError => cases read.leftNull with
      | true | false => rfl
  | recvError | closed | data => rfl

/-- A step without memory for `read_func_cb`. -/
theorem next_invoke_starved (enabled : enabled s (.invoke read)) (empty : s.objPool = [])
    (failed : read.malloc = none) : ∃ t, Unchanged s t ∧
      (eventLoop Watcher Block).next (.ok s) (.invoke read) =
        if read.event = .evError ∧ read.leftNull = true then .ok t
        else .error .indeterminatePointer := by
  obtain ⟨w, error, rest, -, -, called⟩ := next_invoke enabled
  refine ⟨{ s with connections.pendings := rest }, ⟨rfl, rfl, rfl, rfl⟩, ?_⟩
  exact called.trans (readFuncCb_starved (s := { s with connections.pendings := rest }) empty
    failed w)

/-- A step without memory. -/
theorem starved_cases (enabled : enabled s l) (starved : Starved (.ok s) l) :
    (Spared l ∧ ∃ t, (eventLoop Watcher Block).next (.ok s) l = .ok t ∧ Unchanged s t) ∨
      ¬ Spared l ∧ PointerFault ((eventLoop Watcher Block).next (.ok s) l) := by
  cases l with
  | ready | kill | drain | workerRelease => exact starved.elim
  | accept call =>
      refine .inr ⟨?_, .inl (acceptFuncCb_starved starved.1 starved.2)⟩
      rintro ⟨_, other, -⟩
      cases other
  | invoke call =>
      obtain ⟨t, unchanged, result⟩ := next_invoke_starved enabled starved.1 starved.2
      by_cases spared : call.event = .evError ∧ call.leftNull = true
      · rw [if_pos spared] at result
        exact .inl ⟨⟨call, rfl, spared⟩, t, result, unchanged⟩
      · rw [if_neg spared] at result
        refine .inr ⟨?_, .inr result⟩
        rintro ⟨call', same, holds⟩
        cases same
        exact spared holds

theorem intact_iff (enabled : enabled s l) (starved : Starved (.ok s) l) :
    Intact (.ok s) l ↔ Spared l := by
  rcases starved_cases enabled starved with ⟨spared, t, result, unchanged⟩ | ⟨notSpared, fault⟩
  · exact iff_of_true ⟨s, t, rfl, result, unchanged⟩ spared
  · refine iff_of_false ?_ notSpared
    rintro ⟨_, _, _, survived, -⟩
    simp [survived, PointerFault] at fault

/-! ## Every other step -/

omit [DecidableEq Watcher] in
theorem setSlot_not_null (c : Connections.State Watcher) (fd : Nat) (entry : Option Watcher) :
    c.setSlot fd entry ≠ .error .nullPointer := by
  unfold Connections.State.setSlot
  split_ifs <;> simp

theorem freeLibev_not_null (c : Connections.State Watcher) (fd : Nat) :
    Connections.freeLibev c fd ≠ .error .nullPointer := by
  unfold Connections.freeLibev Connections.State.slot
  split_ifs
  · simp
  · cases c.libevList fd with
    | none => simp [bind, Except.bind]
    | some w => exact setSlot_not_null _ fd none
  · simp [bind, Except.bind]

/-- With a block, `accept_func_cb` uses no null pointer. -/
theorem acceptFuncCb_not_null (c : Connections.State Watcher)
    (block : (c.malloc accept.malloc accept.stale).1 ≠ none) :
    Connections.acceptFuncCb c accept ≠ .error .nullPointer := by
  unfold Connections.acceptFuncCb
  cases taken : c.malloc accept.malloc accept.stale with
  | mk first c' =>
      cases first with
      | none => simp [taken] at block
      | some w =>
          cases accept.socket with
          | none => split_ifs <;> simp [Connections.State.free]
          | some fd =>
              simp only [Connections.State.free, Connections.State.slot]
              split_ifs
              · simp
              · simp [bind, Except.bind]
              · simp only [bind, Except.bind]
                cases (c'.openSocket fd).libevList fd with
                | none => exact setSlot_not_null _ fd (some w)
                | some _ => simp
              · simp [bind, Except.bind]

omit [DecidableEq Watcher] [DecidableEq Block] in
theorem pointerFault_onConnections {result : Except Connections.Fault (Connections.State Watcher)}
    (valid : result ≠ .error .nullPointer) : ¬ PointerFault (s.onConnections result) := by
  cases result with
  | ok c => simp [PointerFault, State.onConnections]
  | error fault => simpa [PointerFault, State.onConnections] using valid

omit [DecidableEq Watcher] in
theorem obdInit_valid (memory : s.objPool = [] → read.malloc ≠ none) :
    ∃ obd t, s.obdInit read = (.valid obd, t) := by
  unfold State.obdInit
  cases empty : s.objPool with
  | cons obd rest => exact ⟨obd, _, rfl⟩
  | nil => cases given : read.malloc with
      | none => exact (memory empty given).elim
      | some obd => exact ⟨obd, _, rfl⟩

theorem readFuncCb_pointers (memory : s.objPool = [] → read.malloc ≠ none) (w : Watcher) :
    ¬ PointerFault (readFuncCb s w read) := by
  obtain ⟨obd, t, init⟩ := obdInit_valid memory
  simp only [readFuncCb, init]
  cases read.event with
  | evError | recvError =>
      simp [PointerFault, State.obdRelease, ObdPointer.deref, bind, Except.bind]
  | closed => exact pointerFault_onConnections (freeLibev_not_null _ _)
  | data bytes =>
      simp only [ObdPointer.deref, State.obdRelease, bind, Except.bind]
      split_ifs <;> simp [PointerFault]

theorem next_pointers (enabled : enabled s l) (fed : ¬ Starved (.ok s) l) :
    ¬ PointerFault ((eventLoop Watcher Block).next (.ok s) l) := by
  cases l with
  | accept call =>
      refine pointerFault_onConnections (acceptFuncCb_not_null _ fun none => fed ?_)
      unfold Connections.State.malloc at none
      cases empty : s.connections.evPool with
      | cons w rest => simp [empty] at none
      | nil => cases given : call.malloc with
          | some w => simp [empty, given] at none
          | none => exact ⟨empty, given⟩
  | invoke call =>
      obtain ⟨w, error, rest, -, -, called⟩ := next_invoke enabled
      have memory : s.objPool = [] → call.malloc ≠ none := fun empty failed =>
        fed ⟨empty, failed⟩
      show ¬ PointerFault (next s (.invoke call))
      rw [called]
      exact readFuncCb_pointers (s := { s with connections.pendings := rest }) memory w
  | drain =>
      show ¬ PointerFault (next s .drain)
      cases queue : s.obdMq with
      | nil | cons o rest => simp [next, queue, PointerFault]
  | ready | kill | workerRelease => simp [eventLoop, next, PointerFault, Except.bind]

end EventLoop

open Transition EventLoop

variable {Watcher Block : Type} [DecidableEq Watcher] [DecidableEq Block]
  {u v : Except EventLoop.Fault (EventLoop.State Watcher Block)}
  {tr : List (Except EventLoop.Fault (EventLoop.State Watcher Block) ×
    EventLoop.Label Watcher Block)}

/-- The only failed allocations that leave the server as it was. -/
theorem eventLoop_starved_intact_iff (run : Run (eventLoop Watcher Block) u tr v) :
    (∀ p ∈ tr, Starved p.1 p.2 → Intact p.1 p.2) ↔
      ∀ p ∈ tr, Starved p.1 p.2 → Spared p.2 := by
  have each : ∀ p ∈ tr, Starved p.1 p.2 → (Intact p.1 p.2 ↔ Spared p.2) := by
    rintro ⟨x, l⟩ member starved
    obtain ⟨_, _, _, enabled, _⟩ := run.cut member
    cases x with
    | error fault => exact enabled.elim
    | ok s => exact intact_iff enabled starved
  constructor
  · intro intact p member starved
    exact (each p member starved).mp (intact p member starved)
  · intro spared p member starved
    exact (each p member starved).mpr (spared p member starved)

namespace EventLoop

/-- A connection is accepted, libev kills its fd, and there is no memory for the error. -/
def errorStarved : List (Label Nat Nat) :=
  [accepts 5, .kill 5, .invoke { malloc := none, leftNull := true, event := .evError }]

/-- A call of `accept_func_cb` for which `malloc` returns `NULL`. -/
def acceptStarved : Label Nat Nat :=
  .accept { malloc := none, stale := ⟨true, 0⟩, evError := false, socket := some 5 }

end EventLoop

theorem eventLoop_starved_intact_iff_error :
    (∀ p ∈ trace (eventLoop Nat Nat) started errorStarved,
      Starved p.1 p.2 → Intact p.1 p.2) ↔
      ∀ p ∈ trace (eventLoop Nat Nat) started errorStarved, Starved p.1 p.2 → Spared p.2 :=
  eventLoop_starved_intact_iff (.ofSchedule _ (by decide +kernel))

theorem eventLoop_starved_faults : ¬ ∀ (u v : Except EventLoop.Fault (EventLoop.State Nat Nat)) tr,
    (eventLoop Nat Nat).init u → Run (eventLoop Nat Nat) u tr v →
      ∀ p ∈ tr, Starved p.1 p.2 → Intact p.1 p.2 := by
  intro always
  have run : Run (eventLoop Nat Nat) started _ _ := .ofSchedule [acceptStarved] (by decide +kernel)
  obtain ⟨_, _, _, survived, -⟩ :=
    always _ _ _ ⟨_, _, rfl⟩ run (started, acceptStarved) (by simp [trace]) ⟨rfl, rfl⟩
  have fault : (eventLoop Nat Nat).next started acceptStarved =
      .error (.connections .nullPointer) := rfl
  cases fault.symm.trans survived

/-- No callback uses an invalid pointer, as long as no allocation but a spared one fails. -/
theorem eventLoop_pointers_iff (start : ¬ PointerFault u)
    (run : Run (eventLoop Watcher Block) u tr v) :
    (∀ x, Visits tr v x → ¬ PointerFault x) ↔ ∀ p ∈ tr, Starved p.1 p.2 → Spared p.2 := by
  refine run.safe_iff (fun x => ¬ PointerFault x) (fun x l => Starved x l → Spared l) ?_
    (fun x valid => valid) ?_ start
  · intro x l valid allowed enabled
    cases x with
    | error fault => exact enabled.elim
    | ok s =>
        by_cases starved : Starved (.ok s) l
        · rcases starved_cases enabled starved with ⟨-, t, result, -⟩ | ⟨notSpared, -⟩
          · simp [result, PointerFault]
          · exact (notSpared (allowed starved)).elim
        · exact next_pointers enabled starved
  · intro x l valid forbidden enabled
    obtain ⟨starved, notSpared⟩ := Classical.not_imp.mp forbidden
    cases x with
    | error fault => exact enabled.elim
    | ok s =>
        rcases starved_cases enabled starved with ⟨spared, -⟩ | ⟨-, fault⟩
        · exact (notSpared spared).elim
        · exact not_not.mpr fault

end ObdServer
