import ObdServer.TaskPool
import ObdServer.ThreadPoolCrew

/-! # threadpool.c refines the task pool

Seen from outside, the stores of a critical section happen at once: what the owner of the
mutex has begun counts as done. Each statement is then a step of the task pool or none.
-/

namespace ObdServer.PoolThreads

open Monitor Transition

variable {Task : Type} {n : Nat} {Adder : Type}

/-- The pool once the owner of the mutex is through with its stores. -/
def settledPool (s : PoolState Task n Adder) : Threadpool Task :=
  match s.owner with
  | none => s.data.pool
  | some i =>
      match s.threads i with
      | .ready pc => settled i pc s.data.pool
      | _ => s.data.pool

/-- A worker as the users of the pool see it: it has a task from the load until it has run
    it, and is gone once it has decided to leave. Other threads are not seen. -/
def viewPlace : ∀ i, Pc Task n Adder i → TaskPool.Worker Task
  | .worker _, pc =>
      match pc with
      | .advance task | .wrap task | .decrement task | .unlock task | .run task => .working task
      | .leave | .lastUnlock | .exited => .gone
      | _ => .idle
  | _, _ => .idle

def viewStatus (i : Thread n Adder) (st : Status (Pc Task n Adder i)) : TaskPool.Worker Task :=
  st.place.elim .idle (viewPlace i)

def view (s : PoolState Task n Adder) : TaskPool.State Task n where
  pool := settledPool s
  workers j := viewStatus (.worker j) (s.threads (.worker j))
  accepted := s.data.accepted
  refused := s.data.refused
  taken := s.data.taken
  finished := s.data.finished

/-- No store has been begun at this place. -/
def Calm (i : Thread n Adder) (pc : Pc Task n Adder i) : Prop :=
  ∀ pool, settled i pc pool = pool

/-- Seen from outside, nothing happens between the two places. -/
def Unseen (i : Thread n Adder) (pc k : Pc Task n Adder i) : Prop :=
  Calm i pc ∧ Calm i k ∧ viewPlace i k = viewPlace i pc

/-- The calls of the pthread functions, and the choices, are not seen. -/
theorem unseen (i : Thread n Adder) (pc : Pc Task n Adder i) :
    match program Task n Adder i pc with
    | .lock k | .unlock k | .wait k | .signal k | .broadcast k | .join _ k => Unseen i pc k
    | .spawn j start k => Unseen i pc k ∧ viewPlace j start = .idle
    | .choose allowed => ∀ k, allowed k = true → Unseen i pc k
    | .act _ | .stop => True := by
  cases i with
  | main =>
      cases pc with
      | create i | pthreadCreate i | joinThread i =>
          simp only [program, mainStmt]
          split_ifs
          all_goals grind [Unseen, Calm, settled, viewPlace]
      | _ => grind [program, mainStmt, Unseen, Calm, settled, viewPlace]
  | worker j => cases pc <;> grind [program, workerStmt, Unseen, Calm, settled, viewPlace]
  | adder a =>
      cases pc with
      | outside =>
          intro k calls
          cases k with
          | check => exact ⟨fun _ => rfl, fun _ => rfl, rfl⟩
          | _ => cases calls
      | _ => grind [program, adderStmt, Unseen, Calm, settled, viewPlace]

/-! ## Steps that are not seen -/

section Unseen

variable [DecidableEq Adder] {s : PoolState Task n Adder}

omit [DecidableEq Adder] in
theorem view_congr {s s' : PoolState Task n Adder} (pool : settledPool s' = settledPool s)
    (workers : ∀ i, viewStatus i (s'.threads i) = viewStatus i (s.threads i))
    (data : s'.data = s.data) : view s' = view s := by
  simp only [view, pool, workers, data]

theorem viewStatus_move {i : Thread n Adder} {st : Status (Pc Task n Adder i)}
    (same : viewStatus i st = viewStatus i (s.threads i)) (j : Thread n Adder) :
    viewStatus j ((s.move i st).threads j) = viewStatus j (s.threads j) := by
  by_cases here : j = i
  · subst here
    rw [State.move_self, same]
  · rw [State.move_of_ne _ _ _ here]

omit [DecidableEq Adder] in
theorem settledPool_calm {i : Thread n Adder} {pc : Pc Task n Adder i}
    (mine : s.owner = some i) (place : s.threads i = .ready pc) (calm : Calm i pc) :
    settledPool s = s.data.pool := by
  simp only [settledPool, mine, place]
  exact calm _

theorem settledPool_stay (exclusive : Exclusive inside s) {i : Thread n Adder}
    {pc k : Pc Task n Adder i} (place : s.threads i = .ready pc) (calm : Calm i pc)
    (calm' : Calm i k) : settledPool (s.move i (.ready k)) = settledPool s := by
  cases within : inside i pc with
  | true =>
      have mine := (exclusive.held place).mpr within
      rw [settledPool_calm mine place calm]
      exact settledPool_calm mine (State.move_self ..) calm'
  | false =>
      have other : s.owner ≠ some i := fun mine => by
        rw [(exclusive.held place).mp mine] at within
        cases within
      simp only [settledPool, State.move_owner, State.move_data]
      cases owner : s.owner with
      | none => rfl
      | some j =>
          have apart : j ≠ i := fun same => other (by rw [owner, same])
          simp only [State.move_of_ne _ _ _ apart]

/-- A thread that moves without being seen, the mutex staying where it is. -/
theorem view_stay (exclusive : Exclusive inside s) {i : Thread n Adder}
    {pc k : Pc Task n Adder i} (place : s.threads i = .ready pc) (hidden : Unseen i pc k) :
    view (s.move i (.ready k)) = view s := by
  refine view_congr (settledPool_stay exclusive place hidden.1 hidden.2.1)
    (viewStatus_move ?_) rfl
  rw [place]
  exact hidden.2.2

/-- A thread that is not the owner, before the step or after it, changes its status. -/
theorem view_apart {i : Thread n Adder} {st : Status (Pc Task n Adder i)}
    (apart : s.owner ≠ some i) (same : viewStatus i st = viewStatus i (s.threads i)) :
    view (s.move i st) = view s := by
  refine view_congr ?_ (viewStatus_move same) rfl
  simp only [settledPool, State.move_owner, State.move_data]
  cases owner : s.owner with
  | none => rfl
  | some j =>
      have other : j ≠ i := fun same => apart (by rw [owner, same])
      simp only [State.move_of_ne _ _ _ other]

omit [DecidableEq Adder] in
theorem view_wakeAll (exclusive : Exclusive inside s) : view s.wakeAll = view s := by
  refine view_congr ?_ (fun i => by simp [viewStatus, State.wakeAll]) rfl
  simp only [settledPool, State.wakeAll]
  cases owner : s.owner with
  | none => rfl
  | some i =>
      have holds := (exclusive.owner i).mp owner
      cases status : s.threads i <;> simp [status, Status.holds, Status.wake] at holds ⊢

omit [DecidableEq Adder] in
theorem settledPool_free (free : s.owner = none) : settledPool s = s.data.pool := by
  simp only [settledPool, free]

omit [DecidableEq Adder] in
/-- A thread that is not at a place of its code is not the owner. -/
theorem not_owner (exclusive : Exclusive inside s) {i : Thread n Adder}
    (away : (s.threads i).holds (inside i) = false) : s.owner ≠ some i := by
  intro mine
  rw [(exclusive.owner i).mp mine] at away
  cases away

theorem view_wake (exclusive : Exclusive inside s) {j : Thread n Adder} {k : Pc Task n Adder j}
    (asleep : s.threads j = .asleep k) : view (s.move j (.woken k)) = view s :=
  view_apart (not_owner exclusive (by rw [asleep]; rfl)) (by rw [asleep]; rfl)

end Unseen

/-! ## The statements on the data -/

section Acts

variable [DecidableEq Adder] {s : PoolState Task n Adder}

/-- The state after a statement on the data. -/
abbrev after (s : PoolState Task n Adder) (i : Thread n Adder) (d : PoolData Task)
    (k : Pc Task n Adder i) : PoolState Task n Adder :=
  State.move { s with data := d } i (.ready k)

/-- A statement outside the mutex that leaves the pool alone. -/
theorem settledPool_outside (exclusive : Exclusive inside s) {i : Thread n Adder}
    {pc k : Pc Task n Adder i} (place : s.threads i = .ready pc) (outside : inside i pc = false)
    {d : PoolData Task} (same : d.pool = s.data.pool) :
    settledPool (after s i d k) = settledPool s := by
  have apart := not_owner exclusive (by rw [place]; exact outside)
  simp only [settledPool, State.move_owner, State.move_data, same]
  cases owner : s.owner with
  | none => rfl
  | some j =>
      have other : j ≠ i := fun same => apart (by rw [owner, same])
      simp only [State.move_of_ne _ _ _ other]

omit [DecidableEq Adder] in
theorem settledPool_ready (exclusive : Exclusive inside s) {i : Thread n Adder}
    {pc : Pc Task n Adder i} (place : s.threads i = .ready pc) (within : inside i pc = true) :
    settledPool s = settled i pc s.data.pool := by
  simp only [settledPool, (exclusive.held place).mpr within, place]

theorem settledPool_after (exclusive : Exclusive inside s) {i : Thread n Adder}
    {pc k : Pc Task n Adder i} (place : s.threads i = .ready pc) (within : inside i pc = true)
    (d : PoolData Task) : settledPool (after s i d k) = settled i k d.pool := by
  simp only [settledPool, State.move_owner, (exclusive.held place).mpr within, State.move_self,
    State.move_data]

/-- The workers as they are seen once a thread has moved. -/
theorem workers_after {i : Thread n Adder} {pc k : Pc Task n Adder i} {d : PoolData Task}
    (place : s.threads i = .ready pc) (same : viewPlace i k = viewPlace i pc) :
    (view (after s i d k)).workers = (view s).workers := by
  funext j
  have moved : viewStatus i (Status.ready k) = viewStatus i (s.threads i) := by
    rw [place]
    exact same
  exact viewStatus_move moved (.worker j)

theorem workers_update (j : Fin n) (k : WorkerPc Task) (d : PoolData Task) :
    (view (after s (.worker j) d k)).workers =
      Function.update (view s).workers j (@viewPlace Task n Adder (.worker j) k) := by
  funext j'
  by_cases same : j' = j
  · subst same
    simp [view, viewStatus, Status.place]
  · simp [view, same]

/-- The task pool takes one step or none. -/
def Answered (s s' : PoolState Task n Adder) : Prop :=
  view s' = view s ∨
    ∃ l, TaskPool.Enabled (view s) l ∧ view s' = TaskPool.next (view s) l

/-- A statement that is not seen. -/
theorem hidden {i : Thread n Adder} {pc k : Pc Task n Adder i} {d : PoolData Task}
    (place : s.threads i = .ready pc) (pool : settledPool (after s i d k) = settledPool s)
    (same : viewPlace i k = viewPlace i pc) (accepted : d.accepted = s.data.accepted)
    (refused : d.refused = s.data.refused) (taken : d.taken = s.data.taken)
    (finished : d.finished = s.data.finished) : Answered s (after s i d k) := by
  refine .inl (TaskPool.State.ext pool (workers_after place same) ?_ ?_ ?_ ?_)
  exacts [accepted, refused, taken, finished]

theorem main_answered (sound : Sound s) {pc : MainPc}
    {f : PoolData Task → PoolData Task × Pc Task n Adder .main}
    (place : s.threads .main = .ready pc) (stmt : mainStmt pc = .act f) :
    Answered s (after s .main (f s.data).1 (f s.data).2) := by
  have exclusive := sound.exclusive
  -- main has no stores to finish, so a statement that leaves the pool alone is not seen
  have unseen : ∀ {k : MainPc} {d : PoolData Task}, d.pool = s.data.pool →
      d.accepted = s.data.accepted → d.refused = s.data.refused → d.taken = s.data.taken →
      d.finished = s.data.finished → Answered s (after s .main d k) := by
    intro k d pool
    refine hidden place ?_ rfl
    cases within : @inside Task n Adder .main pc with
    | true =>
        rw [settledPool_after exclusive place within, settledPool_ready exclusive place within]
        exact pool
    | false => exact settledPool_outside exclusive place within pool
  cases pc with
  | create i | pthreadCreate i | joinThread i =>
      simp only [mainStmt] at stmt
      split_ifs at stmt
      all_goals cases stmt; exact unseen rfl rfl rfl rfl rfl
  | setShutdown graceful =>
      cases stmt
      have running := (sound.known .main (.setShutdown graceful) (by rw [place]; rfl)).1
      refine .inr ⟨.destroy graceful, trivial,
        TaskPool.State.ext ?_ (workers_after place rfl) rfl rfl rfl rfl⟩
      have pool : (view s).pool = s.data.pool := settledPool_ready exclusive place rfl
      rw [TaskPool.next, pool, threadpoolDestroy, if_neg (not_not.mpr running)]
      exact settledPool_after exclusive place rfl _
  | _ => cases stmt <;> exact unseen rfl rfl rfl rfl rfl

theorem worker_answered (sound : Sound s) {j : Fin n} {pc : WorkerPc Task}
    {f : PoolData Task → PoolData Task × Pc Task n Adder (.worker j)}
    (place : s.threads (.worker j) = .ready pc) (stmt : workerStmt j pc = .act f) :
    Answered s (after s (.worker j) (f s.data).1 (f s.data).2) := by
  have exclusive := sound.exclusive
  have held := sound.asserted.held (.worker j) pc place
  have worker : (view s).workers j = @viewPlace Task n Adder (.worker j) pc := by
    simp [view, viewStatus, place, Status.place]
  -- a store that was begun before does not change the settled pool
  have unseen : ∀ {k : WorkerPc Task} {d : PoolData Task},
      @inside Task n Adder (.worker j) pc = true →
      @settled Task n Adder (.worker j) k d.pool =
        @settled Task n Adder (.worker j) pc s.data.pool →
      @viewPlace Task n Adder (.worker j) k = @viewPlace Task n Adder (.worker j) pc →
      d.accepted = s.data.accepted → d.refused = s.data.refused → d.taken = s.data.taken →
      d.finished = s.data.finished → Answered s (after s (.worker j) d k) := by
    intro k d within pool
    refine hidden place ?_
    rw [settledPool_after exclusive place within, settledPool_ready exclusive place within]
    exact pool
  cases pc with
  | lock | wait | unlock | lastUnlock | exited => cases stmt
  | test =>
      cases stmt
      refine unseen rfl ?_ ?_ rfl rfl rfl rfl <;> dsimp only <;> split_ifs <;> rfl
  | decide =>
      cases stmt
      obtain ⟨_, busy⟩ := held rfl
      have pool : (view s).pool = s.data.pool := settledPool_ready exclusive place rfl
      by_cases leaves : s.data.pool.shutdown = .immediate ∨
          (s.data.pool.shutdown = .graceful ∧ s.data.pool.count = 0)
      · refine .inr ⟨.leave j, ⟨worker, ?_⟩, ?_⟩
        · rw [pool, threadpoolThreadTurn, if_neg busy, if_pos leaves]
        · simp only [if_pos leaves]
          refine TaskPool.State.ext ?_ (workers_update j .leave _) rfl rfl rfl rfl
          exact (settledPool_after exclusive place rfl _).trans pool.symm
      · simp only [if_neg leaves]
        exact unseen rfl rfl rfl rfl rfl rfl rfl
  | load =>
      cases stmt
      obtain ⟨_, some, goes⟩ := held rfl
      have pool : (view s).pool = s.data.pool := settledPool_ready exclusive place rfl
      refine .inr ⟨.grab j, ⟨worker, ?_⟩, ?_⟩
      · rw [pool]
        exact Threadpool.turn_grab_iff.mpr ⟨some, goes⟩
      · simp only [TaskPool.next, pool]
        exact TaskPool.State.ext (settledPool_after exclusive place rfl _)
          (workers_update j (.advance _) _) rfl rfl rfl rfl
  | advance | wrap | decrement =>
      cases stmt
      exact unseen rfl rfl rfl rfl rfl rfl rfl
  | run task =>
      cases stmt
      refine .inr ⟨.finish j task, worker, ?_⟩
      exact TaskPool.State.ext (settledPool_outside exclusive place rfl rfl)
        (workers_update j .lock _) rfl rfl rfl rfl
  | leave =>
      cases stmt
      exact unseen rfl rfl rfl rfl rfl rfl rfl

theorem adder_answered (sound : Sound s) {a : Adder} {pc : AdderPc Task}
    {f : PoolData Task → PoolData Task × Pc Task n Adder (.adder a)}
    (place : s.threads (.adder a) = .ready pc) (stmt : adderStmt a pc = .act f) :
    Answered s (after s (.adder a) (f s.data).1 (f s.data).2) := by
  have exclusive := sound.exclusive
  have held := sound.asserted.held (.adder a) pc place
  have unseen : ∀ {k : AdderPc Task} {d : PoolData Task},
      @inside Task n Adder (.adder a) pc = true →
      @settled Task n Adder (.adder a) k d.pool =
        @settled Task n Adder (.adder a) pc s.data.pool →
      d.accepted = s.data.accepted → d.refused = s.data.refused → d.taken = s.data.taken →
      d.finished = s.data.finished → Answered s (after s (.adder a) d k) := by
    intro k d within pool
    refine hidden place ?_ rfl
    rw [settledPool_after exclusive place within, settledPool_ready exclusive place within]
    exact pool
  have ready : @inside Task n Adder (.adder a) pc = true →
      (view s).pool = @settled Task n Adder (.adder a) pc s.data.pool :=
    fun within => settledPool_ready exclusive place within
  cases pc with
  | outside | lock | signal | unlock => cases stmt
  | check task =>
      cases stmt
      exact hidden place (settledPool_outside exclusive place rfl rfl) rfl rfl rfl rfl rfl
  | computeNext | setTail | increment =>
      cases stmt
      exact unseen rfl rfl rfl rfl rfl rfl
  | testFull task next =>
      cases stmt
      by_cases full : s.data.pool.count = s.data.pool.queueSize
      · refine .inr ⟨.add task, trivial, ?_⟩
        simp only [if_pos full, TaskPool.next, ready rfl, threadpoolAdd, settled]
        exact TaskPool.State.ext (settledPool_after exclusive place rfl _)
          (workers_after place rfl) rfl rfl rfl rfl
      · simp only [if_neg full]
        exact unseen rfl rfl rfl rfl rfl rfl
  | testShutdown task next =>
      cases stmt
      obtain ⟨_, _, room⟩ := held rfl
      by_cases running : s.data.pool.shutdown = .running
      · simp only [running, ne_eq, not_true_eq_false, if_false]
        exact unseen rfl rfl rfl rfl rfl rfl
      · refine .inr ⟨.add task, trivial, ?_⟩
        simp only [ne_eq, running, not_false_eq_true, if_true, TaskPool.next, ready rfl,
          threadpoolAdd, settled, if_neg room]
        exact TaskPool.State.ext (settledPool_after exclusive place rfl _)
          (workers_after place rfl) rfl rfl rfl rfl
  | store task next =>
      cases stmt
      obtain ⟨_, rfl, room, running⟩ := held rfl
      refine .inr ⟨.add task, trivial, ?_⟩
      simp only [TaskPool.next, ready rfl, settled, Threadpool.add_accepted room running]
      exact TaskPool.State.ext (settledPool_after exclusive place rfl _)
        (workers_after place rfl) rfl rfl rfl rfl

end Acts

/-! ## The refinement -/

variable [DecidableEq Adder] {s : PoolState Task n Adder}

/-- Every step of a thread is one of the task pool, or is not seen. -/
theorem step_answered {s' : PoolState Task n Adder} {l : Label (Pc Task n Adder)}
    (sound : Sound s) (step : Step (program Task n Adder) s l s') : Answered s s' := by
  have exclusive := sound.exclusive
  cases step with
  | @act i pc f place stmt =>
      cases i with
      | main => exact main_answered sound place stmt
      | worker j => exact worker_answered sound place stmt
      | adder a => exact adder_answered sound place stmt
  | @lock i pc k place stmt free =>
      have hidden := unseen i pc
      rw [stmt] at hidden
      refine .inl (view_congr ?_ (viewStatus_move ?_) rfl)
      · rw [settledPool_calm rfl (State.move_self ..) hidden.2.1, settledPool_free free]
        rfl
      · rw [place]
        exact hidden.2.2
  | @relock i k place free =>
      have parks := sound.parks i k (by rw [place]; rfl)
      refine .inl (view_congr ?_ (viewStatus_move ?_) rfl)
      · have calm : Calm i k := by
          cases i with
          | worker j =>
              obtain rfl := parks
              exact fun _ => rfl
          | main | adder => cases parks
        rw [settledPool_calm rfl (State.move_self ..) calm, settledPool_free free]
        rfl
      · rw [place]
        rfl
  | @unlock i pc k place stmt =>
      have hidden := unseen i pc
      have brackets := bracketed i pc
      rw [stmt] at hidden brackets
      have mine := (exclusive.held place).mpr brackets.1
      refine .inl (view_congr ?_ (viewStatus_move ?_) rfl)
      · rw [settledPool_calm mine place hidden.1, settledPool_free rfl]
        rfl
      · rw [place]
        exact hidden.2.2
  | @wait i pc k place stmt =>
      have hidden := unseen i pc
      have brackets := bracketed i pc
      rw [stmt] at hidden brackets
      have mine := (exclusive.held place).mpr brackets.1
      refine .inl (view_congr ?_ (viewStatus_move ?_) rfl)
      · rw [settledPool_calm mine place hidden.1, settledPool_free rfl]
        rfl
      · rw [place]
        exact hidden.2.2
  | @signal i pc k place stmt | @join i _ pc k place stmt =>
      have hidden := unseen i pc
      rw [stmt] at hidden
      exact .inl (view_stay exclusive place hidden)
  | @notify i j pc k k' place stmt asleep other =>
      have hidden := unseen i pc
      rw [stmt] at hidden
      left
      rw [view_stay (exclusive.wake asleep) (by simpa [other.symm] using place) hidden,
        view_wake exclusive asleep]
  | @broadcast i pc k place stmt =>
      have hidden := unseen i pc
      rw [stmt] at hidden
      left
      rw [view_stay exclusive.wakeAll (by simp [State.wakeAll, place, Status.wake]) hidden,
        view_wakeAll exclusive]
  | @spawn i j pc k start place stmt unborn other =>
      have hidden := unseen i pc
      have brackets := bracketed i pc
      rw [stmt] at hidden brackets
      have born : view (s.move j (.ready start)) = view s :=
        view_apart (not_owner exclusive (by rw [unborn]; rfl)) (by rw [unborn]; exact hidden.2)
      have fresh : Exclusive inside (s.move j (.ready start)) :=
        exclusive.move s.data
          (by rw [exclusive.owner, unborn]; simp [Status.holds, brackets.2])
          (fun _ _ => Iff.rfl) (by simp [Status.parked])
      left
      rw [view_stay fresh (by simpa [other.symm] using place) hidden.1, born]
  | @choose i pc k allowed place stmt may =>
      have hidden := unseen i pc
      rw [stmt] at hidden
      exact .inl (view_stay exclusive place (hidden k may))
  | spurious asleep => exact .inl (view_wake exclusive asleep)

/-- Whatever the threads of threadpool.c do, statement by statement, the task pool can do in
    whole calls, with the same tasks accepted, refused, taken and finished in the same
    orders. -/
theorem threadpool_refines {queue : Nat → Task} {queueSize : Nat}
    {tr : List (PoolState Task n Adder × Label (Pc Task n Adder))}
    (run : Run (threads Task n Adder) (initial n Adder queue queueSize) tr s) :
    ∃ tr', Run (TaskPool.taskPool Task n) (TaskPool.initial n queue queueSize) tr' (view s) := by
  have answers : ∀ u l v, v = view u ∧ Sound u → (threads Task n Adder).enabled u l →
      ∃ tr' v', Run (TaskPool.taskPool Task n) v tr' v' ∧
        (v' = view ((threads Task n Adder).next u l) ∧
          Sound ((threads Task n Adder).next u l)) := by
    rintro u l v ⟨rfl, sound⟩ enabled
    have step := step_of_enabled enabled
    rcases step_answered sound step with same | ⟨label, may, made⟩
    · exact ⟨[], _, .refl, same.symm, sound.step step⟩
    · exact ⟨_, _, Run.single (M := TaskPool.taskPool Task n) may, made.symm, sound.step step⟩
  have start : TaskPool.initial n queue queueSize = view (initial n Adder queue queueSize) := rfl
  obtain ⟨tr', t, answer, rfl, _⟩ :=
    run.forward _ answers ⟨start, sound_initial queue queueSize⟩
  exact ⟨tr', answer⟩

theorem threadpool_refines_finishing :
    ∃ tr', Run (TaskPool.taskPool Nat 1) (TaskPool.initial 1 (fun _ => 0) 1) tr'
      (view (exec (threads Nat 1 Unit) (initial 1 Unit (fun _ => 0) 1) finishing)) :=
  threadpool_refines finishing_run

end ObdServer.PoolThreads
