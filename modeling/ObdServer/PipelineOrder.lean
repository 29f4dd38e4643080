import ObdServer.PipelineMessages

/-! # The order of the messages

`obd_mq`, the drain thread and the task queue together are one FIFO: what workers have
taken, followed by what is still on its way to them, is what the callback has put, but for
the messages `threadpool_add` refused.
-/

namespace ObdServer.Pipeline

open Transition

variable {Block : Type} [DecidableEq Block] {s t : State Block} {l : Label Block}
  {puts taken failed : List Nat}

/-- The message a step puts. -/
def putBy (s : State Block) : Label Block → List Nat
  | .put => s.main.unput.map s.history.message
  | _ => []

/-- The message a step takes from the task queue. -/
def takenBy (s : State Block) : Label Block → List Nat
  | .grab _ => [s.history.message (threadpoolThreadGrab s.threadPool).1]
  | _ => []

/-- The message a step fails to add to the task queue. -/
def failedBy (s : State Block) (l : Label Block) : List Nat :=
  if addFails s l then s.drain.holds.map s.history.message else []

/-! The messages put, taken and refused in a run, oldest first. -/

def putMessages (tr : List (State Block × Label Block)) : List Nat :=
  tr.flatMap fun p => putBy p.1 p.2

def takenMessages (tr : List (State Block × Label Block)) : List Nat :=
  tr.flatMap fun p => takenBy p.1 p.2

def failedMessages (tr : List (State Block × Label Block)) : List Nat :=
  tr.flatMap fun p => failedBy p.1 p.2

/-- The blocks from the workers back to the callback. -/
def State.inFlight (s : State Block) : List Block :=
  s.threadPool.tasks ++ s.drain.holds ++ s.obdMq

/-- What holds of the messages put, taken and refused so far. Messages are numbered in the
    order in which they are acknowledged, so that each is put once. -/
structure State.Ordered (s : State Block) (puts taken failed : List Nat) : Prop where
  numbered : puts ++ s.main.unput.map s.history.message = List.range s.history.acked
  refused : failed ⊆ puts
  order : taken ++ s.inFlight.map s.history.message = puts.filter (· ∉ failed)

omit [DecidableEq Block] in
theorem State.Ordered.initial (mem : Block → Obd) (queue : Nat → Block)
    (queueSize threadCount : Nat) :
    (State.initial mem queue queueSize threadCount).Ordered [] [] [] where
  numbered := rfl
  refused := List.nil_subset []
  order := rfl

omit [DecidableEq Block] in
theorem State.Ordered.nodup (ordered : s.Ordered puts taken failed) : puts.Nodup := by
  have all := List.nodup_range (n := s.history.acked)
  rw [← ordered.numbered] at all
  exact (List.nodup_append.mp all).1

omit [DecidableEq Block] in
/-- The message the callback is about to put is not one of those put. -/
theorem State.Ordered.unput_fresh (ordered : s.Ordered puts taken failed) :
    ∀ m ∈ s.main.unput.map s.history.message, m ∉ puts := by
  have all := List.nodup_range (n := s.history.acked)
  rw [← ordered.numbered] at all
  intro m unput put
  exact (List.nodup_append.mp all).2.2 m put m unput rfl

theorem State.Owned.not_inFlight (owned : s.Owned) {obd : Block} (pc : s.main = .initialised obd) :
    obd ∉ s.inFlight := by
  intro inFlight
  apply (owned.not_carrier pc).1
  simp only [State.inFlight, State.carriers, List.mem_append] at inFlight ⊢
  tauto

/-! ## Over a step -/

theorem numbered_step (ordered : s.Ordered puts taken failed) (step : Step s l t) :
    (puts ++ putBy s l) ++ t.main.unput.map t.history.message = List.range t.history.acked := by
  have before := ordered.numbered
  cases step with
  | allocate mem pc | reuse mem pc | discard mem pc | release mem pc | leaveLoop pc
  | joinDrain pc | destroyThreadPool pc | joinWorkers pc | destroyObdPool pc =>
      simpa [putBy, pc, MainPc.unput] using before
  | acknowledge mem pc =>
      simp only [pc, MainPc.unput, List.map_nil, List.append_nil] at before
      simp [putBy, MainPc.unput, List.range_succ, before]
  | put pc => simpa [putBy, pc, MainPc.unput] using before
  | sigint | evalFlag | isEmptyTrue | isEmptyFalse | getNull | get | addTask | dropTask | grab
  | decode | workerRelease | workerExit => simpa [putBy] using before

omit [DecidableEq Block] in
theorem failedBy_accepted {o : Block} (pc : s.drain = .adding o)
    (room : s.threadPool.count ≠ s.threadPool.queueSize)
    (running : s.threadPool.shutdown = .running) : failedBy s .add = [] := by
  simp [failedBy, addFails, pc, Threadpool.add_accepted room running]

omit [DecidableEq Block] in
theorem failedBy_refused {o : Block} (pc : s.drain = .adding o)
    (refuses : s.threadPool.count = s.threadPool.queueSize ∨ s.threadPool.shutdown ≠ .running) :
    failedBy s .add = [s.history.message o] := by
  obtain ⟨error, refused⟩ := Threadpool.add_refused refuses o
  simp [failedBy, addFails, pc, refused, DrainPc.holds]

omit [DecidableEq Block] in
theorem failedBy_of_ne_add (other : l ≠ .add) : failedBy s l = [] := by
  cases l with
  | add => exact absurd rfl other
  | _ => rfl

theorem refused_step (ordered : s.Ordered puts taken failed) (step : Step s l t) :
    failed ++ failedBy s l ⊆ puts ++ putBy s l := by
  have earlier : failed ⊆ puts ++ putBy s l :=
    List.Subset.trans ordered.refused (List.subset_append_left _ _)
  apply List.append_subset.mpr ⟨earlier, _⟩
  cases step with
  | addTask pc room running => simp [failedBy_accepted pc room running]
  | @dropTask o pc refuses =>
      rw [failedBy_refused pc refuses]
      have inOrder : s.history.message o ∈ puts.filter (· ∉ failed) := by
        rw [← ordered.order]
        simp [State.inFlight, pc, DrainPc.holds]
      simpa using List.mem_append_left _ (List.mem_of_mem_filter inOrder)
  | _ => simp [failedBy_of_ne_add]

/-- One message taken out of a list without duplicates. -/
theorem filter_ne_middle {a b : List Nat} {m : Nat} (nodup : (a ++ m :: b).Nodup) :
    (a ++ m :: b).filter (· ≠ m) = a ++ b := by
  have outside : m ∉ a ++ b := (List.nodup_middle.mp nodup).notMem
  rw [List.filter_append, List.filter_cons_of_neg (by simp), ← List.filter_append]
  apply List.filter_eq_self.mpr
  intro x member
  simpa using ne_of_mem_of_not_mem member outside

theorem order_step (ordered : s.Ordered puts taken failed) (owned : s.Owned) (step : Step s l t) :
    (taken ++ takenBy s l) ++ t.inFlight.map t.history.message =
      (puts ++ putBy s l).filter (· ∉ failed ++ failedBy s l) := by
  have before := ordered.order
  cases step with
  | @acknowledge event obd mem pc =>
      have kept := map_update_of_notMem (f := s.history.message) s.history.acked
        (owned.not_inFlight pc)
      rw [← kept] at before
      simp only [takenBy, putBy, failedBy_of_ne_add, ne_eq, reduceCtorEq, not_false_eq_true,
        List.append_nil]
      exact before
  | @put obd pc =>
      have fresh := ordered.unput_fresh (s.history.message obd) (by simp [pc, MainPc.unput])
      have notFailed : s.history.message obd ∉ failed := fun early => fresh (ordered.refused early)
      have grown : State.inFlight { s with obdMq := s.obdMq ++ [obd], main := .polling } =
          s.inFlight ++ [obd] := (List.append_assoc _ _ _).symm
      simp only [takenBy, List.append_nil]
      rw [grown, List.map_append, ← List.append_assoc, before]
      simp [putBy, failedBy_of_ne_add, pc, MainPc.unput, List.filter_append, notFailed]
  | addTask pc room running =>
      simp only [State.inFlight, pc, DrainPc.holds] at before
      simp only [State.inFlight, Threadpool.add_tasks owned.queue room running, DrainPc.holds]
      simpa [takenBy, putBy, failedBy_accepted pc room running] using before
  | @dropTask o pc refuses =>
      have nodup := ordered.nodup.filter (· ∉ failed)
      simp only [State.inFlight, pc, DrainPc.holds, List.map_append, List.map_cons, List.map_nil,
        ← List.append_assoc] at before
      rw [List.append_assoc, List.singleton_append] at before
      rw [← before] at nodup
      have removed := filter_ne_middle nodup
      rw [before, List.filter_filter] at removed
      simp only [State.inFlight, takenBy, putBy, failedBy_refused pc refuses, DrainPc.holds,
        List.append_nil, List.map_append]
      rw [← List.append_assoc, ← removed]
      apply List.filter_congr
      intro m _
      simp [Bool.and_comm]
  | get pc queue =>
      simp only [State.inFlight, pc, queue, DrainPc.holds] at before
      simpa [State.inFlight, takenBy, putBy, failedBy_of_ne_add, DrainPc.holds] using before
  | grab found some =>
      simp only [State.inFlight, Threadpool.grab_tasks owned.queue some] at before
      simpa [State.inFlight, takenBy, putBy, failedBy_of_ne_add] using before
  | destroyThreadPool pc =>
      simpa [State.inFlight, takenBy, putBy, failedBy_of_ne_add, Threadpool.destroy_tasks]
        using before
  | evalFlag pc =>
      simp only [State.inFlight, pc, DrainPc.holds] at before
      cases s.mqFlag <;>
        simpa [State.inFlight, takenBy, putBy, failedBy_of_ne_add, DrainPc.holds] using before
  | isEmptyTrue pc | isEmptyFalse pc | getNull pc =>
      simp only [State.inFlight, pc, DrainPc.holds] at before
      simpa [State.inFlight, takenBy, putBy, failedBy_of_ne_add, DrainPc.holds] using before
  | allocate | reuse | discard | release | sigint | leaveLoop | joinDrain | joinWorkers
  | destroyObdPool | decode | workerRelease | workerExit =>
      simpa [State.inFlight, takenBy, putBy, failedBy_of_ne_add] using before

theorem State.Ordered.step (ordered : s.Ordered puts taken failed) (owned : s.Owned)
    (step : Step s l t) :
    t.Ordered (puts ++ putBy s l) (taken ++ takenBy s l) (failed ++ failedBy s l) where
  numbered := numbered_step ordered step
  refused := refused_step ordered step
  order := order_step ordered owned step

theorem ordered_of_run {tr : List (State Block × Label Block)} (init : (pipeline Block).init s)
    (run : Run (pipeline Block) s tr t) :
    t.Ordered (putMessages tr) (takenMessages tr) (failedMessages tr) := by
  induction run with
  | refl =>
      obtain ⟨mem, queue, queueSize, threadCount, rfl⟩ := init
      exact .initial mem queue queueSize threadCount
  | @tail tr u l earlier enabled ih =>
      have owned := owned_of_run init earlier
      simp only [putMessages, takenMessages, failedMessages, List.flatMap_append,
        List.flatMap_singleton]
      exact ih.step owned (step_of_enabled enabled)

end ObdServer.Pipeline
