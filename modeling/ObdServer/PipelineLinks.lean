import ObdServer.MessageQueue
import ObdServer.PipelineOrder

/-! # The pipeline on the linked list

The pipeline once more, with `obd_mq` as the circular list of the `list_t` nodes in the
blocks. Its steps look at the links where those of `Pipeline` look at a list, and take it
through the same states.
-/

namespace ObdServer

namespace Pipeline

open Transition CircularList

/-- The address of a `list_t`: that of `obd_mq.list`, or that of `obd->list` in a block. -/
inductive ListPtr (Block : Type) where
  | head
  | node (obd : Block)
  deriving DecidableEq

/-- The pipeline and the nodes in memory. No step looks at `state.obdMq`. -/
structure LinkedState (Block : Type) where
  state : State Block
  mq : QueueState (ListPtr Block)

variable {Block : Type} [DecidableEq Block] {x y : LinkedState Block} {l : Label Block}
  {mq : QueueState (ListPtr Block)} {queued : List Block} {obd : Block}

/-- `list_init(&obd->list)`. -/
def initNode (mq : QueueState (ListPtr Block)) (obd : Block) : QueueState (ListPtr Block) :=
  { mq with heap := listInit mq.heap (.node obd) }

def nextLinked (x : LinkedState Block) : Label Block → LinkedState Block
  | .readFuncCb fresh =>
      { state := next x.state (.readFuncCb fresh)
        mq := initNode x.mq (malloc x.state.objPool fresh).1 }
  | .release => match x.state.main with
      | .releasing obd => { state := next x.state .release, mq := initNode x.mq obd }
      | _ => x
  | .put => match x.state.main with
      | .acknowledged obd =>
          { state := next x.state .put, mq := mqPut (initNode x.mq obd) (.node obd) }
      | _ => x
  | .isEmpty =>
      { x with
        state.drain := if headIsAlone x.mq then .exited else .beforeGet
        state.mqHeld := true }
  | .get => match mqGet x.mq with
      | (some (.node o), mq) =>
          { state := { x.state with obdMq := x.state.obdMq.tail, drain := .adding o }, mq }
      -- `mq_get` never returns the head node
      | (some .head, _) => x
      | (none, mq) => { state := { x.state with drain := .condition }, mq }
  | .workerRelease i => match x.state.workers[i]? with
      | some (.releasing o) =>
          { state := next x.state (.workerRelease i), mq := initNode x.mq o }
      | _ => x
  | l => { x with state := next x.state l }

/-- The links represent the blocks queued, the oldest last. -/
def Holds (mq : QueueState (ListPtr Block)) (queued : List Block) : Prop :=
  mq.mq.list = .head ∧ Represents mq (queued.map ListPtr.node).reverse

/-! ## One lemma for each operation -/

omit [DecidableEq Block] in
theorem mem_nodes_iff : ListPtr.node obd ∈ ListPtr.head :: (queued.map ListPtr.node).reverse ↔
    obd ∈ queued := by
  simp

theorem Holds.initNode (holds : Holds mq queued) (outside : obd ∉ queued) :
    Holds (initNode mq obd) queued := by
  obtain ⟨head, rep⟩ := holds
  have kept : ∀ p ∈ mq.mq.list :: (queued.map ListPtr.node).reverse,
      listInit mq.heap (.node obd) p = mq.heap p := by
    intro p member
    apply listInit_other
    rintro rfl
    rw [head] at member
    exact outside (mem_nodes_iff.mp member)
  refine ⟨head, ?_, rep.size⟩
  exact rep.ring.congr (fun p member => congrArg ListNode.next (kept p member))
    fun p member => congrArg ListNode.prev (kept p member)

theorem Holds.put (holds : Holds mq queued) (outside : obd ∉ queued) :
    Holds (mqPut mq (.node obd)) (queued ++ [obd]) := by
  obtain ⟨head, rep⟩ := holds
  have fresh : ListPtr.node obd ∉ mq.mq.list :: (queued.map ListPtr.node).reverse := by
    rw [head]
    exact fun member => outside (mem_nodes_iff.mp member)
  refine ⟨head, ?_⟩
  rw [List.map_append, List.reverse_append]
  exact rep.put fresh

theorem Holds.headIsAlone_iff (holds : Holds mq queued) :
    headIsAlone mq = true ↔ queued = [] := by
  rw [holds.2.headIsAlone_iff, List.reverse_eq_nil_iff, List.map_eq_nil_iff]

theorem Holds.mqGet_fst (holds : Holds mq queued) :
    (mqGet mq).1 = queued.head?.map ListPtr.node := by
  rw [ObdServer.mqGet_fst holds.2, List.getLast?_reverse, List.head?_map]

theorem Holds.get (holds : Holds mq queued) : Holds (mqGet mq).2 queued.tail := by
  obtain ⟨head, rep⟩ := holds
  refine ⟨(mqGet_list mq).trans head, ?_⟩
  have rest := rep.get
  rwa [List.dropLast_reverse, ← List.map_tail] at rest

omit [DecidableEq Block] in
/-- What `obd_mq` holds can be read off along `prev`, oldest first. -/
theorem Holds.path (holds : Holds mq queued) :
    Path mq.heap.prev .head (queued.map ListPtr.node) .head := by
  obtain ⟨head, rep⟩ := holds
  have backward := rep.ring.backward
  rwa [List.reverse_reverse, head] at backward

/-! ## The simulation -/

theorem step_obdMq {s t : State Block} (step : Step s l t) (notPut : l ≠ .put)
    (notGet : l ≠ .get) : t.obdMq = s.obdMq := by
  cases step with
  | put => exact absurd rfl notPut
  | getNull | get => exact absurd rfl notGet
  | _ => rfl

/-- The block `OBD_init` gets is not queued. -/
theorem State.Owned.malloc_not_queued {s : State Block} (owned : s.Owned) {fresh : Block}
    (unknown : s.objPool = [] → fresh ∉ s.history.obtained) :
    (malloc s.objPool fresh).1 ∉ s.obdMq := by
  cases pool : s.objPool with
  | nil => exact fun queued => unknown pool (owned.obtained (p := .obdMq) queued)
  | cons first rest =>
      exact owned.apart (p := .objPool) (q := .obdMq) (by simp)
        (by simp [State.blocksAt, pool, malloc])

/-- The links and the list take every step alike. -/
theorem nextLinked_simulates (holds : Holds x.mq x.state.obdMq) (owned : x.state.Owned)
    (enabled : enabled x.state l) :
    (nextLinked x l).state = next x.state l ∧
      Holds (nextLinked x l).mq (nextLinked x l).state.obdMq := by
  have step := step_of_enabled enabled
  cases l with
  | readFuncCb fresh =>
      have kept := step_obdMq step (by simp) (by simp)
      refine ⟨rfl, ?_⟩
      simp only [nextLinked, kept]
      exact holds.initNode (owned.malloc_not_queued enabled.2)
  | release =>
      have kept := step_obdMq step (by simp) (by simp)
      obtain ⟨obd, -, releasing⟩ := enabled
      simp only [nextLinked, releasing, kept, true_and]
      exact holds.initNode (owned.callback_alone (p := .obdMq) (by rw [releasing]; rfl) (by simp))
  | put =>
      obtain ⟨⟨obd, -, acknowledged⟩, -⟩ := enabled
      have outside : obd ∉ x.state.obdMq :=
        owned.callback_alone (p := .obdMq) (by rw [acknowledged]; rfl) (by simp)
      simp only [nextLinked, next, acknowledged, true_and]
      exact (holds.initNode outside).put outside
  | isEmpty =>
      simp only [nextLinked, next, holds.headIsAlone_iff, true_and]
      exact holds
  | get =>
      have first := holds.mqGet_fst
      have rest := holds.get
      cases got : mqGet x.mq with
      | mk found mq =>
          rw [got] at first rest
          cases queue : x.state.obdMq with
          | nil =>
              simp only [queue, List.head?_nil, Option.map_none] at first
              subst first
              simp only [queue, List.tail_nil] at rest
              simp only [nextLinked, got, next, queue, true_and]
              exact rest
          | cons o behind =>
              simp only [queue, List.head?_cons, Option.map_some] at first
              subst first
              simp only [queue, List.tail_cons] at rest
              simp only [nextLinked, got, next, queue, List.tail_cons, true_and]
              exact rest
  | workerRelease i =>
      have kept := step_obdMq step (by simp) (by simp)
      obtain ⟨o, -, releasing⟩ := enabled
      simp only [nextLinked, releasing, kept, true_and]
      exact holds.initNode (owned.worker_alone (p := .obdMq) releasing rfl (by simp))
  | recv | sigint | leaveLoop | joinDrain | destroyThreadPool | joinWorkers | destroyObdPool
  | evalFlag | add | grab | decode | workerExit =>
      have kept := step_obdMq step (by simp) (by simp)
      refine ⟨rfl, ?_⟩
      simp only [nextLinked, kept]
      exact holds

end Pipeline

open Transition CircularList Pipeline

/-- The server on the linked list; `main` calls `mq_init` on `obd_mq`. -/
def linkedPipeline (Block : Type) [DecidableEq Block] :
    System (LinkedState Block) (Pipeline.Label Block) where
  init x := (pipeline Block).init x.state ∧ ∃ heap, x.mq = mqInit heap .head
  enabled x l := Pipeline.enabled x.state l
  next := nextLinked

instance {Block : Type} [DecidableEq Block] (x : LinkedState Block) (l : Pipeline.Label Block) :
    Decidable ((linkedPipeline Block).enabled x l) :=
  inferInstanceAs (Decidable (Pipeline.enabled x.state l))

/-- The states of a run without the links. -/
def Pipeline.states {Block : Type} (tr : List (LinkedState Block × Pipeline.Label Block)) :
    List (Pipeline.State Block × Pipeline.Label Block) :=
  tr.map fun p => (p.1.state, p.2)

variable {Block : Type} [DecidableEq Block] {x y : LinkedState Block}
  {tr : List (LinkedState Block × Pipeline.Label Block)}

/-- A run on the linked list is one of the pipeline. -/
theorem linkedPipeline_simulates (init : (linkedPipeline Block).init x)
    (run : Run (linkedPipeline Block) x tr y) :
    Run (pipeline Block) x.state (states tr) y.state ∧ Holds y.mq y.state.obdMq := by
  have start : Holds x.mq x.state.obdMq ∧ x.state.Owned := by
    obtain ⟨⟨mem, queue, queueSize, threadCount, initial⟩, heap, empty⟩ := init
    rw [initial, empty]
    exact ⟨⟨rfl, mqInit_represents heap .head⟩, .initial mem queue queueSize threadCount⟩
  have both := run.simulates (N := pipeline Block)
    (fun x => Holds x.mq x.state.obdMq ∧ x.state.Owned) LinkedState.state (fun _ _ taken => taken)
    ?_ start
  · exact ⟨both.1, both.2.1⟩
  · rintro x l ⟨holds, owned⟩ enabled
    obtain ⟨same, after⟩ := nextLinked_simulates holds owned enabled
    have owned' : (nextLinked x l).state.Owned := by
      rw [same]
      exact owned.step (step_of_enabled enabled)
    exact ⟨same, after, owned'⟩

/-- The messages taken by workers, then those in the task queue, the one the drain thread
    has and those linked in `obd_mq`, from oldest to newest, are the messages put without
    those whose `threadpool_add` failed. -/
theorem linkedPipeline_order (init : (linkedPipeline Block).init x)
    (run : Run (linkedPipeline Block) x tr y) :
    ∃ queued : List Block,
      Path y.mq.heap.prev .head (queued.map ListPtr.node) .head ∧
      takenMessages (states tr) ++
          (y.state.threadPool.tasks ++ y.state.drain.holds ++ queued).map
            y.state.history.message =
        (putMessages (states tr)).filter (· ∉ failedMessages (states tr)) := by
  obtain ⟨abstractRun, holds⟩ := linkedPipeline_simulates init run
  exact ⟨y.state.obdMq, holds.path, (ordered_of_run init.1 abstractRun).order⟩

/-- The state `main` starts serving from, with all nodes linked to themselves. -/
def Pipeline.linkedInitial : LinkedState Nat :=
  { state := mainInitial, mq := mqInit (fun p => ⟨p, p⟩) .head }

theorem linkedPipeline_order_nineMessages :
    ∃ queued : List Nat,
      Path (exec (linkedPipeline Nat) linkedInitial nineMessages).mq.heap.prev .head
        (queued.map ListPtr.node) .head ∧
      takenMessages (states (trace (linkedPipeline Nat) linkedInitial nineMessages)) ++
          ((exec (linkedPipeline Nat) linkedInitial nineMessages).state.threadPool.tasks ++
            (exec (linkedPipeline Nat) linkedInitial nineMessages).state.drain.holds ++
            queued).map
            (exec (linkedPipeline Nat) linkedInitial nineMessages).state.history.message =
        (putMessages (states (trace (linkedPipeline Nat) linkedInitial nineMessages))).filter
          (· ∉ failedMessages (states (trace (linkedPipeline Nat) linkedInitial nineMessages))) :=
  linkedPipeline_order ⟨⟨_, _, _, _, rfl⟩, _, rfl⟩ (.ofSchedule _ (by decide +kernel))

end ObdServer
