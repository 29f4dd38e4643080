import ObdServer.PipelineStores

/-! # What the single stores keep

A thread outside the mutex stores to the node of a block that it has, and such a store is
not felt by what the holder of the mutex is doing. Seen as the holder will leave it, the
list changes only with the reads that `mq_put` and `mq_get` begin with.
-/

namespace ObdServer.Pipeline

open Transition CircularList

/-! ## The stores of a function -/

section Stores

variable {Ptr : Type} {a : Store Ptr} {rest : List (Store Ptr)} {p r current list : Ptr}
  {q q' : QueueState Ptr}

/-- The node a store of its thread is about. -/
def Store.node : Store Ptr → Option Ptr
  | .initNext list | .initPrev list => some list
  | .currentNext current | .firstPrev current | .headNext current | .currentPrev current
  | .lastNext current | .headPrev current => some current
  | .sizeInc | .sizeDec | .unlock => none

/-- The code is what is left of `mq_put` or `mq_get`, the unlock included. -/
def Ends (current : Ptr) (code : List (Store Ptr)) : Prop :=
  code ≠ [] ∧ (code <:+ putStores current ∨ code <:+ getStores current)

theorem ends_putStores (current : Ptr) : Ends current (putStores current) :=
  ⟨by simp [putStores], .inl (List.suffix_refl _)⟩

theorem ends_getStores (current : Ptr) : Ends current (getStores current) :=
  ⟨by simp [getStores], .inr (List.suffix_refl _)⟩

theorem Ends.mem (ends : Ends current rest) (member : a ∈ rest) :
    a ∈ putStores current ++ getStores current := by
  rcases ends.2 with put | get
  · exact List.mem_append_left _ (put.subset member)
  · exact List.mem_append_right _ (get.subset member)

theorem Ends.node (ends : Ends current rest) (member : a ∈ rest) : ∀ p ∈ a.node, p = current := by
  have listed := ends.mem member
  simp only [putStores, getStores, List.cons_append, List.nil_append, List.mem_cons,
    List.not_mem_nil, or_false] at listed
  rcases listed with rfl | rfl | rfl | rfl | rfl | rfl | rfl | rfl | rfl | rfl | rfl | rfl <;>
    simp [Store.node]

/-- Only the unlock is the last statement. -/
theorem Ends.tail_iff (ends : Ends current (a :: rest)) : a = .unlock ↔ rest = [] := by
  rcases ends.2 with put | get
  · simp only [putStores, List.suffix_cons_iff, List.cons.injEq, List.suffix_nil,
      reduceCtorEq, or_false] at put
    rcases put with ⟨rfl, rfl⟩ | ⟨rfl, rfl⟩ | ⟨rfl, rfl⟩ | ⟨rfl, rfl⟩ | ⟨rfl, rfl⟩ | ⟨rfl, rfl⟩ <;>
      simp
  · simp only [getStores, List.suffix_cons_iff, List.cons.injEq, List.suffix_nil,
      reduceCtorEq, or_false] at get
    rcases get with ⟨rfl, rfl⟩ | ⟨rfl, rfl⟩ | ⟨rfl, rfl⟩ | ⟨rfl, rfl⟩ | ⟨rfl, rfl⟩ | ⟨rfl, rfl⟩ <;>
      simp

theorem Ends.tail (ends : Ends current (a :: rest)) (more : a ≠ .unlock) : Ends current rest :=
  ⟨fun empty => more (ends.tail_iff.mpr empty),
    ends.2.imp (List.suffix_cons a rest).trans (List.suffix_cons a rest).trans⟩

/-- `list_add_front` has just stored the first link when it comes to the second. -/
theorem Ends.before_firstPrev (ends : Ends current (a :: .firstPrev list :: rest)) :
    a = .currentNext list := by
  rcases ends.2 with put | get
  · simp only [putStores, List.suffix_cons_iff, List.cons.injEq, List.suffix_nil, reduceCtorEq,
      Store.firstPrev.injEq, false_and, and_false, or_false] at put
    rw [put.1, put.2.1]
  · simp [getStores, List.suffix_cons_iff] at get

variable [DecidableEq Ptr]

theorem foldl_putStores (q : QueueState Ptr) (current : Ptr) :
    (putStores current).foldl execStore q = mqPut q current := rfl

theorem foldl_getStores (some : headIsAlone q = false) :
    (getStores (q.heap.prev q.mq.list)).foldl execStore q = (mqGet q).2 := by
  have other : q.heap.prev q.mq.list ≠ q.mq.list := by simpa [headIsAlone] using some
  simp only [mqGet, listDelBack, if_neg other]
  rfl

/-- The queues differ in the node `p` at most. -/
structure Besides (p : Ptr) (q q' : QueueState Ptr) : Prop where
  mq : q'.mq = q.mq
  heap : ∀ r ≠ p, q'.heap r = q.heap r

theorem setNext_agree {heap heap' : NodeHeap Ptr} (same : heap' r = heap r) (x v : Ptr) :
    heap'.setNext x v r = heap.setNext x v r := by
  by_cases here : r = x
  · subst here
    simp [NodeHeap.setNext, same]
  · rw [NodeHeap.setNext_other _ here, NodeHeap.setNext_other _ here, same]

theorem setPrev_agree {heap heap' : NodeHeap Ptr} (same : heap' r = heap r) (x v : Ptr) :
    heap'.setPrev x v r = heap.setPrev x v r := by
  by_cases here : r = x
  · subst here
    simp [NodeHeap.setPrev, same]
  · rw [NodeHeap.setPrev_other _ here, NodeHeap.setPrev_other _ here, same]

/-- A store that is not about the node, nor reads it as the head, keeps the rest alike. -/
theorem Besides.exec (besides : Besides p q q') (head : q.mq.list ≠ p)
    (other : ∀ current ∈ a.node, current ≠ p) : Besides p (execStore q a) (execStore q' a) := by
  obtain ⟨mq, heap⟩ := besides
  have first : q'.heap.next q.mq.list = q.heap.next q.mq.list :=
    congrArg ListNode.next (heap _ head)
  have before : ∀ {current}, current ≠ p → q'.heap.prev current = q.heap.prev current :=
    fun other => congrArg ListNode.prev (heap _ other)
  cases a with
  | initNext | currentNext | headNext =>
      refine ⟨mq, fun r elsewhere => ?_⟩
      simp only [execStore, mq, first]
      exact setNext_agree (heap r elsewhere) _ _
  | initPrev | firstPrev | currentPrev =>
      refine ⟨mq, fun r elsewhere => ?_⟩
      simp only [execStore, mq, first]
      exact setPrev_agree (heap r elsewhere) _ _
  | lastNext current =>
      refine ⟨mq, fun r elsewhere => ?_⟩
      simp only [execStore, mq, before (other current rfl)]
      exact setNext_agree (heap r elsewhere) _ _
  | headPrev current =>
      refine ⟨mq, fun r elsewhere => ?_⟩
      simp only [execStore, mq, before (other current rfl)]
      exact setPrev_agree (heap r elsewhere) _ _
  | sizeInc | sizeDec => exact ⟨by simp only [execStore, mq], heap⟩
  | unlock => exact ⟨mq, heap⟩

theorem execStore_list (q : QueueState Ptr) (a : Store Ptr) :
    (execStore q a).mq.list = q.mq.list := by
  cases a <;> rfl

theorem foldl_execStore_list (code : List (Store Ptr)) (q : QueueState Ptr) :
    (code.foldl execStore q).mq.list = q.mq.list := by
  induction code generalizing q with
  | nil => rfl
  | cons a rest ih => exact (ih _).trans (execStore_list q a)

theorem Besides.foldl (besides : Besides p q q') (head : q.mq.list ≠ p)
    (other : ∀ a ∈ rest, ∀ current ∈ a.node, current ≠ p) :
    Besides p (rest.foldl execStore q) (rest.foldl execStore q') := by
  induction rest generalizing q q' with
  | nil => exact besides
  | cons a rest ih =>
      rw [List.forall_mem_cons] at other
      refine ih (besides.exec head other.1) ?_ other.2
      rw [execStore_list]
      exact head

/-- A store of `list_init` to another node. -/
theorem besides_initStores (member : a ∈ initStores p) : Besides p q (execStore q a) := by
  simp only [initStores, List.mem_cons, List.not_mem_nil, or_false] at member
  rcases member with rfl | rfl
  · exact ⟨rfl, fun r other => NodeHeap.setNext_other _ other⟩
  · exact ⟨rfl, fun r other => NodeHeap.setPrev_other _ other⟩

end Stores

variable {Block : Type} [DecidableEq Block]

omit [DecidableEq Block] in
/-- The node of a block that is not queued does not matter to the list. -/
theorem Holds.besides {q q' : QueueState (ListPtr Block)} {queued : List Block} {obd : Block}
    (holds : Holds q queued) (besides : Besides (.node obd) q q') (outside : obd ∉ queued) :
    Holds q' queued := by
  obtain ⟨head, rep⟩ := holds
  have kept : ∀ p ∈ q.mq.list :: (queued.map ListPtr.node).reverse, q'.heap p = q.heap p := by
    intro p member
    apply besides.heap
    rintro rfl
    rw [head] at member
    exact outside (mem_nodes_iff.mp member)
  refine ⟨by rw [besides.mq, head], ?_, by rw [besides.mq]; exact rep.size⟩
  rw [besides.mq]
  exact rep.ring.congr (fun p member => congrArg ListNode.next (kept p member))
    fun p member => congrArg ListNode.prev (kept p member)

omit [DecidableEq Block] in
/-- The last node is that of the oldest block. -/
theorem Holds.prev_head {q : QueueState (ListPtr Block)} {o : Block} {rest : List Block}
    (holds : Holds q (o :: rest)) : q.heap.prev q.mq.list = .node o := by
  rw [holds.1]
  exact holds.path.1

/-! ## Steps of one thread leave the others alone -/

variable {s s' : State Block} {l : Label Block} {t : Thread}

theorem blocksAt_other (step : Step s l s') (other : l.thread ≠ some t) :
    s'.blocksAt t.place = s.blocksAt t.place := by
  cases t with
  | main => cases step <;> first | rfl | exact absurd rfl other
  | drain => cases step <;> first | rfl | exact absurd rfl other
  | worker i =>
      have kept : ∀ {j : Nat} (pc : WorkerPc Block), j ≠ i →
          ((s.workers.set j pc)[i]?).elim [] WorkerPc.holds = s.workerHolds i := by
        intro j pc apart
        rw [List.getElem?_set_ne apart]
        rfl
      cases step with
      | grab | decode | workerRelease | workerExit =>
          exact kept _ fun same => other (by rw [same]; rfl)
      | _ => rfl

theorem others_keep (step : Step s l s') (turn : l.thread = some t) (t' : Thread)
    (other : t' ≠ t) : s'.blocksAt t'.place = s.blocksAt t'.place :=
  blocksAt_other step fun same => other (Option.some.inj (same.symm.trans turn))

theorem atLock_other (step : Step s l s') (other : l.thread ≠ some t) :
    AtLock s' t ↔ AtLock s t := by
  cases t with
  | main => cases step <;> first | exact Iff.rfl | exact absurd rfl other
  | drain => cases step <;> first | exact Iff.rfl | exact absurd rfl other
  | worker i => exact Iff.rfl

omit [DecidableEq Block] in
theorem atLock_body (enabled : enabled s l) (turn : l.thread = some t) (atLock : AtLock s t) :
    l.body = true := by
  cases l with
  | put | isEmpty | get => rfl
  | readFuncCb | leaveLoop | joinDrain | joinWorkers =>
      obtain rfl := Option.some.inj turn
      obtain ⟨obd, -, acknowledged⟩ := atLock
      cases acknowledged.symm.trans enabled.1
  | destroyThreadPool | destroyObdPool =>
      obtain rfl := Option.some.inj turn
      obtain ⟨obd, -, acknowledged⟩ := atLock
      cases acknowledged.symm.trans enabled
  | recv event =>
      obtain rfl := Option.some.inj turn
      obtain ⟨obd, -, acknowledged⟩ := atLock
      obtain ⟨⟨obd', -, initialised⟩, -⟩ := enabled
      cases acknowledged.symm.trans initialised
  | release =>
      obtain rfl := Option.some.inj turn
      obtain ⟨obd, -, acknowledged⟩ := atLock
      obtain ⟨obd', -, releasing⟩ := enabled
      cases acknowledged.symm.trans releasing
  | evalFlag =>
      obtain rfl := Option.some.inj turn
      have condition : s.drain = .condition := enabled
      rcases atLock with testing | before
      · cases condition.symm.trans testing
      · cases condition.symm.trans before
  | add =>
      obtain rfl := Option.some.inj turn
      obtain ⟨o, -, adding⟩ := enabled
      rcases atLock with testing | before
      · cases adding.symm.trans testing
      · cases adding.symm.trans before
  | sigint => cases turn
  | grab | decode | workerRelease | workerExit =>
      obtain rfl := Option.some.inj turn
      exact atLock.elim

theorem step_mqHeld (step : Step s l s') (notIsEmpty : l ≠ .isEmpty) : s'.mqHeld = s.mqHeld := by
  cases step with
  | isEmptyTrue | isEmptyFalse => exact absurd rfl notIsEmpty
  | _ => rfl

/-! ## The invariant -/

variable {x : StoreState Block} {obd : Block} {a : Store (ListPtr Block)}

structure Sound (x : StoreState Block) : Prop where
  owned : x.state.Owned
  links : Holds x.settled x.state.obdMq
  outside : ∀ t, x.mqMutex ≠ .held t → ∀ a ∈ x.code t,
    ∃ obd ∈ x.state.blocksAt t.place, a ∈ initStores (.node obd)
  inside : ∀ t, x.mqMutex = .held t → x.state.mqHeld = false → ∃ current,
    Ends current (x.code t) ∧ (x.code t = [.unlock] ∨
      ∃ obd ∈ x.state.obdMq ++ x.state.blocksAt t.place, current = .node obd)
  held : x.state.mqHeld = true → x.mqMutex = .held .drain ∧ x.code .drain = []
  taken : ∀ t, x.mqMutex = .taken t → AtLock x.state t
  linked : ∀ t current rest, x.code t = .firstPrev current :: rest →
    x.mq.heap.next current = x.mq.heap.next x.mq.mq.list

omit [DecidableEq Block] in
theorem taken_of_body (may : storeEnabled x (.step l)) (body : l.body = true)
    (turn : l.thread = some t) : x.mqMutex = .taken t := by
  obtain ⟨t', turn', taken⟩ := may.2.2 body
  obtain rfl := Option.some.inj (turn.symm.trans turn')
  exact taken

namespace Sound

/-- A thread that holds the mutex is executing its stores, if it is not the drain thread that
    has got it for good. -/
theorem busy (sound : Sound x) (mine : x.mqMutex = .held t) (idle : x.code t = []) :
    t = .drain ∧ x.state.mqHeld = true := by
  cases kept : x.state.mqHeld with
  | true =>
      have drain := (sound.held kept).1
      rw [mine, MqMutex.held.injEq] at drain
      exact ⟨drain, rfl⟩
  | false =>
      obtain ⟨current, ends, -⟩ := sound.inside t mine kept
      exact absurd idle ends.1

theorem notHeld (sound : Sound x) (mine : x.mqMutex = .held t) (more : x.code t ≠ []) :
    x.state.mqHeld = false := by
  cases kept : x.state.mqHeld with
  | false => rfl
  | true =>
      obtain ⟨drain, idle⟩ := sound.held kept
      rw [mine, MqMutex.held.injEq] at drain
      subst drain
      exact absurd idle more

/-- What the pipeline asks of `mqHeld`, the mutex answers. -/
theorem enabled (sound : Sound x) (may : storeEnabled x (.step l)) :
    Pipeline.enabled x.state l := by
  obtain ⟨-, enabled, taken⟩ := may
  have free : l.body = true → x.state.mqHeld = false := by
    intro body
    obtain ⟨t, -, taken⟩ := taken body
    cases kept : x.state.mqHeld with
    | false => rfl
    | true => cases taken.symm.trans (sound.held kept).1
  cases l with
  | put | isEmpty | get => exact ⟨enabled.1, free rfl⟩
  | _ => exact enabled

/-- What the holder of the mutex is about, no other thread has. -/
theorem node_ne (sound : Sound x) {t' : Thread} (mine : x.mqMutex = .held t') (other : t ≠ t')
    (has : obd ∈ x.state.blocksAt t.place) : ∀ a ∈ x.code t', ∀ current ∈ a.node,
      current ≠ .node obd := by
  intro a member current about same
  have more : x.code t' ≠ [] := List.ne_nil_of_mem member
  obtain ⟨current', ends, unlocks | ⟨obd', has', here⟩⟩ :=
    sound.inside t' mine (sound.notHeld mine more)
  · rw [unlocks, List.mem_singleton] at member
    subst member
    cases about
  · have node := (ends.node member current about).symm.trans same
    rw [here, ListPtr.node.injEq] at node
    subst node
    have places : t.place ≠ t'.place := fun same => other (Thread.place_injective same)
    rcases List.mem_append.mp has' with queued | there
    · exact sound.owned.apart (q := .obdMq) t.place_ne has queued
    · exact sound.owned.apart places has there

/-- A thread is given the stores of `list_init` for a block that it has. -/
theorem begin_init (sound : Sound x) (idle : x.mqMutex ≠ .held t)
    (has : obd ∈ x.state.blocksAt t.place) : Sound (x.begin t (initStores (.node obd))) where
  owned := sound.owned
  links := by
    have same : (x.begin t (initStores (.node obd))).settled = x.settled := by
      simp only [StoreState.settled, StoreState.begin]
      cases mutex : x.mqMutex with
      | free | taken => rfl
      | held t' =>
          have other : t' ≠ t := fun same => idle (by rw [mutex, same])
          simp only [Function.update_of_ne other]
    rw [same]
    exact sound.links
  outside t' notHeld a member := by
    by_cases same : t' = t
    · subst same
      exact ⟨obd, has, by simpa [StoreState.begin] using member⟩
    · exact sound.outside t' notHeld a (by simpa [StoreState.begin, same] using member)
  inside t' mine kept := by
    have other : t' ≠ t := fun same => idle (same ▸ mine)
    simpa [StoreState.begin, other] using sound.inside t' mine kept
  held kept := by
    obtain ⟨drain, code⟩ := sound.held kept
    have other : Thread.drain ≠ t := fun same => idle (same ▸ drain)
    exact ⟨drain, by simpa [StoreState.begin, other] using code⟩
  taken := sound.taken
  linked t' current rest code := by
    by_cases same : t' = t
    · subst same
      simp [StoreState.begin, initStores] at code
    · exact sound.linked t' current rest (by simpa [StoreState.begin, same] using code)

/-- A step of the pipeline that is no body of a queue function. -/
theorem plain (sound : Sound x) (enabled : Pipeline.enabled x.state l)
    (idle : ∀ t ∈ l.thread, x.code t = []) (notBody : l.body = false) :
    Sound { x with state := next x.state l } := by
  have step := step_of_enabled enabled
  have obdMq : (next x.state l).obdMq = x.state.obdMq :=
    step_obdMq step (fun same => by simp [same, Label.body] at notBody)
      fun same => by simp [same, Label.body] at notBody
  have mqHeld : (next x.state l).mqHeld = x.state.mqHeld :=
    step_mqHeld step fun same => by simp [same, Label.body] at notBody
  have busy : ∀ {t}, x.code t ≠ [] → l.thread ≠ some t := fun more turn => more (idle _ turn)
  constructor
  · exact sound.owned.step step
  · rw [obdMq]
    exact sound.links
  · intro t notHeld a member
    rw [blocksAt_other step (busy (List.ne_nil_of_mem member))]
    exact sound.outside t notHeld a member
  · intro t mine kept
    rw [mqHeld] at kept
    obtain ⟨current, ends, about⟩ := sound.inside t mine kept
    refine ⟨current, ends, ?_⟩
    rwa [obdMq, blocksAt_other step (busy ends.1)]
  · intro kept
    rw [mqHeld] at kept
    exact sound.held kept
  · intro t taken
    have atLock := sound.taken t taken
    refine (atLock_other step fun turn => ?_).mpr atLock
    rw [atLock_body enabled turn atLock] at notBody
    cases notBody
  · exact sound.linked

/-- The body of a queue function begins with the list as it is. -/
theorem holds_taken (sound : Sound x) (taken : x.mqMutex = .taken t) :
    Holds x.mq x.state.obdMq := by
  have links := sound.links
  simpa only [StoreState.settled, taken] using links

theorem head (sound : Sound x) : x.mq.mq.list = .head := by
  have links := sound.links.1
  simp only [StoreState.settled] at links
  split at links
  · rwa [foldl_execStore_list] at links
  · exact links
  · exact links

/-- With the mutex just taken, all stores there are go to blocks of their own threads. -/
theorem taken_outside (sound : Sound x) (taken : x.mqMutex = .taken t) (t' : Thread) :
    ∀ a ∈ x.code t', ∃ obd ∈ x.state.blocksAt t'.place, a ∈ initStores (.node obd) :=
  sound.outside t' (by simp [taken])

theorem notLinked (sound : Sound x) (notHeld : x.mqMutex ≠ .held t) {current : ListPtr Block}
    {rest : List (Store (ListPtr Block))} : x.code t ≠ .firstPrev current :: rest := by
  intro code
  obtain ⟨obd, -, init⟩ := sound.outside t notHeld (.firstPrev current) (by simp [code])
  simp [initStores] at init

/-- The holder of the mutex has executed the reads of its function and goes on with `code`. -/
theorem enter (sound : Sound x) (taken : x.mqMutex = .taken t) {s : State Block}
    {code : List (Store (ListPtr Block))} {current : ListPtr Block} (owned : s.Owned)
    (kept : s.mqHeld = x.state.mqHeld)
    (others : ∀ t', t' ≠ t → s.blocksAt t'.place = x.state.blocksAt t'.place)
    (links : Holds (code.foldl execStore x.mq) s.obdMq) (ends : Ends current code)
    (about : code = [.unlock] ∨ ∃ obd ∈ s.obdMq ++ s.blocksAt t.place, current = .node obd)
    (first : ∀ list rest, code ≠ .firstPrev list :: rest) :
    Sound ({ x with state := s, mqMutex := .held t }.begin t code) where
  owned := owned
  links := by simpa [StoreState.settled, StoreState.begin] using links
  outside t' notHeld a member := by
    have other : t' ≠ t := fun same => notHeld (by rw [same]; rfl)
    show ∃ obd ∈ s.blocksAt t'.place, _
    rw [others t' other]
    exact sound.taken_outside taken t' a (by simpa [StoreState.begin, other] using member)
  inside t' mine _ := by
    obtain rfl : t = t' := by simpa [StoreState.begin] using mine
    exact ⟨current, by simpa [StoreState.begin] using ends,
      by simpa [StoreState.begin] using about⟩
  held held := by
    have mqHeld : x.state.mqHeld = true := kept.symm.trans held
    cases taken.symm.trans (sound.held mqHeld).1
  taken t' impossible := by cases impossible
  linked t' list rest here := by
    by_cases same : t' = t
    · subst same
      exact absurd (by simpa [StoreState.begin] using here) (first list rest)
    · exact absurd (by simpa [StoreState.begin, same] using here)
        (sound.notLinked (t := t') (by simp [taken]))

end Sound

/-- A step of the pipeline does to its state what it does there. -/
theorem beginStep_state (sound : Sound x) (may : storeEnabled x (.step l)) :
    (beginStep x l).state = next x.state l := by
  cases l with
  | put =>
      obtain ⟨⟨obd, -, acknowledged⟩, -⟩ := sound.enabled may
      simp only [beginStep, acknowledged, StoreState.begin]
  | recv event =>
      obtain ⟨⟨obd, -, initialised⟩, -⟩ := sound.enabled may
      simp only [beginStep, initialised, StoreState.begin]
  | decode i fuel =>
      obtain ⟨o, -, decoding, -⟩ := sound.enabled may
      simp only [beginStep, decoding, StoreState.begin]
  | isEmpty =>
      have holds := sound.holds_taken (taken_of_body may rfl rfl)
      simp only [beginStep, next, holds.headIsAlone_iff]
  | get =>
      have holds := sound.holds_taken (taken_of_body may rfl rfl)
      have result := holds.mqGet_fst
      simp only [beginStep]
      cases queue : x.state.obdMq with
      | nil =>
          have alone := holds.headIsAlone_iff.mpr queue
          simp only [if_pos alone, next, queue, StoreState.begin]
      | cons o rest =>
          have some : ¬ headIsAlone x.mq = true := by simp [holds.headIsAlone_iff, queue]
          rw [queue] at holds
          simp only [if_neg some, holds.prev_head, next, queue, List.tail_cons, StoreState.begin]
  | _ => rfl

namespace Sound

/-- `mq_put` takes effect: the block is queued once the stores are executed. -/
theorem put (sound : Sound x) (may : storeEnabled x (.step .put)) :
    Sound (beginStep x .put) := by
  have enabled := sound.enabled may
  have step := step_of_enabled enabled
  have taken : x.mqMutex = .taken .main := taken_of_body may rfl rfl
  obtain ⟨⟨obd, -, acknowledged⟩, -⟩ := enabled
  have outside : obd ∉ x.state.obdMq :=
    sound.owned.callback_alone (p := .obdMq) (by rw [acknowledged]; rfl) (by simp)
  have queue : (next x.state .put).obdMq = x.state.obdMq ++ [obd] := by
    simp only [next, acknowledged]
  simp only [beginStep, acknowledged]
  refine sound.enter taken (sound.owned.step step) (step_mqHeld step (by simp))
    (others_keep step rfl) ?_ (ends_putStores _) (.inr ⟨obd, by simp [queue], rfl⟩)
    (by simp [putStores])
  rw [foldl_putStores, queue]
  exact (sound.holds_taken taken).put outside

/-- So does `mq_get`, and what it returns is the oldest block. -/
theorem get (sound : Sound x) (may : storeEnabled x (.step .get)) :
    Sound (beginStep x .get) := by
  have step := step_of_enabled (sound.enabled may)
  have same := beginStep_state sound may
  have owned := sound.owned.step step
  have kept := step_mqHeld step (by simp)
  have others := others_keep step rfl
  have taken : x.mqMutex = .taken .drain := taken_of_body may rfl rfl
  have holds := sound.holds_taken taken
  simp only [beginStep] at same ⊢
  by_cases alone : headIsAlone x.mq = true
  · simp only [if_pos alone, StoreState.begin] at same ⊢
    rw [← same] at owned kept others
    have ends : Ends (ListPtr.head : ListPtr Block) [.unlock] :=
      ⟨by simp, .inl (by simp [putStores, List.suffix_cons_iff])⟩
    exact sound.enter taken owned kept others holds ends (.inl rfl) (by simp)
  · obtain ⟨o, rest, queue⟩ := List.exists_cons_of_ne_nil (holds.headIsAlone_iff.not.mp alone)
    have last := (queue ▸ holds).prev_head
    simp only [if_neg alone, last, StoreState.begin] at same ⊢
    rw [← same] at owned kept others
    refine sound.enter taken owned kept others ?_ (ends_getStores _) (.inr ⟨o, ?_, rfl⟩)
      (by simp [getStores])
    · rw [← last, foldl_getStores (by simpa using alone)]
      exact holds.get
    · exact List.mem_append_right _ (List.mem_singleton.mpr rfl)

/-- `mq_is_empty` returns, and keeps the mutex. -/
theorem isEmpty (sound : Sound x) (may : storeEnabled x (.step .isEmpty)) :
    Sound (beginStep x .isEmpty) := by
  have step := step_of_enabled (sound.enabled may)
  have same := beginStep_state sound may
  have owned := sound.owned.step step
  have others := others_keep step rfl
  have taken : x.mqMutex = .taken .drain := taken_of_body may rfl rfl
  have code : x.code .drain = [] := may.1 _ rfl
  rw [← same] at owned others
  constructor
  · exact owned
  · have settled : (beginStep x .isEmpty).settled = x.mq := by
      simp [StoreState.settled, beginStep, code]
    rw [settled]
    exact sound.holds_taken taken
  · intro t notHeld a member
    have other : t ≠ .drain := fun here => notHeld (by rw [here]; rfl)
    rw [others t other]
    exact sound.taken_outside taken t a member
  · intro t _ kept
    cases kept
  · exact fun _ => ⟨rfl, code⟩
  · intro t impossible
    cases impossible
  · exact sound.linked

theorem lock (sound : Sound x) (may : storeEnabled x (.lock t)) :
    Sound (nextStore x (.lock t)) := by
  obtain ⟨atLock, idle, free⟩ := may
  constructor
  · exact sound.owned
  · have links := sound.links
    simp only [StoreState.settled, free] at links
    exact links
  · exact fun t' _ => sound.outside t' (by simp [free])
  · intro t' impossible
    cases impossible
  · intro kept
    cases free.symm.trans (sound.held kept).1
  · intro t' taken
    obtain rfl := MqMutex.taken.inj taken
    exact atLock
  · exact sound.linked

/-- A store of a thread that does not hold the mutex. -/
theorem store_outside (sound : Sound x) {rest : List (Store (ListPtr Block))}
    (code : x.code t = a :: rest) (notHeld : x.mqMutex ≠ .held t) :
    Sound (nextStore x (.store t)) := by
  obtain ⟨obd, has, init⟩ := sound.outside t notHeld a (by simp [code])
  have goesOn : a ≠ .unlock := by
    rintro rfl
    simp [initStores] at init
  have besides : Besides (.node obd) x.mq (execStore x.mq a) := besides_initStores init
  have outside : obd ∉ x.state.obdMq :=
    sound.owned.apart (q := .obdMq) t.place_ne has
  have shape : nextStore x (.store t) = { x with mq := execStore x.mq a }.begin t rest := by
    simp only [nextStore, code, if_neg goesOn, StoreState.begin]
  rw [shape]
  constructor
  · exact sound.owned
  · have settled : Besides (.node obd) x.settled
        ({ x with mq := execStore x.mq a }.begin t rest).settled := by
      simp only [StoreState.settled, StoreState.begin]
      cases mutex : x.mqMutex with
      | free | taken => exact besides
      | held t' =>
          have other : t' ≠ t := fun same => notHeld (by rw [mutex, same])
          simp only [Function.update_of_ne other]
          exact besides.foldl (by simp [sound.head]) (sound.node_ne mutex other.symm has)
    exact sound.links.besides settled outside
  · intro t' notHeld' b member
    by_cases same : t' = t
    · subst same
      refine sound.outside t' notHeld' b ?_
      rw [code]
      exact List.mem_cons_of_mem a (by simpa [StoreState.begin] using member)
    · exact sound.outside t' notHeld' b (by simpa [StoreState.begin, same] using member)
  · intro t' mine kept
    have other : t' ≠ t := fun same => notHeld (same ▸ mine)
    simpa [StoreState.begin, other] using sound.inside t' mine kept
  · intro kept
    obtain ⟨drain, idle⟩ := sound.held kept
    have other : Thread.drain ≠ t := fun same => by simp [same, code] at idle
    exact ⟨drain, by simpa [StoreState.begin, other] using idle⟩
  · exact sound.taken
  · intro t' current rest' here
    by_cases same : t' = t
    · subst same
      obtain rfl : rest = .firstPrev current :: rest' := by simpa [StoreState.begin] using here
      obtain ⟨obd', -, init'⟩ := sound.outside t' notHeld (.firstPrev current) (by simp [code])
      simp [initStores] at init'
    · have there : x.code t' = .firstPrev current :: rest' := by
        simpa [StoreState.begin, same] using here
      have mine : x.mqMutex = .held t' := by
        by_contra notMine
        exact sound.notLinked notMine there
      have about := sound.node_ne mine (Ne.symm same) has (.firstPrev current) (by simp [there])
        current rfl
      have first := congrArg ListNode.next (besides.heap current about)
      have second := congrArg ListNode.next (besides.heap x.mq.mq.list (by simp [sound.head]))
      show (execStore x.mq a).heap.next current = (execStore x.mq a).heap.next
        (execStore x.mq a).mq.list
      rw [besides.mq]
      exact first.trans ((sound.linked t' current rest' there).trans second.symm)

/-- A store of the thread that holds the mutex: what it leaves behind in the end stays. -/
theorem store_inside (sound : Sound x) {rest : List (Store (ListPtr Block))}
    (code : x.code t = a :: rest) (mine : x.mqMutex = .held t) :
    Sound (nextStore x (.store t)) := by
  have kept := sound.notHeld mine (by simp [code])
  obtain ⟨current, ends, about⟩ := sound.inside t mine kept
  rw [code] at ends about
  have notHeld : ∀ t', t' ≠ t → x.mqMutex ≠ .held t' := by
    intro t' other same
    rw [mine, MqMutex.held.injEq] at same
    exact other same.symm
  have links := sound.links
  simp only [StoreState.settled, mine, code] at links
  by_cases unlocks : a = .unlock
  · obtain rfl := ends.tail_iff.mp unlocks
    subst unlocks
    have shape : nextStore x (.store t) = { x with mqMutex := .free }.begin t [] := by
      simp only [nextStore, code, if_true, execStore, StoreState.begin]
    rw [shape]
    constructor
    · exact sound.owned
    · exact links
    · intro t' _ b member
      by_cases same : t' = t
      · subst same
        simp [StoreState.begin] at member
      · exact sound.outside t' (notHeld t' same) b (by simpa [StoreState.begin, same] using member)
    · intro t' impossible
      cases impossible
    · intro held
      cases kept.symm.trans held
    · intro t' impossible
      cases impossible
    · intro t' list rest' here
      by_cases same : t' = t
      · subst same
        simp [StoreState.begin] at here
      · exact absurd (by simpa [StoreState.begin, same] using here)
          (sound.notLinked (notHeld t' same))
  · obtain ⟨obd, has, rfl⟩ := about.resolve_left (by simp [unlocks])
    have shape : nextStore x (.store t) = { x with mq := execStore x.mq a }.begin t rest := by
      simp only [nextStore, code, if_neg unlocks, StoreState.begin]
    rw [shape]
    constructor
    · exact sound.owned
    · simp only [StoreState.settled, StoreState.begin, mine, Function.update_self]
      exact links
    · intro t' notMine b member
      have other : t' ≠ t := fun same => notMine (by rw [same]; exact mine)
      exact sound.outside t' notMine b (by simpa [StoreState.begin, other] using member)
    · intro t' held _
      obtain rfl : t = t' := MqMutex.held.inj (mine.symm.trans held)
      refine ⟨.node obd, ?_, .inr ⟨obd, has, rfl⟩⟩
      simpa [StoreState.begin] using ends.tail unlocks
    · intro held
      cases kept.symm.trans held
    · intro t' taken
      cases mine.symm.trans taken
    · intro t' list rest' here
      by_cases same : t' = t
      · subst same
        obtain rfl : rest = .firstPrev list :: rest' := by simpa [StoreState.begin] using here
        obtain rfl := ends.before_firstPrev
        obtain rfl := ends.node List.mem_cons_self list rfl
        have other : x.mq.mq.list ≠ .node obd := by simp [sound.head]
        simp [StoreState.begin, execStore, other]
      · exact absurd (by simpa [StoreState.begin, same] using here)
          (sound.notLinked (notHeld t' same))

theorem step {l : StoreLabel Block} (sound : Sound x) (may : storeEnabled x l) :
    Sound (nextStore x l) := by
  cases l with
  | lock t => exact sound.lock may
  | store t =>
      obtain ⟨a, rest, code⟩ := List.exists_cons_of_ne_nil may
      by_cases mine : x.mqMutex = .held t
      · exact sound.store_inside code mine
      · exact sound.store_outside code mine
  | step l =>
      have enabled := sound.enabled may
      -- a thread other than the drain thread does not hold the mutex between its steps
      have notHeld : ∀ {t}, l.thread = some t → t ≠ .drain → x.mqMutex ≠ .held t :=
        fun turn other mine => other (sound.busy mine (may.1 _ turn)).1
      cases l with
      | put => exact sound.put may
      | get => exact sound.get may
      | isEmpty => exact sound.isEmpty may
      | readFuncCb fresh =>
          refine (sound.plain enabled may.1 rfl).begin_init (notHeld rfl (by simp)) ?_
          exact List.mem_singleton.mpr rfl
      | recv event =>
          have plain := sound.plain enabled may.1 rfl
          obtain ⟨⟨obd, -, initialised⟩, -⟩ := enabled
          simp only [nextStore, beginStep, initialised]
          refine plain.begin_init (notHeld rfl (by simp)) ?_
          simp only [next, initialised]
          cases event with
          | evError | recvError | closed => exact List.mem_singleton.mpr rfl
          | data bytes =>
              simp only [State.afterRecv]
              split_ifs <;> exact List.mem_singleton.mpr rfl
      | decode i fuel =>
          have plain := sound.plain enabled may.1 rfl
          obtain ⟨o, -, decoding, -⟩ := enabled
          simp only [nextStore, beginStep, decoding]
          refine plain.begin_init (notHeld rfl (by simp)) ?_
          have found : i < x.state.workers.length := (List.getElem?_eq_some_iff.mp decoding).1
          show o ∈ (next x.state (.decode i fuel)).workerHolds i
          simp only [next, decoding]
          simp [State.workerHolds, State.setWorker, found, WorkerPc.holds]
      | _ => exact sound.plain enabled may.1 rfl

end Sound

theorem sound_initial {heap : NodeHeap (ListPtr Block)} (init : (pipeline Block).init x.state)
    (mq : x.mq = mqInit heap .head) (free : x.mqMutex = .free) (idle : ∀ t, x.code t = []) :
    Sound x := by
  obtain ⟨mem, queue, queueSize, threadCount, initial⟩ := init
  constructor
  · rw [initial]
    exact .initial mem queue queueSize threadCount
  · simp only [StoreState.settled, free, mq, initial]
    exact ⟨rfl, mqInit_represents heap .head⟩
  · simp [idle]
  · simp [free]
  · simp [initial, State.initial]
  · simp [free]
  · simp [idle]

end ObdServer.Pipeline
