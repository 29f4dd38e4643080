import ObdServer.PipelineStoreRuns

/-! # Who touches the links of the queue

What a step of the pipeline in single stores reads and writes of the memory that the event
loop, the drain thread and the workers share: `mq_flag` and the links and the size of
`obd_mq`. `Malloc` and `Free` being single steps, two threads only ever race for `mq_flag`.
-/

namespace ObdServer

namespace Pipeline

open Transition CircularList

variable {Block : Type}

inductive Loc (Block : Type) where
  | next (p : ListPtr Block)
  | prev (p : ListPtr Block)
  | size
  | mqFlag
  deriving DecidableEq

def Store.writes (q : QueueState (ListPtr Block)) : Store (ListPtr Block) → List (Loc Block)
  | .initNext p | .currentNext p => [.next p]
  | .initPrev p | .currentPrev p => [.prev p]
  | .firstPrev _ => [.prev (q.heap.next q.mq.list)]
  | .headNext _ => [.next q.mq.list]
  | .lastNext current => [.next (q.heap.prev current)]
  | .headPrev _ => [.prev q.mq.list]
  | .sizeInc | .sizeDec => [.size]
  | .unlock => []

def Store.reads (q : QueueState (ListPtr Block)) : Store (ListPtr Block) → List (Loc Block)
  | .currentNext _ | .firstPrev _ => [.next q.mq.list]
  | .lastNext current | .headPrev current => [.prev current]
  | .sizeInc | .sizeDec => [.size]
  | .initNext _ | .initPrev _ | .headNext _ | .currentPrev _ | .unlock => []

/-- What the step writes; a step of the pipeline leaves the links to its stores. -/
def StoreLabel.writes (x : StoreState Block) : StoreLabel Block → List (Loc Block)
  | .step .leaveLoop => [.mqFlag]
  | .store t => (x.code t).head?.elim [] (Store.writes x.mq)
  | _ => []

def StoreLabel.reads (x : StoreState Block) : StoreLabel Block → List (Loc Block)
  | .step .evalFlag => [.mqFlag]
  | .step .isEmpty | .step .get => [.prev x.mq.mq.list]
  | .store t => (x.code t).head?.elim [] (Store.reads x.mq)
  | _ => []

variable [DecidableEq Block]

/-- Two threads may go on, both of them using one location and one of them writing it. -/
def Race (x : StoreState Block) : Prop :=
  ∃ l l' loc, l.thread ≠ l'.thread ∧ storeEnabled x l ∧ storeEnabled x l' ∧
    loc ∈ l.writes x ∧ loc ∈ l'.writes x ++ l'.reads x

variable {x : StoreState Block} {l : StoreLabel Block} {t : Thread} {loc : Loc Block}

/-! ## The footprints are right -/

def Loc.Agrees (x y : StoreState Block) : Loc Block → Prop
  | .next p => x.mq.heap.next p = y.mq.heap.next p
  | .prev p => x.mq.heap.prev p = y.mq.heap.prev p
  | .size => x.mq.mq.size = y.mq.mq.size
  | .mqFlag => x.state.mqFlag = y.state.mqFlag

theorem beginStep_mq (x : StoreState Block) (l : Label Block) : (beginStep x l).mq = x.mq := by
  cases l with
  | recv | put | decode =>
      simp only [beginStep]
      split <;> rfl
  | get =>
      simp only [beginStep]
      split
      · rfl
      · split <;> rfl
  | _ => rfl

theorem step_mqFlag {s s' : State Block} {l : Label Block} (step : Step s l s')
    (stays : l ≠ .leaveLoop) : s'.mqFlag = s.mqFlag := by
  cases step with
  | leaveLoop => exact absurd rfl stays
  | _ => rfl

/-- A step changes no location but those it writes. -/
theorem unwritten (sound : Sound x) (may : storeEnabled x l) (spared : loc ∉ l.writes x) :
    loc.Agrees (nextStore x l) x := by
  cases l with
  | lock t => cases loc <;> rfl
  | step l =>
      have mq : (nextStore x (.step l)).mq = x.mq := beginStep_mq x l
      cases loc with
      | next p | prev p | size => simp only [Loc.Agrees, mq]
      | mqFlag =>
          have state : (nextStore x (.step l)).state = next x.state l := beginStep_state sound may
          simp only [Loc.Agrees, state]
          refine step_mqFlag (step_of_enabled (sound.enabled may)) ?_
          rintro rfl
          exact spared List.mem_cons_self
  | store t =>
      obtain ⟨a, rest, code⟩ := List.exists_cons_of_ne_nil may
      have mq : (nextStore x (.store t)).mq = execStore x.mq a := by
        simp only [nextStore, code, StoreState.begin]
      simp only [StoreLabel.writes, code, List.head?_cons, Option.elim_some] at spared
      cases loc with
      | mqFlag =>
          have state := nextStore_state x (.store t) rfl
          simp only [Loc.Agrees, state]
      | next p | prev p | size =>
          simp only [Loc.Agrees, mq]
          cases a <;> simp_all [execStore, Store.writes, Function.update]

/-- The two differ in `mq_flag` and in the links and the size of `obd_mq` at most. -/
def Alike (x y : StoreState Block) : Prop :=
  ∃ mq mqFlag, mq.mq.list = x.mq.mq.list ∧ y = { x with mq, state.mqFlag := mqFlag }

/-- Of the steps of the pipeline two only have to do with `mq_flag`. -/
theorem next_mqFlag (s : State Block) (mqFlag : Bool) {l : Label Block} (notEval : l ≠ .evalFlag)
    (notLeave : l ≠ .leaveLoop) : next { s with mqFlag } l = { next s l with mqFlag } := by
  obtain ⟨mem, objPool, obdMq, flag, mqHeld, pool, sigint, main, drain, workers, history⟩ := s
  cases l with
  | evalFlag => exact absurd rfl notEval
  | leaveLoop => exact absurd rfl notLeave
  | recv event =>
      cases main with
      | initialised obd =>
          cases event with
          | data bytes =>
              simp only [next, State.afterRecv]
              split_ifs <;> rfl
          | _ => rfl
      | _ => rfl
  | release | put => cases main <;> rfl
  | get => cases obdMq <;> rfl
  | add => cases drain <;> rfl
  | decode i | workerRelease i =>
      simp only [next]
      split <;> rfl
  | _ => rfl

theorem next_keeps_mqFlag (s : State Block) {l : Label Block} (notEval : l ≠ .evalFlag)
    (notLeave : l ≠ .leaveLoop) : (next s l).mqFlag = s.mqFlag := by
  have same := congrArg State.mqFlag (next_mqFlag s s.mqFlag notEval notLeave)
  exact same

theorem store_unread (alike : Alike x y)
    (agree : ∀ loc ∈ StoreLabel.reads x (.store t), loc.Agrees x y) :
    Alike (nextStore x (.store t)) (nextStore y (.store t)) ∧
      ∀ loc : Loc Block, loc ∈ StoreLabel.writes x (.store t) ∨ loc.Agrees x y →
        loc.Agrees (nextStore x (.store t)) (nextStore y (.store t)) := by
  obtain ⟨mq, mqFlag, list, rfl⟩ := alike
  cases code : x.code t with
  | nil =>
      simp only [nextStore, code]
      refine ⟨⟨mq, mqFlag, list, rfl⟩, fun loc same => ?_⟩
      simpa [StoreLabel.writes, code] using same
  | cons a rest =>
      simp only [StoreLabel.reads, StoreLabel.writes, code, List.head?_cons, Option.elim_some]
        at agree ⊢
      simp only [nextStore, code]
      constructor
      · refine ⟨execStore mq a, mqFlag, ?_, rfl⟩
        rw [execStore_list, list]
        exact (execStore_list _ _).symm
      · intro loc same
        cases loc with
        | mqFlag =>
            refine same.resolve_left ?_
            cases a <;> simp [Store.writes]
        | next p | prev p | size =>
            -- a link it writes has the same new value in both, and any other has the old one
            cases a <;>
              simp_all [Store.reads, Store.writes, execStore, Loc.Agrees, StoreState.begin] <;>
              grind [Function.update_apply]

theorem beginStep_unread (x : StoreState Block) {mq : QueueState (ListPtr Block)} (mqFlag : Bool)
    (list : mq.mq.list = x.mq.mq.list) (l : Label Block)
    (agree : ∀ loc ∈ StoreLabel.reads x (.step l),
      loc.Agrees x { x with mq, state.mqFlag := mqFlag }) :
    ∃ after, beginStep { x with mq, state.mqFlag := mqFlag } l =
        { beginStep x l with mq, state.mqFlag := after } ∧
      (.mqFlag ∈ StoreLabel.writes x (.step l) ∨ x.state.mqFlag = mqFlag →
        (beginStep x l).state.mqFlag = after) := by
  have last (here : ListPtr Block) (read : .prev here ∈ StoreLabel.reads x (.step l)) :
      mq.heap.prev here = x.mq.heap.prev here := (agree (.prev here) read).symm
  have kept (s : State Block) (stays : (.mqFlag : Loc Block) ∉ StoreLabel.writes x (.step l))
      (same : s.mqFlag = x.state.mqFlag) :
      .mqFlag ∈ StoreLabel.writes x (.step l) ∨ x.state.mqFlag = mqFlag → s.mqFlag = mqFlag :=
    fun either => same.trans (either.resolve_left stays)
  cases l with
  | leaveLoop => exact ⟨true, rfl, fun _ => rfl⟩
  | evalFlag =>
      obtain rfl : x.state.mqFlag = mqFlag := agree .mqFlag List.mem_cons_self
      exact ⟨_, rfl, fun _ => rfl⟩
  | isEmpty =>
      have alone : headIsAlone mq = headIsAlone x.mq := by
        simp only [headIsAlone, list, last _ List.mem_cons_self]
      simp only [beginStep, alone]
      exact ⟨mqFlag, rfl, kept _ List.not_mem_nil rfl⟩
  | get =>
      have alone : headIsAlone mq = headIsAlone x.mq := by
        simp only [headIsAlone, list, last _ List.mem_cons_self]
      simp only [beginStep, alone, list, last _ List.mem_cons_self]
      split_ifs
      · exact ⟨mqFlag, rfl, kept _ List.not_mem_nil rfl⟩
      · cases x.mq.heap.prev x.mq.mq.list <;> exact ⟨mqFlag, rfl, kept _ List.not_mem_nil rfl⟩
  | put | recv | decode =>
      have after {l : Label Block} := next_mqFlag (l := l) x.state mqFlag
      have same {l : Label Block} := next_keeps_mqFlag (l := l) x.state
      simp only [beginStep, after, ne_eq, reduceCtorEq, not_false_eq_true]
      split
      · exact ⟨mqFlag, rfl, kept _ List.not_mem_nil (same (by simp) (by simp))⟩
      · exact ⟨mqFlag, rfl, kept _ List.not_mem_nil rfl⟩
  | _ =>
      have after {l : Label Block} := next_mqFlag (l := l) x.state mqFlag
      have same {l : Label Block} := next_keeps_mqFlag (l := l) x.state
      simp only [beginStep, after, ne_eq, reduceCtorEq, not_false_eq_true]
      exact ⟨mqFlag, rfl, kept _ List.not_mem_nil (same (by simp) (by simp))⟩

/-- Where it goes and what it makes of a location depends on what it reads. -/
theorem unread (alike : Alike x y) (agree : ∀ loc ∈ l.reads x, loc.Agrees x y) :
    Alike (nextStore x l) (nextStore y l) ∧ ∀ loc : Loc Block,
      loc ∈ l.writes x ∨ loc.Agrees x y → loc.Agrees (nextStore x l) (nextStore y l) := by
  cases l with
  | store t => exact store_unread alike agree
  | lock t =>
      obtain ⟨mq, mqFlag, list, rfl⟩ := alike
      refine ⟨⟨mq, mqFlag, list, rfl⟩, fun loc same => ?_⟩
      cases loc <;> exact same.resolve_left List.not_mem_nil
  | step l =>
      obtain ⟨mq, mqFlag, list, rfl⟩ := alike
      obtain ⟨after, shape, flag⟩ := beginStep_unread x mqFlag list l agree
      have kept : (beginStep x l).mq = x.mq := beginStep_mq x l
      simp only [nextStore, shape]
      refine ⟨⟨mq, after, by rw [kept]; exact list, rfl⟩, fun loc same => ?_⟩
      cases loc with
      | mqFlag => exact flag same
      | next p | prev p | size =>
          simp only [Loc.Agrees, kept]
          refine same.resolve_left fun written => ?_
          cases l <;> simp [StoreLabel.writes] at written

/-! ## Whose a location is -/

/-- A link in one of the blocks. -/
def Loc.Of (blocks : List Block) : Loc Block → Prop
  | .next p | .prev p => ∃ obd ∈ blocks, p = .node obd
  | .size | .mqFlag => False

/-- A link of the head or of a queued block, or the size. -/
def Loc.InQueue (queued : List Block) : Loc Block → Prop
  | .next p | .prev p => p ∈ .head :: queued.map ListPtr.node
  | .size => True
  | .mqFlag => False

omit [DecidableEq Block] in
theorem Holds.reaches {q : QueueState (ListPtr Block)} {queued : List Block}
    (holds : Holds q queued) (k : Nat) :
    q.heap.next^[k] .head ∈ .head :: queued.map ListPtr.node := by
  have linked := holds.2.ring.mem_iff_reaches.mpr ⟨k, rfl⟩
  rw [holds.1] at linked
  simpa using linked

omit [DecidableEq Block] in
theorem Holds.prev_mem {q : QueueState (ListPtr Block)} {queued : List Block}
    (holds : Holds q queued) : q.heap.prev .head ∈ .head :: queued.map ListPtr.node := by
  have linked := holds.2.ring.symm.mem_iff_reaches.mpr ⟨1, rfl⟩
  rw [holds.1] at linked
  simpa using linked

theorem Ends.of_firstPrev {Ptr : Type} {current p : Ptr} {rest : List (Store Ptr)}
    (ends : Ends current (.firstPrev p :: rest)) :
    p = current ∧ rest = [.headNext current, .currentPrev current, .sizeInc, .unlock] := by
  rcases ends.2 with put | get
  · simpa [putStores, List.suffix_cons_iff] using put
  · simp [getStores, List.suffix_cons_iff] at get

theorem Ends.of_lastNext {Ptr : Type} {current p : Ptr} {rest : List (Store Ptr)}
    (ends : Ends current (.lastNext p :: rest)) :
    p = current ∧ rest = [.headPrev current, .initNext current, .initPrev current, .sizeDec,
      .unlock] := by
  rcases ends.2 with put | get
  · simp [putStores, List.suffix_cons_iff] at put
  · simpa [getStores, List.suffix_cons_iff] using get

namespace Sound

/-- The node in front of which `list_add_front` puts its own is a node of the list. -/
theorem firstPrev_mem (sound : Sound x) (mine : x.mqMutex = .held t) {current p : ListPtr Block}
    {rest : List (Store (ListPtr Block))} (code : x.code t = .firstPrev p :: rest)
    (ends : Ends current (x.code t)) (other : current ≠ .head) :
    x.mq.heap.next .head ∈ .head :: x.state.obdMq.map ListPtr.node := by
  have head := sound.head
  have linked := sound.linked t p rest code
  have links := sound.links
  rw [code] at ends
  obtain ⟨rfl, rfl⟩ := ends.of_firstPrev
  simp only [StoreState.settled, mine, code] at links
  have second := links.reaches 2
  simp only [Function.iterate_succ, Function.iterate_zero, Function.comp, id, List.foldl_cons,
    List.foldl_nil, execStore, NodeHeap.setPrev_next, NodeHeap.setNext_next, head,
    Function.update_self, Function.update_of_ne other] at second
  rw [linked, head] at second
  exact second

/-- The node that `list_del_back` makes the last one is a node of the list. -/
theorem lastNext_mem (sound : Sound x) (mine : x.mqMutex = .held t) {current p : ListPtr Block}
    {rest : List (Store (ListPtr Block))} (code : x.code t = .lastNext p :: rest)
    (ends : Ends current (x.code t)) (other : current ≠ .head) :
    x.mq.heap.prev p ∈ .head :: x.state.obdMq.map ListPtr.node := by
  have head := sound.head
  have links := sound.links
  rw [code] at ends
  obtain ⟨rfl, rfl⟩ := ends.of_lastNext
  simp only [StoreState.settled, mine, code] at links
  have last := links.prev_mem
  simpa only [List.foldl_cons, List.foldl_nil, execStore, NodeHeap.setPrev_prev,
    NodeHeap.setNext_prev, head, Function.update_self, Function.update_of_ne other.symm] using last

/-- What the holder of the mutex uses is the queue's or that of a block it has. -/
theorem used_inside (sound : Sound x) (mine : x.mqMutex = .held t) {a : Store (ListPtr Block)}
    {rest : List (Store (ListPtr Block))} (code : x.code t = a :: rest)
    (used : loc ∈ a.writes x.mq ++ a.reads x.mq) :
    loc.Of (x.state.blocksAt t.place) ∨ loc.InQueue x.state.obdMq := by
  have kept := sound.notHeld mine (by simp [code])
  have head := sound.head
  obtain ⟨current, ends, about⟩ := sound.inside t mine kept
  rcases about with unlocks | ⟨obd, has, rfl⟩
  · obtain ⟨rfl, -⟩ := List.cons.inj (code.symm.trans unlocks)
    cases used
  · have node := ends.node (a := a) (by simp [code])
    have own : ∀ {loc : Loc Block}, loc = .next (.node obd) ∨ loc = .prev (.node obd) →
        loc.Of (x.state.blocksAt t.place) ∨ loc.InQueue x.state.obdMq := by
      rintro loc link
      rcases List.mem_append.mp has with queued | there
      · right
        rcases link with rfl | rfl <;> simp [Loc.InQueue, queued]
      · left
        rcases link with rfl | rfl <;> exact ⟨obd, there, rfl⟩
    cases a with
    | initNext p | initPrev p | currentPrev p =>
        obtain rfl := node p rfl
        have link : loc = .next (.node obd) ∨ loc = .prev (.node obd) := by
          simp only [Store.writes, Store.reads, List.append_nil, List.mem_singleton] at used
          simp [used]
        exact own link
    | headNext p =>
        obtain rfl : loc = .next .head := by simpa [Store.writes, Store.reads, head] using used
        exact .inr (by simp [Loc.InQueue])
    | sizeInc | sizeDec =>
        obtain rfl : loc = .size := by simpa [Store.writes, Store.reads] using used
        exact .inr trivial
    | unlock => cases used
    | currentNext p =>
        obtain rfl := node p rfl
        have either : loc = .next (.node obd) ∨ loc = .next .head := by
          simpa [Store.writes, Store.reads, head] using used
        rcases either with rfl | rfl
        · exact own (.inl rfl)
        · exact .inr (by simp [Loc.InQueue])
    | headPrev p =>
        obtain rfl := node p rfl
        have either : loc = .prev .head ∨ loc = .prev (.node obd) := by
          simpa [Store.writes, Store.reads, head] using used
        rcases either with rfl | rfl
        · exact .inr (by simp [Loc.InQueue])
        · exact own (.inr rfl)
    | firstPrev p =>
        have either : loc = .prev (x.mq.heap.next .head) ∨ loc = .next .head := by
          simpa [Store.writes, Store.reads, head] using used
        rcases either with rfl | rfl
        · exact .inr (sound.firstPrev_mem mine code ends (by simp))
        · exact .inr (by simp [Loc.InQueue])
    | lastNext p =>
        have either : loc = .next (x.mq.heap.prev p) ∨ loc = .prev p := by
          simpa [Store.writes, Store.reads] using used
        rcases either with rfl | rfl
        · exact .inr (sound.lastNext_mem mine code ends (by simp))
        · obtain rfl := node p rfl
          exact own (.inr rfl)

/-- A thread uses links of its own blocks, the queue if it has the mutex, and `mq_flag`. -/
theorem used (sound : Sound x) (may : storeEnabled x l) (turn : l.thread = some t)
    (used : loc ∈ l.writes x ++ l.reads x) :
    loc = .mqFlag ∨ loc.Of (x.state.blocksAt t.place) ∨
      ((x.mqMutex = .held t ∨ x.mqMutex = .taken t) ∧ loc.InQueue x.state.obdMq) := by
  cases l with
  | lock t' => cases used
  | step l =>
      cases l with
      | leaveLoop | evalFlag => exact .inl (List.mem_singleton.mp used)
      | isEmpty | get =>
          obtain rfl : loc = .prev x.mq.mq.list := List.mem_singleton.mp used
          refine .inr (.inr ⟨.inr (taken_of_body may rfl turn), ?_⟩)
          simp [Loc.InQueue, sound.head]
      | _ => cases used
  | store t' =>
      obtain rfl : t' = t := Option.some.inj turn
      obtain ⟨a, rest, code⟩ := List.exists_cons_of_ne_nil may
      have here : loc ∈ a.writes x.mq ++ a.reads x.mq := by
        simpa only [StoreLabel.writes, StoreLabel.reads, code, List.head?_cons,
          Option.elim_some] using used
      right
      by_cases mine : x.mqMutex = .held t'
      · exact (sound.used_inside mine code here).imp_right fun queue => ⟨.inl mine, queue⟩
      · obtain ⟨obd, has, init⟩ := sound.outside t' mine a (by simp [code])
        left
        simp only [initStores, List.mem_cons, List.not_mem_nil, or_false] at init
        rcases init with rfl | rfl
        · obtain rfl : loc = .next (.node obd) := List.mem_singleton.mp here
          exact ⟨obd, has, rfl⟩
        · obtain rfl : loc = .prev (.node obd) := List.mem_singleton.mp here
          exact ⟨obd, has, rfl⟩

end Sound

omit [DecidableEq Block] in
theorem Loc.Of.meet {blocks blocks' : List Block} (here : loc.Of blocks) (there : loc.Of blocks') :
    ∃ obd ∈ blocks, obd ∈ blocks' := by
  cases loc with
  | next p | prev p =>
      obtain ⟨obd, has, rfl⟩ := here
      obtain ⟨obd', has', same⟩ := there
      rw [ListPtr.node.injEq] at same
      exact ⟨obd, has, same ▸ has'⟩
  | size | mqFlag => exact here.elim

omit [DecidableEq Block] in
theorem Loc.Of.queued {blocks queued : List Block} (here : loc.Of blocks)
    (there : loc.InQueue queued) : ∃ obd ∈ blocks, obd ∈ queued := by
  cases loc with
  | next p | prev p =>
      obtain ⟨obd, has, rfl⟩ := here
      exact ⟨obd, has, by simpa [Loc.InQueue] using there⟩
  | size | mqFlag => exact here.elim

/-- Other than `mq_flag`, no location is used by two threads at a time. -/
theorem Sound.apart (sound : Sound x) {t t' : Thread} (other : t ≠ t')
    (here : loc.Of (x.state.blocksAt t.place) ∨
      ((x.mqMutex = .held t ∨ x.mqMutex = .taken t) ∧ loc.InQueue x.state.obdMq)) :
    ¬ (loc.Of (x.state.blocksAt t'.place) ∨
      ((x.mqMutex = .held t' ∨ x.mqMutex = .taken t') ∧ loc.InQueue x.state.obdMq)) := by
  have notQueued : ∀ {t : Thread} {obd : Block}, obd ∈ x.state.blocksAt t.place →
      obd ∉ x.state.obdMq := fun {t} _ => sound.owned.apart (q := .obdMq) t.place_ne
  rintro (there | ⟨mine', queue'⟩)
  · rcases here with here | ⟨-, queue⟩
    · obtain ⟨obd, has, has'⟩ := here.meet there
      exact sound.owned.apart (fun same => other (Thread.place_injective same)) has has'
    · obtain ⟨obd, has, queued⟩ := there.queued queue
      exact notQueued has queued
  · rcases here with here | ⟨mine, -⟩
    · obtain ⟨obd, has, queued⟩ := here.queued queue'
      exact notQueued has queued
    · rcases mine with mine | mine <;> rcases mine' with mine' | mine' <;>
        cases mine.symm.trans mine' <;> exact other rfl

omit [DecidableEq Block] in
/-- Only the end of `ev_run` writes `mq_flag`. -/
theorem mqFlag_written (written : Loc.mqFlag ∈ l.writes x) : l = .step .leaveLoop := by
  cases l with
  | step l => cases l <;> first | rfl | cases written
  | lock t => cases written
  | store t =>
      simp only [StoreLabel.writes] at written
      cases code : x.code t with
      | nil => simp [code] at written
      | cons a rest => cases a <;> simp [code, Store.writes] at written

omit [DecidableEq Block] in
theorem mqFlag_read (read : Loc.mqFlag ∈ l.reads x) : l = .step .evalFlag := by
  cases l with
  | step l => cases l <;> first | rfl | simp [StoreLabel.reads] at read
  | lock t => cases read
  | store t =>
      simp only [StoreLabel.reads] at read
      cases code : x.code t with
      | nil => simp [code] at read
      | cons a rest => cases a <;> simp [code, Store.reads] at read

omit [DecidableEq Block] in
/-- A step that uses a location is some thread's. -/
theorem exists_thread (used : loc ∈ l.writes x ++ l.reads x) : ∃ t, l.thread = some t := by
  cases l with
  | lock t | store t => exact ⟨t, rfl⟩
  | step l => cases l <;> first | exact ⟨_, rfl⟩ | cases used

end Pipeline

open Transition Pipeline

variable {Block : Type} [DecidableEq Block] {x y : StoreState Block}
  {tr : List (StoreState Block × StoreLabel Block)}

/-- In every run, two threads race for one location exactly when `main` is about to set
    `mq_flag` while the drain thread is about to test it; the links and the size of `obd_mq`
    are never raced for. -/
theorem storePipeline_races_iff (init : (storePipeline Block).init x)
    (run : Run (storePipeline Block) x tr y) :
    Race y ↔ storeEnabled y (.step .leaveLoop) ∧ storeEnabled y (.step .evalFlag) := by
  have sound := sound_of_run init run
  constructor
  · rintro ⟨l, l', loc, other, may, may', written, used'⟩
    have used : loc ∈ l.writes y ++ l.reads y := List.mem_append_left _ written
    obtain ⟨t, turn⟩ := exists_thread used
    obtain ⟨t', turn'⟩ := exists_thread used'
    have apart : t ≠ t' := fun same => other (by rw [turn, turn', same])
    rcases sound.used may turn used with rfl | here
    · obtain rfl := mqFlag_written written
      rcases List.mem_append.mp used' with writes | reads
      · obtain rfl := mqFlag_written writes
        exact absurd rfl other
      · obtain rfl := mqFlag_read reads
        exact ⟨may, may'⟩
    · rcases sound.used may' turn' used' with rfl | there
      · rcases here with impossible | ⟨-, impossible⟩
        · exact impossible.elim
        · exact impossible.elim
      · exact absurd there (sound.apart apart here)
  · rintro ⟨leaves, tests⟩
    exact ⟨.step .leaveLoop, .step .evalFlag, .mqFlag, by simp [StoreLabel.thread, Label.thread],
      leaves, tests, List.mem_singleton.mpr rfl, List.mem_singleton.mpr rfl⟩

/-- SIGINT comes before the drain thread has tested `mq_flag`. -/
theorem storePipeline_races_iff_interrupted :
    Race (exec (storePipeline Nat) storeInitial [.step .sigint]) :=
  (storePipeline_races_iff storeInitial_init (.ofSchedule _ (by decide +kernel))).mpr
    (by decide +kernel)

end ObdServer
