import ObdServer.Lib.Mutex
import ObdServer.MessageQueue

/-! # The mutex of the message queue

`mq_put`, `mq_get` and `mq_is_empty` are executed statement by statement by the two
threads that call them: the event loop, which is also the main thread that shuts the
server down, and the drain thread. Which nodes may be put does not matter here.
-/

namespace ObdServer

open Transition Mutex

inductive Thread where
  | eventLoop
  | drain
  deriving DecidableEq, Repr

/-- The statements of the queue functions between their lock calls. -/
inductive MqAct (Ptr : Type) where
  | addFront (current : Ptr)
  | sizeInc
  | delBack
  | sizeDec
  /-- The value of `return head->prev==head?TRUE:FALSE`. -/
  | returnValue
  | setFlag
  deriving DecidableEq

abbrev MqStmt (Ptr : Type) := Stmt (MqAct Ptr)

variable {Ptr : Type}

def mqPutBody (current : Ptr) : List (MqStmt Ptr) :=
  [.lock, .act (.addFront current), .act .sizeInc, .unlock, .ret]

def mqGetBody : List (MqStmt Ptr) :=
  [.lock, .act .delBack, .act .sizeDec, .unlock, .ret]

/-- The source returns in the middle; its second half, with the unlock, is dead. -/
def mqIsEmptyBody : List (MqStmt Ptr) :=
  [.lock, .act .returnValue, .ret, .act .setFlag, .unlock, .ret]

/-- The main thread, outside the queue functions. -/
inductive LoopPc where
  | serving
  | joining
  | joined
  deriving DecidableEq, Repr

/-- `thread_func_cb`; `testing` and `getting` are calls of `mq_is_empty` and `mq_get`. -/
inductive DrainPc (Ptr : Type) where
  | condition
  | testing
  | beforeGet
  | getting
  | adding (list : Ptr)
  | exited
  deriving DecidableEq, Repr

structure LockState (Ptr : Type) where
  queue : QueueState Ptr
  owner : Option Thread
  mqFlag : Bool
  /-- What is left of the queue call each thread is in; empty outside of calls. -/
  code : Thread → List (MqStmt Ptr)
  /-- The value `mq_is_empty` returns. -/
  flag : Bool
  /-- The local `current` of `mq_get`. -/
  current : Option Ptr
  loop : LoopPc
  drain : DrainPc Ptr

inductive LockLabel (Ptr : Type) where
  | callPut (current : Ptr)
  /-- `ev_run` returns and main sets `mq_flag`. -/
  | shutdown
  | join
  /-- `thread_func_cb` evaluates `mq_flag == TRUE`. -/
  | evalCondition
  | callGet
  | add
  | exec (t : Thread)
  deriving DecidableEq

namespace LockState

variable [DecidableEq Ptr]

def initial (heap : NodeHeap Ptr) (list : Ptr) : LockState Ptr where
  queue := mqInit heap list
  owner := none
  mqFlag := false
  code _ := []
  flag := false
  current := none
  loop := .serving
  drain := .condition

def call (s : LockState Ptr) (t : Thread) (body : List (MqStmt Ptr)) : LockState Ptr :=
  { s with code := Function.update s.code t body }

def execAct (s : LockState Ptr) : MqAct Ptr → LockState Ptr
  | .addFront current =>
      { s with queue.heap := listAddFront s.queue.heap s.queue.mq.list current }
  | .sizeInc => { s with queue.mq.size := s.queue.mq.size + 1 }
  | .delBack =>
      let (current, heap) := listDelBack s.queue.heap s.queue.mq.list
      { s with current, queue.heap := heap }
  | .sizeDec => if s.current.isSome then { s with queue.mq.size := s.queue.mq.size - 1 } else s
  | .returnValue | .setFlag => { s with flag := headIsAlone s.queue }

/-- Where a thread goes on when its call has returned. -/
def resume (s : LockState Ptr) : Thread → LockState Ptr
  | .eventLoop => s
  | .drain =>
      match s.drain with
      | .testing => { s with drain := if s.flag then .exited else .beforeGet }
      | .getting => { s with drain := s.current.elim .condition .adding }
      | _ => s

def execStmt (s : LockState Ptr) (t : Thread) (stmt : MqStmt Ptr) (rest : List (MqStmt Ptr)) :
    LockState Ptr :=
  let s := { s with owner := ownerAfter t s.owner stmt }
  match stmt with
  | .lock | .unlock => s.call t rest
  | .act a => (s.call t rest).execAct a
  | .ret => (s.call t []).resume t

end LockState

variable [DecidableEq Ptr]

def LockEnabled (s : LockState Ptr) : LockLabel Ptr → Prop
  | .callPut _ => s.loop = .serving ∧ s.code .eventLoop = []
  | .shutdown => s.loop = .serving ∧ s.code .eventLoop = []
  | .join => s.loop = .joining ∧ s.drain = .exited
  | .evalCondition => s.drain = .condition ∧ s.code .drain = []
  | .callGet => s.drain = .beforeGet ∧ s.code .drain = []
  | .add => (∃ list ∈ s.current, s.drain = .adding list) ∧ s.code .drain = []
  | .exec t => ∃ stmt ∈ (s.code t).head?, Ready s.owner stmt

instance (s : LockState Ptr) (l : LockLabel Ptr) : Decidable (LockEnabled s l) := by
  cases l <;> unfold LockEnabled <;> infer_instance

def lockNext (s : LockState Ptr) : LockLabel Ptr → LockState Ptr
  | .callPut current =>
      { s with queue.heap := listInit s.queue.heap current }.call .eventLoop (mqPutBody current)
  | .shutdown => { s with mqFlag := true, loop := .joining }
  | .join => { s with loop := .joined }
  | .evalCondition =>
      if s.mqFlag then { s with drain := .testing }.call .drain mqIsEmptyBody
      else { s with drain := .beforeGet }
  | .callGet => { s with drain := .getting }.call .drain mqGetBody
  | .add => { s with drain := .condition }
  | .exec t =>
      match s.code t with
      | [] => s
      | stmt :: rest => s.execStmt t stmt rest

/-- The event loop and the drain thread, sharing the queue. -/
def mqLock (Ptr : Type) [DecidableEq Ptr] : System (LockState Ptr) (LockLabel Ptr) where
  init s := ∃ heap list, s = .initial heap list
  enabled := LockEnabled
  next := lockNext

/-- A thread outside the queue functions does not hold the mutex, so every call that
    returned has given it back, and no thread asks for it while it holds it. -/
structure Disciplined (s : LockState Ptr) : Prop where
  returned : ∀ t, s.code t = [] → s.owner ≠ some t
  requests : ∀ t rest, s.code t = .lock :: rest → s.owner ≠ some t

/-- The step is the return of a call of `mq_is_empty`. -/
def ReturnsFromIsEmpty (s : LockState Ptr) (l : LockLabel Ptr) : Prop :=
  l = .exec .drain ∧ s.drain = .testing ∧ (s.code .drain).head? = some .ret

/-! ## The discipline as an invariant -/

omit [DecidableEq Ptr] in
theorem mqPutBody_paired (current : Ptr) : Paired False (mqPutBody current) := by
  simp [mqPutBody, Paired]

omit [DecidableEq Ptr] in
theorem mqGetBody_paired : Paired False (mqGetBody : List (MqStmt Ptr)) := by
  simp [mqGetBody, Paired]

omit [DecidableEq Ptr] in
/-- The body of `mq_is_empty` is not, because of its first return. -/
theorem mqIsEmptyBody_not_paired : ¬ Paired False (mqIsEmptyBody : List (MqStmt Ptr)) := by
  simp [mqIsEmptyBody, Paired]

namespace LockState

variable (s : LockState Ptr) (t : Thread) (stmt : MqStmt Ptr) (rest : List (MqStmt Ptr))

theorem execAct_frame (a : MqAct Ptr) : (s.execAct a).owner = s.owner ∧
    (s.execAct a).code = s.code ∧ (s.execAct a).drain = s.drain := by
  cases a with
  | sizeDec => cases got : s.current.isSome <;> simp [execAct, got]
  | _ => exact ⟨rfl, rfl, rfl⟩

omit [DecidableEq Ptr] in
theorem resume_frame : (s.resume t).owner = s.owner ∧ (s.resume t).code = s.code := by
  cases t with
  | eventLoop => exact ⟨rfl, rfl⟩
  | drain => cases pc : s.drain <;> simp [resume, pc]

theorem execStmt_owner : (s.execStmt t stmt rest).owner = ownerAfter t s.owner stmt := by
  cases stmt with
  | lock | unlock => rfl
  | act a => exact (execAct_frame _ a).1
  | ret => exact (resume_frame _ t).1

theorem execStmt_code : (s.execStmt t stmt rest).code =
    Function.update s.code t (if stmt = .ret then [] else rest) := by
  cases stmt with
  | lock | unlock => rfl
  | act a => exact (execAct_frame _ a).2.1
  | ret => exact (resume_frame _ t).2

theorem execStmt_drain (continues : t = .drain → stmt ≠ .ret) :
    (s.execStmt t stmt rest).drain = s.drain := by
  cases stmt with
  | lock | unlock => rfl
  | act a => exact (execAct_frame _ a).2.2
  | ret =>
      cases t with
      | eventLoop => rfl
      | drain => exact absurd rfl (continues rfl)

/-- No statement starts a call of `mq_is_empty`. -/
theorem execStmt_testing (other : s.drain ≠ .testing) :
    (s.execStmt t stmt rest).drain ≠ .testing := by
  by_cases returns : t = .drain ∧ stmt = .ret
  · obtain ⟨rfl, rfl⟩ := returns
    simp only [execStmt, resume, call]
    split
    · exact absurd ‹_› other
    · cases s.current <;> simp
    · exact other
  · rw [execStmt_drain s t stmt rest fun drain ret => returns ⟨drain, ret⟩]
    exact other

end LockState

/-- The drain thread inside `mq_is_empty`, up to its return: it holds the mutex from
    the second statement on. -/
def InIsEmpty (s : LockState Ptr) : Prop :=
  (s.code .drain = mqIsEmptyBody ∧ s.owner ≠ some .drain) ∨
    (s.owner = some .drain ∧
      (s.code .drain = mqIsEmptyBody.drop 1 ∨ s.code .drain = mqIsEmptyBody.drop 2))

structure LockInv (s : LockState Ptr) : Prop where
  loop : Paired (s.owner = some .eventLoop) (s.code .eventLoop)
  testing : s.drain = .testing → InIsEmpty s
  drain : s.drain ≠ .testing → Paired (s.owner = some .drain) (s.code .drain)

theorem LockInv.initial (heap : NodeHeap Ptr) (list : Ptr) :
    LockInv (LockState.initial heap list) where
  loop := by simp [LockState.initial, Paired]
  testing := by simp [LockState.initial]
  drain := by simp [LockState.initial, Paired]

theorem LockInv.disciplined {s : LockState Ptr} (inv : LockInv s) : Disciplined s := by
  -- a thread whose code passes the check is disciplined; only `mq_is_empty` has to be looked at
  have quiet : ∀ t, Paired (s.owner = some t) (s.code t) →
      (s.code t = [] → s.owner ≠ some t) ∧
        ∀ rest, s.code t = .lock :: rest → s.owner ≠ some t := by
    intro t paired
    constructor
    · intro outside
      rwa [outside] at paired
    · intro rest asks
      rw [asks] at paired
      exact paired.request
  have drain : (s.code .drain = [] → s.owner ≠ some .drain) ∧
      ∀ rest, s.code .drain = .lock :: rest → s.owner ≠ some .drain := by
    by_cases testing : s.drain = .testing
    · rcases inv.testing testing with ⟨_, free⟩ | ⟨_, code | code⟩
      · exact ⟨fun _ => free, fun _ _ => free⟩
      · exact ⟨by simp [code, mqIsEmptyBody], by simp [code, mqIsEmptyBody]⟩
      · exact ⟨by simp [code, mqIsEmptyBody], by simp [code, mqIsEmptyBody]⟩
    · exact quiet _ (inv.drain testing)
  constructor
  · rintro (_ | _)
    exacts [(quiet _ inv.loop).1, drain.1]
  · rintro (_ | _)
    exacts [(quiet _ inv.loop).2, drain.2]

/-- A statement of the event loop. -/
theorem LockInv.execLoop {s : LockState Ptr} (inv : LockInv s) {stmt : MqStmt Ptr}
    {rest : List (MqStmt Ptr)} (code : s.code .eventLoop = stmt :: rest)
    (ready : Ready s.owner stmt) : LockInv (s.execStmt .eventLoop stmt rest) := by
  have paired := inv.loop
  rw [code] at paired
  have same := paired.owner_other ready (by decide : Thread.drain ≠ .eventLoop)
  have drain := s.execStmt_drain .eventLoop stmt rest (by simp)
  have drainCode : (s.execStmt .eventLoop stmt rest).code .drain = s.code .drain := by
    simp [LockState.execStmt_code]
  refine ⟨?_, fun testing => ?_, fun testing => ?_⟩
  · rw [LockState.execStmt_code, LockState.execStmt_owner, Function.update_self]
    split
    · rename_i returns
      subst returns
      exact paired.ret
    · exact paired.exec ‹_›
  · rw [drain] at testing
    simpa only [InIsEmpty, drainCode, LockState.execStmt_owner, ne_eq, same] using
      inv.testing testing
  · rw [drain] at testing
    rw [drainCode, LockState.execStmt_owner]
    exact (Paired.congr same).mpr (inv.drain testing)

/-- A statement of the drain thread, other than the return of `mq_is_empty`. -/
theorem LockInv.execDrain {s : LockState Ptr} (inv : LockInv s) {stmt : MqStmt Ptr}
    {rest : List (MqStmt Ptr)} (code : s.code .drain = stmt :: rest)
    (ready : Ready s.owner stmt) (continues : s.drain = .testing → stmt ≠ .ret) :
    LockInv (s.execStmt .drain stmt rest) := by
  have loopCode : (s.execStmt .drain stmt rest).code .eventLoop = s.code .eventLoop := by
    simp [LockState.execStmt_code]
  by_cases testing : s.drain = .testing
  · have goes := continues testing
    have drain := s.execStmt_drain .drain stmt rest fun _ => goes
    have drainCode : (s.execStmt .drain stmt rest).code .drain = rest := by
      simp [LockState.execStmt_code, goes]
    have owner : (s.execStmt .drain stmt rest).owner = some .drain ∧ s.owner ≠ some .eventLoop ∧
        (rest = mqIsEmptyBody.drop 1 ∨ rest = mqIsEmptyBody.drop 2) := by
      rw [LockState.execStmt_owner]
      rcases inv.testing testing with ⟨shape, _⟩ | ⟨mine, shape | shape⟩
      · obtain ⟨rfl, rfl⟩ := List.cons.inj (code.symm.trans shape)
        have free : s.owner = none := ready
        exact ⟨rfl, by simp [free], .inl rfl⟩
      · obtain ⟨rfl, rfl⟩ := List.cons.inj (code.symm.trans shape)
        exact ⟨mine, by simp [mine], .inr rfl⟩
      · obtain ⟨rfl, -⟩ := List.cons.inj (code.symm.trans shape)
        exact absurd rfl goes
    refine ⟨?_, fun _ => .inr ⟨owner.1, by rw [drainCode]; exact owner.2.2⟩, ?_⟩
    · rw [loopCode]
      exact (Paired.congr (by simp [owner.1, owner.2.1])).mpr inv.loop
    · exact fun outside => absurd (drain.trans testing) outside
  · have paired := inv.drain testing
    rw [code] at paired
    have same := paired.owner_other ready (by decide : Thread.eventLoop ≠ .drain)
    refine ⟨?_, fun entered => absurd entered (s.execStmt_testing _ _ _ testing), fun _ => ?_⟩
    · rw [loopCode, LockState.execStmt_owner]
      exact (Paired.congr same).mpr inv.loop
    · rw [LockState.execStmt_code, LockState.execStmt_owner, Function.update_self]
      split
      · rename_i returns
        subst returns
        exact paired.ret
      · exact paired.exec ‹_›

/-- Every step but the return of `mq_is_empty` keeps the discipline. -/
theorem LockInv.step {s : LockState Ptr} {l : LockLabel Ptr} (inv : LockInv s)
    (ok : ¬ ReturnsFromIsEmpty s l) (enabled : LockEnabled s l) : LockInv (lockNext s l) := by
  cases l with
  | callPut current =>
      obtain ⟨-, outside⟩ := enabled
      have free : s.owner ≠ some .eventLoop := by simpa [outside, Paired] using inv.loop
      refine ⟨?_, ?_, ?_⟩
      · simpa [lockNext, LockState.call, free] using mqPutBody_paired current
      · simpa [lockNext, LockState.call, InIsEmpty] using inv.testing
      · simpa [lockNext, LockState.call] using inv.drain
  | shutdown => exact ⟨inv.loop, inv.testing, inv.drain⟩
  | join => exact ⟨inv.loop, inv.testing, inv.drain⟩
  | evalCondition =>
      obtain ⟨condition, outside⟩ := enabled
      have paired := inv.drain (by simp [condition])
      have free : s.owner ≠ some .drain := by simpa [outside, Paired] using paired
      simp only [lockNext]
      split
      · refine ⟨?_, fun _ => .inl ⟨by simp [LockState.call], free⟩, by simp [LockState.call]⟩
        simpa [LockState.call] using inv.loop
      · exact ⟨inv.loop, by simp, fun _ => paired⟩
  | callGet =>
      obtain ⟨before, outside⟩ := enabled
      have paired := inv.drain (by simp [before])
      have free : s.owner ≠ some .drain := by simpa [outside, Paired] using paired
      refine ⟨?_, by simp [lockNext, LockState.call], fun _ => ?_⟩
      · simpa [lockNext, LockState.call] using inv.loop
      · have get : Paired False (mqGetBody : List (MqStmt Ptr)) := mqGetBody_paired
        simpa [lockNext, LockState.call, free] using get
  | add =>
      obtain ⟨⟨list, -, adding⟩, -⟩ := enabled
      exact ⟨inv.loop, by simp [lockNext], fun _ => inv.drain (by simp [adding])⟩
  | exec t =>
      obtain ⟨stmt, head, ready⟩ := enabled
      obtain ⟨rest, code⟩ := List.head?_eq_some_iff.mp head
      cases t with
      | eventLoop => simpa only [lockNext, code] using inv.execLoop code ready
      | drain =>
          have continues : s.drain = .testing → stmt ≠ .ret := by
            rintro testing rfl
            exact ok ⟨rfl, testing, head⟩
          simpa only [lockNext, code] using inv.execDrain code ready continues

/-- The return of `mq_is_empty` leaves the mutex with the drain thread. -/
theorem LockInv.returnsHolding {s : LockState Ptr} {l : LockLabel Ptr} (inv : LockInv s)
    (returns : ReturnsFromIsEmpty s l) : ¬ Disciplined (lockNext s l) := by
  obtain ⟨rfl, testing, head⟩ := returns
  obtain ⟨rest, code⟩ := List.head?_eq_some_iff.mp head
  have mine : s.owner = some .drain := by
    rcases inv.testing testing with ⟨shape, _⟩ | ⟨mine, _⟩
    · cases code.symm.trans shape
    · exact mine
  intro disciplined
  apply disciplined.returned .drain
  · simp [lockNext, code, LockState.execStmt_code]
  · simp [lockNext, code, LockState.execStmt_owner, ownerAfter, mine]

/-- In a run the mutex is used as a paired, non-recursive lock all the way exactly when
    no call of `mq_is_empty` returns in it. -/
theorem mqLock_disciplined_iff {s t : LockState Ptr} {tr : List (LockState Ptr × LockLabel Ptr)}
    (init : (mqLock Ptr).init s) (run : Run (mqLock Ptr) s tr t) :
    (∀ u, Visits tr t u → Disciplined u) ↔ ∀ p ∈ tr, ¬ ReturnsFromIsEmpty p.1 p.2 := by
  obtain ⟨heap, list, rfl⟩ := init
  exact run.safe_iff LockInv (fun u l => ¬ ReturnsFromIsEmpty u l)
    (fun _ _ inv ok enabled => inv.step ok enabled) (fun _ inv => inv.disciplined)
    (fun _ _ inv returns _ => inv.returnsHolding (not_not.mp returns)) (.initial heap list)

instance (s : LockState Ptr) (l : LockLabel Ptr) : Decidable ((mqLock Ptr).enabled s l) :=
  inferInstanceAs (Decidable (LockEnabled s l))

/-- One message is queued when the server is told to stop: the drain thread finds the
    queue not empty and goes on to `mq_get`. -/
def oneMessageAtShutdown : List (LockLabel Nat) :=
  .callPut 1 :: List.replicate 5 (.exec .eventLoop) ++
    [.shutdown, .evalCondition, .exec .drain, .exec .drain, .exec .drain, .callGet]

theorem mqLock_not_disciplined : ¬ ∀ (s t : LockState Nat) tr, (mqLock Nat).init s →
    Run (mqLock Nat) s tr t → Disciplined t := by
  intro always
  have admitted : Admits (mqLock Nat) (.initial (fun p => ⟨p, p⟩) 0) oneMessageAtShutdown := by
    decide
  have disciplined := always _ _ _ ⟨_, _, rfl⟩ (.ofSchedule _ admitted)
  -- the drain thread asks for the mutex that its call of `mq_is_empty` has kept
  exact disciplined.requests .drain (mqGetBody.drop 1) (by decide) (by decide)

theorem mqLock_disciplined_iff_oneMessage :
    (∀ u, Visits (trace (mqLock Nat) (.initial (fun p => ⟨p, p⟩) 0) oneMessageAtShutdown)
        (exec (mqLock Nat) (.initial (fun p => ⟨p, p⟩) 0) oneMessageAtShutdown) u →
      Disciplined u) ↔
    ∀ p ∈ trace (mqLock Nat) (.initial (fun p => ⟨p, p⟩) 0) oneMessageAtShutdown,
      ¬ ReturnsFromIsEmpty p.1 p.2 :=
  mqLock_disciplined_iff ⟨_, _, rfl⟩ (.ofSchedule _ (by decide))

end ObdServer
