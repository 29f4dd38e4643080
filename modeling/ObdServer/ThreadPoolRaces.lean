import ObdServer.ThreadPoolLifetime

/-! # Who touches the fields of the pool

The fields a statement uses, and where two threads are about to use one field, one of them
writing it. Of what the source does without the mutex, when the pool is created, joined and
freed, only its end is not safe: nothing keeps a late call of `threadpool_add` from the mutex
that is destroyed.
-/

namespace ObdServer.PoolThreads

open Monitor Transition

/-- The members of `threadpool_t`. -/
inductive Field where
  | lock
  | notify
  | threads
  | queue
  | threadCount
  | queueSize
  | head
  | tail
  | count
  | shutdown
  | started
  deriving DecidableEq, Repr

variable {Task : Type} {n : Nat} {Adder : Type}

/-- The fields a statement writes; destroying a field or freeing its memory counts as
    writing it. -/
def writes : ∀ i, Pc Task n Adder i → List Field
  | .main, pc =>
      match pc with
      | .pthreadCreate _ => [.threads]
      | .countThread _ => [.threadCount]
      | .countStarted _ => [.started]
      | .setShutdown _ => [.shutdown]
      | .freeQueue => [.threads, .queue]
      | .freePool =>
          [.lock, .notify, .threads, .queue, .threadCount, .queueSize, .head, .tail, .count,
            .shutdown, .started]
      | _ => []
  | .worker _, pc =>
      match pc with
      | .advance _ | .wrap _ => [.head]
      | .decrement _ => [.count]
      | .leave => [.started]
      | _ => []
  | .adder _, pc =>
      match pc with
      | .store _ _ => [.queue]
      | .setTail _ => [.tail]
      | .increment => [.count]
      | _ => []

/-- The fields a statement reads, the pthread calls included; `threadpool_create` prints
    `started` before it returns. -/
def reads : ∀ i, Pc Task n Adder i → List Field
  | .main, pc =>
      match pc with
      | .countThread _ | .joinTest _ => [.threadCount]
      | .countStarted _ | .publish => [.started]
      | .destroyLock _ | .destroyUnlock | .freeLock => [.lock]
      | .destroyTest _ => [.shutdown]
      | .broadcast => [.notify]
      | .joinThread _ => [.threads]
      | .free => [.started, .threads]
      | _ => []
  | .worker _, pc =>
      match pc with
      | .lock | .unlock _ | .lastUnlock => [.lock]
      | .test | .decide => [.count, .shutdown]
      | .wait => [.notify, .lock]
      | .load => [.queue, .head]
      | .advance _ => [.head]
      | .wrap _ => [.head, .queueSize]
      | .decrement _ => [.count]
      | .leave => [.started]
      | _ => []
  | .adder _, pc =>
      match pc with
      | .lock _ | .unlock _ => [.lock]
      | .computeNext _ => [.tail, .queueSize]
      | .testFull _ _ => [.count, .queueSize]
      | .testShutdown _ _ => [.shutdown]
      | .store _ _ => [.tail]
      | .increment => [.count]
      | .signal => [.notify]
      | _ => []

def uses (i : Thread n Adder) (pc : Pc Task n Adder i) : List Field :=
  writes i pc ++ reads i pc

def writesAt (i : Thread n Adder) : Status (Pc Task n Adder i) → List Field
  | .ready pc => writes i pc
  | _ => []

/-- A thread in `pthread_cond_wait` is about to leave the condition variable and to get the
    mutex back. -/
def usesAt (i : Thread n Adder) : Status (Pc Task n Adder i) → List Field
  | .unborn => []
  | .ready pc => uses i pc
  | .asleep _ | .woken _ => [.notify, .lock]

/-- Two threads are about to use one field, and one of them writes it. -/
def Race (s : PoolState Task n Adder) : Prop :=
  ∃ i j field, i ≠ j ∧ field ∈ writesAt i (s.threads i) ∧ field ∈ usesAt j (s.threads j)

/-! ## The footprints are right -/

/-- Two pools agree on a field. The mutex and the condition variable are the monitor's, and
    the ids in `threads` are the workers. -/
def Field.Agrees (d d' : PoolData Task) : Field → Prop
  | .lock | .notify | .threads => True
  | .queue => d.pool.queue = d'.pool.queue
  | .threadCount => d.threadCount = d'.threadCount
  | .queueSize => d.pool.queueSize = d'.pool.queueSize
  | .head => d.pool.head = d'.pool.head
  | .tail => d.pool.tail = d'.pool.tail
  | .count => d.pool.count = d'.pool.count
  | .shutdown => d.pool.shutdown = d'.pool.shutdown
  | .started => d.started = d'.started

/-- The field that a pthread call is given. -/
def callFields {i : Thread n Adder} : Stmt (PoolData Task) (Pc Task n Adder) i → List Field
  | .lock _ | .unlock _ => [.lock]
  | .wait _ => [.notify, .lock]
  | .signal _ | .broadcast _ => [.notify]
  | .spawn _ _ _ | .join _ _ => [.threads]
  | .act _ | .choose _ | .stop => []

/-- A pthread call uses the fields that it is given. -/
theorem call_uses {i : Thread n Adder} {pc : Pc Task n Adder i} {field : Field}
    (given : field ∈ callFields (program Task n Adder i pc)) : field ∈ uses i pc := by
  cases i with
  | main =>
      cases pc with
      | create i | pthreadCreate i | joinThread i =>
          simp only [program, mainStmt] at given
          split_ifs at given <;> simp_all [callFields, uses, writes, reads]
      | _ => simp_all [program, mainStmt, callFields, uses, writes, reads]
  | worker j => cases pc <;> simp_all [program, workerStmt, callFields, uses, writes, reads]
  | adder a => cases pc <;> simp_all [program, adderStmt, callFields, uses, writes, reads]

/-- A statement changes no field but those it writes. -/
theorem unwritten {i : Thread n Adder} {pc : Pc Task n Adder i}
    {f : PoolData Task → PoolData Task × Pc Task n Adder i}
    (stmt : program Task n Adder i pc = .act f) (d : PoolData Task) (field : Field)
    (spared : field ∉ writes i pc) : field.Agrees (f d).1 d := by
  cases i with
  | main =>
      cases pc with
      | create i | pthreadCreate i | joinThread i =>
          simp only [program, mainStmt] at stmt
          split_ifs at stmt
          all_goals cases stmt; cases field <;> first | exact trivial | rfl
      | _ =>
          cases stmt <;> cases field <;>
            first | exact trivial | rfl | exact absurd (by simp [writes]) spared
  | worker j =>
      cases pc <;> cases stmt <;> cases field <;>
        first | exact trivial | rfl | exact absurd (by simp [writes]) spared
  | adder a =>
      cases pc with
      | testFull | testShutdown =>
          cases stmt
          dsimp only
          split_ifs <;> cases field <;> first | exact trivial | rfl
      | _ =>
          cases stmt <;> cases field <;>
            first | exact trivial | rfl | exact absurd (by simp [writes]) spared

/-- Where it goes and what it makes of a field depends on the fields it reads and on that
    field, besides whether the caller has the pool. -/
theorem unread {i : Thread n Adder} {pc : Pc Task n Adder i}
    {f : PoolData Task → PoolData Task × Pc Task n Adder i}
    (stmt : program Task n Adder i pc = .act f) {d d' : PoolData Task}
    (published : d.published = d'.published)
    (agree : ∀ field ∈ reads i pc, field.Agrees d d') :
    (f d).2 = (f d').2 ∧ ∀ field : Field, field.Agrees d d' → field.Agrees (f d).1 (f d').1 := by
  cases i with
  | main =>
      cases pc with
      | create i | pthreadCreate i | joinThread i =>
          simp only [program, mainStmt] at stmt
          split_ifs at stmt
          all_goals cases stmt; exact ⟨rfl, fun _ same => same⟩
      | destroyTest graceful =>
          cases stmt
          have same : d.pool.shutdown = d'.pool.shutdown := agree .shutdown (by simp [reads])
          exact ⟨by simp only [same], fun _ agrees => agrees⟩
      | joinTest i =>
          cases stmt
          have same : d.threadCount = d'.threadCount := agree .threadCount (by simp [reads])
          exact ⟨by simp only [same], fun _ agrees => agrees⟩
      | free =>
          cases stmt
          have same : d.started = d'.started := agree .started (by simp [reads])
          exact ⟨by simp only [same], fun _ agrees => agrees⟩
      | _ =>
          cases stmt <;> refine ⟨rfl, fun field same => ?_⟩ <;> cases field <;>
            first | exact same | exact congrArg (· + 1) same | rfl
  | worker j =>
      cases pc <;> cases stmt <;>
        simp only [reads, List.forall_mem_cons, Field.Agrees] at agree <;>
        refine ⟨by grind, fun field same => ?_⟩ <;> cases field <;>
        first | exact same | grind [Field.Agrees]
  | adder a =>
      cases pc <;> cases stmt <;>
        simp only [reads, List.forall_mem_cons, Field.Agrees] at agree <;>
        refine ⟨by grind, fun field same => ?_⟩ <;> cases field <;>
        first | exact same | grind [Field.Agrees]

/-! ## The races -/

/-- But for the mutex itself, workers and adders use the fields inside the mutex only. -/
theorem crew_inside {i : Thread n Adder} (crew : i ≠ .main) {pc : Pc Task n Adder i}
    {field : Field} (used : field ∈ uses i pc) (notLock : field ≠ .lock) :
    inside i pc = true := by
  cases i with
  | main => exact absurd rfl crew
  | worker j =>
      cases pc <;>
        first | rfl | exact absurd (List.mem_singleton.mp used) notLock | cases used
  | adder a =>
      cases pc <;>
        first | rfl | exact absurd (List.mem_singleton.mp used) notLock | cases used

/-- The number and the ids of the workers are main's. -/
theorem crew_spares {i : Thread n Adder} (crew : i ≠ .main) {pc : Pc Task n Adder i}
    {field : Field} (used : field ∈ uses i pc) : field ≠ .threadCount ∧ field ≠ .threads := by
  cases i with
  | main => exact absurd rfl crew
  | worker j => cases pc <;> constructor <;> rintro rfl <;> simp [uses, writes, reads] at used
  | adder a => cases pc <;> constructor <;> rintro rfl <;> simp [uses, writes, reads] at used

theorem crew_writes_data {i : Thread n Adder} (crew : i ≠ .main) {pc : Pc Task n Adder i}
    {field : Field} (written : field ∈ writes i pc) : field ≠ .lock ∧ field ≠ .notify := by
  cases i with
  | main => exact absurd rfl crew
  | worker j => cases pc <;> simp_all [writes]
  | adder a => cases pc <;> simp_all [writes]

/-- Only where it frees the pool, main writes the mutex and the condition variable. -/
theorem main_writes_data {pc : MainPc} (living : pc ≠ .freePool) {field : Field}
    (written : field ∈ @writes Task n Adder .main pc) : field ≠ .lock ∧ field ≠ .notify := by
  cases pc with
  | freePool => exact absurd rfl living
  | freeQueue => rcases List.mem_pair.mp written with rfl | rfl <;> simp
  | _ => simp_all [writes]

variable [DecidableEq Adder] [Fintype Adder] {s : PoolState Task n Adder}
  {queue : Nat → Task} {queueSize : Nat}
  {tr : List (PoolState Task n Adder × Label (Pc Task n Adder))}

/-- A worker that main has joined uses nothing. -/
theorem gone_unused (run : Run (threads Task n Adder) (initial n Adder queue queueSize) tr s)
    {pc : MainPc} (place : s.threads .main = .ready pc) (joined : pc.joined = true) (j : Fin n)
    {pc' : Pc Task n Adder (.worker j)} (there : s.threads (.worker j) = .ready pc')
    {field : Field} : field ∉ uses (.worker j) pc' := by
  intro used
  rcases crew_gone run place joined j with gone | gone <;> cases there.symm.trans gone
  cases used

/-- Before the pool is freed, what main uses without the mutex nobody else is about to use, the
    mutex itself apart. -/
theorem main_alone (run : Run (threads Task n Adder) (initial n Adder queue queueSize) tr s)
    {pc : MainPc} (place : s.threads .main = .ready pc)
    (outside : @inside Task n Adder .main pc = false) {field : Field}
    (used : field ∈ @uses Task n Adder .main pc) (notLock : field ≠ .lock) {i : Thread n Adder}
    (crew : i ≠ .main) {pc' : Pc Task n Adder i} (there : s.threads i = .ready pc') :
    field ∉ uses i pc' := by
  intro crewUses
  have sound := sound_of_run run
  have main := sound.known .main pc (by rw [place]; rfl)
  have other := sound.known i pc' (by rw [there]; rfl)
  have held := sound.asserted.held i pc' there (crew_inside crew crewUses notLock)
  have spared := crew_spares crew crewUses
  cases pc with
  | countThread k | joinTest k => exact spared.1 (by simpa [uses, writes, reads] using used)
  | pthreadCreate k | joinThread k => exact spared.2 (by simpa [uses, writes, reads] using used)
  | destroyLock | freeLock => exact notLock (by simpa [uses, writes, reads] using used)
  | countStarted | publish =>
      obtain rfl : field = .started := by simpa [uses, writes, reads] using used
      cases i with
      | main => exact absurd rfl crew
      | worker j =>
          -- a worker at `leave` has seen a shutdown
          cases pc' <;> first | exact absurd main.1 other.1 | simp [uses, writes, reads] at crewUses
      | adder a => cases pc' <;> simp [uses, writes, reads] at crewUses
  | free =>
      have either : field = .started ∨ field = .threads := by
        simpa [uses, writes, reads] using used
      obtain rfl := either.resolve_right spared.2
      cases i with
      | main => exact absurd rfl crew
      | worker j => exact gone_unused run place rfl j there crewUses
      | adder a => cases pc' <;> simp [uses, writes, reads] at crewUses
  | freeQueue =>
      have either : field = .threads ∨ field = .queue := by
        simpa [uses, writes, reads] using used
      obtain rfl := either.resolve_left spared.2
      cases i with
      | main => exact absurd rfl crew
      | worker j => exact gone_unused run place rfl j there crewUses
      | adder a =>
          -- an adder that stores has seen the pool running, under the mutex
          cases pc' <;>
            first | exact absurd held.2.2.2 main.1 | simp [uses, writes, reads] at crewUses
  | freePool => cases outside
  | _ => simp [uses, writes, reads, inside] at used outside

omit [DecidableEq Adder] [Fintype Adder] in
theorem writesAt_subset {i : Thread n Adder} (st : Status (Pc Task n Adder i)) :
    writesAt i st ⊆ usesAt i st := by
  cases st with
  | ready pc => exact List.subset_append_left _ _
  | unborn | asleep | woken => exact List.nil_subset _

/-- Where the pool is freed, only a caller that is about to lock the mutex uses it besides. -/
theorem late_locks (run : Run (threads Task n Adder) (initial n Adder queue queueSize) tr s)
    (freeing : s.threads .main = .ready .freePool) {i : Thread n Adder} (crew : i ≠ .main)
    {field : Field} (used : field ∈ usesAt i (s.threads i)) :
    ∃ a task, s.threads (.adder a) = .ready (.lock task) := by
  cases i with
  | main => exact absurd rfl crew
  | worker j =>
      rcases crew_gone run freeing rfl j with gone | gone <;> rw [gone] at used <;> cases used
  | adder a =>
      obtain ⟨pc, there⟩ := stands run (.adder a) (by simp)
      have outside : inside (.adder a : Thread n Adder) pc = false := by
        by_contra within
        have same := (sound_of_run run).exclusive.unique freeing there rfl (by simpa using within)
        cases same
      rw [there] at used
      cases pc with
      | lock task => exact ⟨a, task, there⟩
      | outside | check => cases used
      | _ => cases outside

/-- But for the freeing of the pool, no two threads are about to use one field, one of them
    writing it. -/
theorem unraced (run : Run (threads Task n Adder) (initial n Adder queue queueSize) tr s)
    (living : s.threads .main ≠ .ready .freePool) : ¬ Race s := by
  rintro ⟨i, j, field, other, written, used⟩
  obtain ⟨pc, here, written⟩ : ∃ pc, s.threads i = .ready pc ∧ field ∈ writes i pc := by
    cases place : s.threads i with
    | ready pc => exact ⟨pc, rfl, by simpa only [place, writesAt] using written⟩
    | unborn | asleep | woken =>
        rw [place] at written
        cases written
  have usedHere : field ∈ uses i pc := List.mem_append_left _ written
  obtain ⟨notLock, notNotify⟩ : field ≠ .lock ∧ field ≠ .notify := by
    by_cases main : i = .main
    · subst main
      exact main_writes_data (fun same => living (here.trans (by rw [same]))) written
    · exact crew_writes_data main written
  obtain ⟨pc', there, used⟩ : ∃ pc', s.threads j = .ready pc' ∧ field ∈ uses j pc' := by
    cases place : s.threads j with
    | ready pc' => exact ⟨pc', rfl, by simpa only [place, usesAt] using used⟩
    | unborn =>
        rw [place] at used
        cases used
    | asleep | woken =>
        rw [place] at used
        rcases List.mem_pair.mp used with same | same
        · exact absurd same notNotify
        · exact absurd same notLock
  cases insideHere : inside i pc with
  | true =>
      cases insideThere : inside j pc' with
      | true => exact other ((sound_of_run run).exclusive.unique here there insideHere insideThere)
      | false =>
          by_cases main : j = .main
          · subst main
            exact main_alone run there insideThere used notLock other here usedHere
          · exact absurd (crew_inside main used notLock) (by simp [insideThere])
  | false =>
      by_cases main : i = .main
      · subst main
        exact main_alone run here insideHere usedHere notLock other.symm there used
      · exact absurd (crew_inside main usedHere notLock) (by simp [insideHere])

/-- threadpool.c has one race, in any order of its threads' statements: main is about to destroy
    the mutex and free the pool, and a caller of `threadpool_add` is about to lock the mutex. -/
theorem threadpool_races_iff
    (run : Run (threads Task n Adder) (initial n Adder queue queueSize) tr s) :
    Race s ↔ s.threads .main = .ready .freePool ∧
      ∃ a task, s.threads (.adder a) = .ready (.lock task) := by
  constructor
  · intro race
    by_cases freeing : s.threads .main = .ready .freePool
    · obtain ⟨i, j, field, other, written, used⟩ := race
      refine ⟨freeing, ?_⟩
      by_cases main : j = .main
      · have crew : i ≠ .main := fun same => other (same.trans main.symm)
        exact late_locks run freeing crew (writesAt_subset _ written)
      · exact late_locks run freeing main used
    · exact absurd race (unraced run freeing)
  · rintro ⟨freeing, a, task, locks⟩
    refine ⟨.main, .adder a, .lock, by simp, ?_, ?_⟩
    · simp [freeing, writesAt, writes]
    · simp [locks, usesAt, uses, writes, reads]

/-- A caller has passed the test for NULL while the pool is shut down. -/
def lateCall : List (Label (Pc Nat 1 Unit)) :=
  .choose .main (.pthreadCreate 0) :: List.replicate 5 (.run .main) ++
    .choose (.adder ()) (.check 5) :: .run (.adder ()) ::
    .choose .main (.destroyLock false) :: List.replicate 5 (.run .main) ++
    List.replicate 5 (.run (.worker ⟨0, Nat.zero_lt_one⟩)) ++ List.replicate 6 (.run .main)

theorem lateCall_run : Run (threads Nat 1 Unit) (initial 1 Unit (fun _ => 0) 1)
    (trace (threads Nat 1 Unit) (initial 1 Unit (fun _ => 0) 1) lateCall)
    (exec (threads Nat 1 Unit) (initial 1 Unit (fun _ => 0) 1) lateCall) :=
  .ofSchedule lateCall (by decide)

theorem threadpool_races_iff_lateCall :
    Race (exec (threads Nat 1 Unit) (initial 1 Unit (fun _ => 0) 1) lateCall) :=
  (threadpool_races_iff lateCall_run).mpr ⟨by decide, (), 5, by decide⟩

end ObdServer.PoolThreads
