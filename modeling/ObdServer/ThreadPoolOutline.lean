import ObdServer.Lib.MonitorRules
import ObdServer.ThreadPoolProgram
import Mathlib.Tactic.SplitIfs

/-! # What holds where in threadpool.c

Whoever has the mutex finds a valid pool, apart from the stores it has begun itself; what
the threads know without the mutex is how far the pool's life has come.
-/

namespace ObdServer.PoolThreads

open Monitor Transition

variable {Task : Type} {n : Nat} {Adder : Type}

/-- The places at which a thread has the mutex; once freed, it is never given back. -/
def inside : ∀ i, Pc Task n Adder i → Bool
  | .main, pc =>
      match pc with
      | .destroyTest _ | .setShutdown _ | .broadcast | .destroyUnlock => true
      | .freePool | .returned | .refused => true
      | _ => false
  | .worker _, pc =>
      match pc with
      | .lock | .run _ | .exited => false
      | _ => true
  | .adder _, pc =>
      match pc with
      | .outside | .check _ | .lock _ => false
      | _ => true

/-- The pool once the thread at `pc` is through with the stores it has begun. -/
def settled : ∀ i, Pc Task n Adder i → Threadpool Task → Threadpool Task
  | .main, _, pool => pool
  | .worker _, pc, pool =>
      match pc with
      | .advance _ =>
          { pool with
            head := if pool.head + 1 = pool.queueSize then 0 else pool.head + 1
            count := pool.count - 1 }
      | .wrap _ =>
          { pool with
            head := if pool.head = pool.queueSize then 0 else pool.head
            count := pool.count - 1 }
      | .decrement _ => { pool with count := pool.count - 1 }
      | _ => pool
  | .adder _, pc, pool =>
      match pc with
      | .setTail next => { pool with tail := next, count := pool.count + 1 }
      | .increment => { pool with count := pool.count + 1 }
      | _ => pool

/-- What the thread at `pc` has found out under the mutex. -/
def Situation : ∀ i, Pc Task n Adder i → Threadpool Task → Prop
  | .main, _, _ => True
  | .worker _, pc, pool =>
      match pc with
      | .wait => pool.count = 0 ∧ pool.shutdown = .running
      | .decide => ¬ (pool.count = 0 ∧ pool.shutdown = .running)
      | .load => pool.count ≠ 0 ∧ pool.shutdown ≠ .immediate
      | .advance _ | .wrap _ | .decrement _ => pool.count ≠ 0
      | _ => True
  | .adder _, pc, pool =>
      let wrapped := if pool.tail + 1 = pool.queueSize then 0 else pool.tail + 1
      match pc with
      | .testFull _ next => next = wrapped
      | .testShutdown _ next => next = wrapped ∧ pool.count ≠ pool.queueSize
      | .store _ next =>
          next = wrapped ∧ pool.count ≠ pool.queueSize ∧ pool.shutdown = .running
      | .setTail _ | .increment => pool.shutdown = .running
      | _ => True

def assertion (i : Thread n Adder) (pc : Pc Task n Adder i) (d : PoolData Task) : Prop :=
  (settled i pc d.pool).Valid ∧ Situation i pc d.pool

/-- What a thread knows at `pc` without the mutex, `ended` being the threads that have
    ended: main how far the pool has come, a worker that leaves why it does. -/
def knows : ∀ i, Pc Task n Adder i → PoolData Task → (Thread n Adder → Prop) → Prop
  | .main, pc, d, ended =>
      let joined (i : Nat) := ∀ j : Fin n, j.val < i → ended (.worker j)
      let freed (queue pool : Bool) := d.queueFreed = queue ∧ d.poolFreed = pool
      match pc with
      | .create i =>
          d.pool.shutdown = .running ∧ d.threadCount = i ∧ i ≤ n ∧ freed false false
      | .pthreadCreate i | .countThread i =>
          d.pool.shutdown = .running ∧ d.threadCount = i ∧ i < n ∧ freed false false
      | .countStarted i =>
          d.pool.shutdown = .running ∧ d.threadCount = i + 1 ∧ i < n ∧ freed false false
      | .publish | .serving =>
          d.pool.shutdown = .running ∧ d.threadCount = n ∧ freed false false
      | .destroyLock _ | .destroyTest _ | .setShutdown _ =>
          d.pool.shutdown = .running ∧ d.threadCount ≤ n ∧ freed false false
      | .broadcast | .destroyUnlock =>
          d.pool.shutdown ≠ .running ∧ d.threadCount ≤ n ∧ freed false false
      | .joinTest i =>
          d.pool.shutdown ≠ .running ∧ d.threadCount ≤ n ∧ i ≤ d.threadCount ∧ joined i ∧
            freed false false
      | .joinThread i =>
          d.pool.shutdown ≠ .running ∧ d.threadCount ≤ n ∧ i < d.threadCount ∧ joined i ∧
            freed false false
      | .free | .freeQueue | .notFreed =>
          d.pool.shutdown ≠ .running ∧ d.threadCount ≤ n ∧ joined d.threadCount ∧
            freed false false
      | .freeLock | .freePool =>
          d.pool.shutdown ≠ .running ∧ d.threadCount ≤ n ∧ joined d.threadCount ∧
            freed true false
      | .returned =>
          d.pool.shutdown ≠ .running ∧ d.threadCount ≤ n ∧ joined d.threadCount ∧ freed true true
      | .refused => False
  | .worker _, pc, d, _ =>
      match pc with
      | .leave | .lastUnlock | .exited =>
          d.pool.shutdown ≠ .running ∧ (d.pool.shutdown = .graceful → d.pool.count = 0)
      | _ => True
  | .adder _, _, _, _ => True

/-! ## The statements, one by one -/

theorem bracketed : ∀ i (pc : Pc Task n Adder i),
    (program Task n Adder i pc).Bracketed inside pc
  | .main, pc => by
      cases pc <;> grind [program, mainStmt, Stmt.Bracketed, inside]
  | .worker j, pc => by
      cases pc <;> grind [program, workerStmt, Stmt.Bracketed, inside]
  | .adder a, pc => by
      cases pc with
      | outside =>
          intro k check
          cases k with
          | check => rfl
          | _ => cases check
      | _ => grind [program, adderStmt, Stmt.Bracketed, inside]

/-- A statement outside the mutex leaves the pool itself alone. -/
theorem keeps_outside {i : Thread n Adder} {pc : Pc Task n Adder i}
    {f : PoolData Task → PoolData Task × Pc Task n Adder i} (outside : inside i pc = false)
    (same : ∀ d, (f d).1.pool = d.pool) :
    (Stmt.act f).Keeps inside (fun d => d.pool.Valid) assertion pc := by
  rw [Stmt.Keeps, if_neg (by simp [outside])]
  intro d
  refine ⟨fun valid => by rwa [same], fun j k held => ?_⟩
  rw [assertion, same]
  exact held

theorem keeps : ∀ i (pc : Pc Task n Adder i),
    (program Task n Adder i pc).Keeps inside (fun d => d.pool.Valid) assertion pc
  | .main, pc => by
      cases pc with
      | create i =>
          simp only [program, mainStmt]
          split_ifs
          · exact nofun
          · exact keeps_outside rfl fun _ => rfl
      | pthreadCreate i | joinThread i =>
          simp only [program, mainStmt]
          split_ifs
          · exact nofun
          · trivial
      | countThread | countStarted | publish | joinTest | free | freeQueue =>
          exact keeps_outside rfl fun _ => rfl
      | serving => exact nofun
      | destroyLock | freeLock => exact fun d valid => ⟨valid, trivial⟩
      | destroyTest | freePool => exact fun d held => held
      | setShutdown =>
          rintro d ⟨valid, _⟩
          exact ⟨⟨valid.head, valid.tail, valid.count⟩, trivial⟩
      | broadcast => exact fun _ d held => held
      | destroyUnlock => exact fun d held => held.1
      | returned | refused | notFreed => trivial
  | .worker j, pc => by
      cases pc with
      | lock => exact fun d valid => ⟨valid, trivial⟩
      | test =>
          rintro d ⟨valid, _⟩
          change assertion (.worker j) (if _ then _ else _) _
          split_ifs with idle
          · exact ⟨valid, idle⟩
          · exact ⟨valid, idle⟩
      | wait => exact fun d => ⟨fun held => held.1, fun valid => ⟨valid, trivial⟩⟩
      | decide =>
          rintro d ⟨valid, busy⟩
          change assertion (.worker j) (if _ then _ else _) _
          split_ifs with leaves
          · exact ⟨valid, trivial⟩
          · refine ⟨valid, ?_, fun immediate => leaves (.inl immediate)⟩
            intro empty
            cases shutdown : d.pool.shutdown with
            | running => exact busy ⟨empty, shutdown⟩
            | immediate => exact leaves (.inl shutdown)
            | graceful => exact leaves (.inr ⟨shutdown, empty⟩)
      | load =>
          rintro d ⟨valid, some, _⟩
          exact ⟨Threadpool.grab_valid valid some, some⟩
      | advance | wrap => exact fun d held => held
      | decrement | leave => exact fun d held => ⟨held.1, trivial⟩
      | unlock | lastUnlock => exact fun d held => held.1
      | run => exact keeps_outside rfl fun _ => rfl
      | exited => trivial
  | .adder a, pc => by
      cases pc with
      | outside => exact nofun
      | check => exact keeps_outside rfl fun _ => rfl
      | lock => exact fun d valid => ⟨valid, trivial⟩
      | computeNext => exact fun d held => ⟨held.1, rfl⟩
      | testFull task next =>
          rintro d ⟨valid, wrapped⟩
          by_cases full : d.pool.count = d.pool.queueSize
          · simp only [if_pos full]
            exact ⟨valid, trivial⟩
          · simp only [if_neg full]
            exact ⟨valid, wrapped, full⟩
      | testShutdown task next =>
          rintro d ⟨valid, wrapped, room⟩
          by_cases running : d.pool.shutdown = .running
          · simp only [running, ne_eq, not_true_eq_false, if_false]
            exact ⟨valid, wrapped, room, running⟩
          · simp only [ne_eq, running, not_false_eq_true, if_true]
            exact ⟨valid, trivial⟩
      | store task next =>
          rintro d ⟨valid, rfl, room, running⟩
          have added : (threadpoolAdd d.pool task).2.Valid :=
            Threadpool.add_valid valid room running task
          rw [Threadpool.add_accepted room running] at added
          exact ⟨added, running⟩
      | setTail => exact fun d held => held
      | increment => exact fun d held => ⟨held.1, trivial⟩
      | signal => exact fun _ d held => held
      | unlock => exact fun d held => held.1

theorem main_knows {pc : MainPc} {d d' : PoolData Task} {ended : Thread n Adder → Prop}
    (shutdown : d'.pool.shutdown = d.pool.shutdown) (threadCount : d'.threadCount = d.threadCount)
    (queueFreed : d'.queueFreed = d.queueFreed) (poolFreed : d'.poolFreed = d.poolFreed)
    (known : knows .main pc d ended) : knows .main pc d' ended := by
  cases pc with
  | refused => exact known.elim
  | _ => simpa only [knows, shutdown, threadCount, queueFreed, poolFreed] using known

theorem worker_knows {j : Fin n} {pc : WorkerPc Task} {d d' : PoolData Task}
    {ended : Thread n Adder → Prop} (shutdown : d'.pool.shutdown = d.pool.shutdown)
    (count : d.pool.shutdown ≠ .running → d.pool.count = 0 → d'.pool.count = 0)
    (known : knows (.worker j) pc d ended) : knows (.worker j) pc d' ended := by
  cases pc with
  | leave | lastUnlock | exited =>
      refine ⟨shutdown ▸ known.1, fun graceful => count known.1 (known.2 ?_)⟩
      rwa [← shutdown]
  | _ => trivial

/-- What is known of the ended threads stays known when more have ended. -/
theorem knows_mono (i : Thread n Adder) (pc : Pc Task n Adder i) (d : PoolData Task)
    (E F : Thread n Adder → Prop) (more : ∀ j, E j → F j) (known : knows i pc d E) :
    knows i pc d F := by
  cases i with
  | main => cases pc <;> grind [knows]
  | worker j => cases pc <;> exact known
  | adder a => trivial

/-- A statement of a worker or an adder keeps what the others know. -/
theorem teaches_crew {i : Thread n Adder} {pc : Pc Task n Adder i}
    {f : PoolData Task → PoolData Task × Pc Task n Adder i}
    (mine : ∀ d E, assertion i pc d ∨ inside i pc = false → knows i pc d E →
      knows i (f d).2 (f d).1 E)
    (shutdown : ∀ d, (f d).1.pool.shutdown = d.pool.shutdown)
    (threadCount : ∀ d, (f d).1.threadCount = d.threadCount)
    (queueFreed : ∀ d, (f d).1.queueFreed = d.queueFreed)
    (poolFreed : ∀ d, (f d).1.poolFreed = d.poolFreed)
    (count : ∀ d, assertion i pc d ∨ inside i pc = false → d.pool.shutdown ≠ .running →
      d.pool.count = 0 → (f d).1.pool.count = 0) :
    (Stmt.act f).Teaches inside assertion knows pc := by
  intro d E held known
  have here : assertion i pc d ∨ inside i pc = false := by
    cases within : inside i pc with
    | true => exact .inl (held within)
    | false => exact .inr rfl
  refine ⟨mine d E here known, fun j other k before => ?_⟩
  cases j with
  | main => exact main_knows (shutdown d) (threadCount d) (queueFreed d) (poolFreed d) before
  | worker j => exact worker_knows (shutdown d) (count d here) before
  | adder a => trivial

/-- A statement of main that leaves the pool itself alone. -/
theorem teaches_main {pc : MainPc}
    {f : PoolData Task → PoolData Task × Pc Task n Adder .main}
    (mine : ∀ d E, @knows Task n Adder .main pc d E →
      knows .main (f d).2 (f d).1 E)
    (same : ∀ d, (f d).1.pool = d.pool) :
    (Stmt.act f).Teaches inside assertion knows pc := by
  intro d E _ known
  refine ⟨mine d E known, fun j other k before => ?_⟩
  cases j with
  | main => exact absurd rfl other
  | worker j =>
      exact worker_knows (by rw [same]) (fun _ empty => by rw [same]; exact empty) before
  | adder a => trivial

theorem teaches : ∀ i (pc : Pc Task n Adder i),
    (program Task n Adder i pc).Teaches inside assertion knows pc
  | .main, pc => by
      cases pc with
      | create i =>
          simp only [program, mainStmt]
          split_ifs with more
          · intro k may d E known
            simp only [decide_eq_true_eq] at may
            rcases may with rfl | rfl <;> grind [knows]
          · exact teaches_main (by grind [knows]) fun _ => rfl
      | pthreadCreate i =>
          simp only [program, mainStmt]
          split_ifs with more
          · exact fun d E known => ⟨known, trivial⟩
          · trivial
      | joinThread i =>
          simp only [program, mainStmt]
          split_ifs with more
          · rintro d E stopped ⟨down, all, less, joined, freed⟩
            refine ⟨down, all, less, fun j before => ?_, freed⟩
            rcases Nat.lt_succ_iff_lt_or_eq.mp before with earlier | rfl
            · exact joined j earlier
            · exact stopped
          · trivial
      | countThread | countStarted | publish | joinTest | free | freeQueue =>
          exact teaches_main (by grind [knows]) fun _ => rfl
      | serving =>
          intro k may d E known
          simp only [decide_eq_true_eq] at may
          rcases may with rfl | rfl <;> grind [knows]
      | destroyLock | freeLock | broadcast => exact fun d E known => known
      | destroyTest => exact teaches_main (by grind [knows]) fun _ => rfl
      | freePool => exact teaches_main (by grind [knows]) fun _ => rfl
      | setShutdown graceful =>
          rintro d E _ ⟨running, all, freed⟩
          refine ⟨⟨by cases graceful <;> exact nofun, all, freed⟩, fun j other k before => ?_⟩
          cases j with
          | main => exact absurd rfl other
          | worker j =>
              -- no worker has seen a shutdown yet
              cases k with
              | leave | lastUnlock | exited => exact absurd running before.1
              | _ => trivial
          | adder a => trivial
      | destroyUnlock =>
          exact fun d E known => ⟨known.1, known.2.1, Nat.zero_le _, nofun, known.2.2⟩
      | returned | refused | notFreed => trivial
  | .worker j, pc => by
      cases pc with
      | lock | wait | unlock => exact fun d E known => trivial
      | lastUnlock => exact fun d E known => known
      | exited => trivial
      | decide =>
          refine teaches_crew (fun d E held _ => ?_) (fun _ => rfl) (fun _ => rfl) (fun _ => rfl)
            (fun _ => rfl) fun _ _ _ empty => empty
          dsimp only
          split_ifs with leaves
          · rcases leaves with immediate | ⟨graceful, empty⟩
            · exact ⟨by simp [immediate], by simp [immediate]⟩
            · exact ⟨by simp [graceful], fun _ => empty⟩
          · trivial
      | decrement =>
          exact teaches_crew (fun _ _ _ _ => trivial) (fun _ => rfl) (fun _ => rfl)
            (fun _ => rfl) (fun _ => rfl) fun _ _ _ empty => by simp [empty]
      | leave =>
          exact teaches_crew (fun _ _ _ known => known) (fun _ => rfl) (fun _ => rfl)
            (fun _ => rfl) (fun _ => rfl) fun _ _ _ empty => empty
      | test =>
          refine teaches_crew (fun d E _ _ => ?_) (fun _ => rfl) (fun _ => rfl) (fun _ => rfl)
            (fun _ => rfl) fun _ _ _ empty => empty
          dsimp only
          split_ifs <;> trivial
      | load | advance | wrap | run =>
          exact teaches_crew (fun _ _ _ _ => trivial) (fun _ => rfl) (fun _ => rfl)
            (fun _ => rfl) (fun _ => rfl) fun _ _ _ empty => empty
  | .adder a, pc => by
      cases pc with
      | outside => exact fun _ _ _ _ _ => trivial
      | lock | signal | unlock => exact fun _ _ _ => trivial
      | increment =>
          refine teaches_crew (fun _ _ _ _ => trivial) (fun _ => rfl) (fun _ => rfl)
            (fun _ => rfl) (fun _ => rfl) fun d held down _ => ?_
          rcases held with ⟨_, running⟩ | outside
          · exact absurd running down
          · cases outside
      | testFull task next =>
          refine teaches_crew (fun _ _ _ _ => trivial) (fun d => ?_) (fun d => ?_) (fun d => ?_)
            (fun d => ?_) fun d _ _ empty => ?_
          all_goals split_ifs <;> first | rfl | exact empty
      | testShutdown task next =>
          refine teaches_crew (fun _ _ _ _ => trivial) (fun d => ?_) (fun d => ?_) (fun d => ?_)
            (fun d => ?_) fun d _ _ empty => ?_
          all_goals split_ifs <;> first | rfl | exact empty
      | check | computeNext | store | setTail =>
          exact teaches_crew (fun _ _ _ _ => trivial) (fun _ => rfl) (fun _ => rfl)
            (fun _ => rfl) (fun _ => rfl) fun _ _ _ empty => empty

/-- The place after `pthread_cond_wait`, the only one at which a thread waits. -/
def WaitsAt : ∀ i, Pc Task n Adder i → Prop
  | .worker _, pc => pc = .test
  | _, _ => False

theorem waits : ∀ i (pc k : Pc Task n Adder i), program Task n Adder i pc = .wait k →
    WaitsAt i k
  | .main, pc, k, stmt => by
      cases pc <;> grind [program, mainStmt]
  | .worker j, pc, k, stmt => by
      cases pc <;> grind [program, workerStmt, WaitsAt]
  | .adder a, pc, k, stmt => by
      cases pc <;> grind [program, adderStmt]

/-! ## Every reachable state -/

/-- Everything above, in one state. -/
structure Sound (s : PoolState Task n Adder) : Prop where
  exclusive : Exclusive inside s
  asserted : Asserted inside (fun d => d.pool.Valid) assertion s
  known : Known knows (program Task n Adder) s
  parks : Parks WaitsAt s

theorem sound_initial (queue : Nat → Task) (queueSize : Nat) :
    Sound (initial n Adder queue queueSize) where
  exclusive := by
    constructor <;> intro i <;> cases i <;> simp [initial, Status.holds, Status.parked, inside]
  asserted := by
    refine ⟨fun _ => Threadpool.create_valid queue queueSize, fun i pc place within => ?_,
      fun i k parked => ?_⟩
    · cases i <;> cases place <;> cases within
    · cases i <;> cases parked
  known i k place := by
    cases i with
    | main =>
        cases place
        exact ⟨rfl, rfl, Nat.zero_le n, rfl, rfl⟩
    | worker j => cases place
    | adder a => trivial
  parks i k parked := by
    cases i <;> cases parked

variable [DecidableEq Adder]

theorem Sound.step {s s' : PoolState Task n Adder} {l : Label (Pc Task n Adder)}
    (sound : Sound s) (step : Step (program Task n Adder) s l s') : Sound s' where
  exclusive := sound.exclusive.step bracketed step
  asserted := sound.asserted.step bracketed keeps sound.exclusive step
  known := sound.known.step teaches knows_mono sound.asserted.held step
  parks := sound.parks.step waits step

theorem sound_of_run {queue : Nat → Task} {queueSize : Nat}
    {tr : List (PoolState Task n Adder × Label (Pc Task n Adder))} {s : PoolState Task n Adder}
    (run : Run (threads Task n Adder) (initial n Adder queue queueSize) tr s) : Sound s :=
  run.preserves Sound (fun _ _ sound enabled => sound.step (step_of_enabled enabled))
    (sound_initial queue queueSize)

end ObdServer.PoolThreads
