import ObdServer.ThreadPoolLifetime
import ObdServer.ThreadPoolRefinement
import ObdServer.ThreadPoolWakeups

/-! # What the threads of the pool come to

The threads can stop only where there is nothing left to do: the adders outside, the
workers asleep at an empty queue or gone, main serving or done with `threadpool_destroy`.
By then every accepted task has been run once, but for those an immediate shutdown leaves.
-/

namespace ObdServer.PoolThreads

open Monitor Transition

variable {Task : Type} {n : Nat} {Adder : Type} [DecidableEq Adder] [Fintype Adder]
  {s : PoolState Task n Adder} {queue : Nat → Task} {queueSize : Nat}
  {tr : List (PoolState Task n Adder × Label (Pc Task n Adder))}

/-! ## First in, first out -/

omit [Fintype Adder] in
theorem fifo_of_threads
    (run : Run (threads Task n Adder) (initial n Adder queue queueSize) tr s) :
    TaskPool.Fifo (view s) := by
  have kept : Sound s ∧ TaskPool.Fifo (view s) := by
    refine run.preserves (fun u => Sound u ∧ TaskPool.Fifo (view u)) ?_
      ⟨sound_initial queue queueSize, Threadpool.create_valid queue queueSize, rfl⟩
    rintro u l ⟨sound, fifo⟩ enabled
    have step := step_of_enabled enabled
    refine ⟨sound.step step, ?_⟩
    rcases step_answered sound step with same | ⟨label, may, made⟩
    · exact same ▸ fifo
    · exact made ▸ fifo.step may
  exact kept.2

/-- First in, first out, and each task once: what was accepted was taken, in this order, or
    waits; what was taken is finished or in one worker's hand. -/
theorem threadpool_order
    (run : Run (threads Task n Adder) (initial n Adder queue queueSize) tr s) :
    s.data.accepted = s.data.taken ++ (settledPool s).tasks ∧
      (s.data.taken : Multiset Task) =
        s.data.finished + ∑ j : Fin n, (hand (s.threads (.worker j)) : Multiset Task) :=
  ⟨(fifo_of_threads run).order, taken_eq run⟩

theorem threadpool_order_adding :
    let s := exec (threads Nat 1 Unit) (initial 1 Unit (fun _ => 0) 1) adding
    s.data.accepted = s.data.taken ++ (settledPool s).tasks ∧
      (s.data.taken : Multiset Nat) =
        s.data.finished + ∑ j : Fin 1, (hand (s.threads (.worker j)) : Multiset Nat) :=
  threadpool_order adding_run

/-! ## Nobody sleeps through a shutdown -/

/-- Once the pool is shut down, main owes the sleepers its broadcast. -/
def owed : ∀ i : Thread n Adder, Status (Pc Task n Adder i) → ℕ
  | .main, .ready .broadcast => 1
  | _, _ => 0

omit [DecidableEq Adder] [Fintype Adder] in
theorem broadcast_meets : ∀ i (pc : Pc Task n Adder i),
    (program Task n Adder i pc).Meets (fun _ => True)
      (fun d => if d.pool.shutdown = .running then 0 else 1) owed facts WaitsAt pc
  | .main, pc => by
      cases pc <;> grind [program, mainStmt, Stmt.Meets, owed]
  | .worker j, pc => by
      cases pc with
      | wait => exact fun d fact _ => if_pos (fact.1 rfl).2.2
      | _ => grind [program, workerStmt, Stmt.Meets, owed]
  | .adder a, pc => by
      cases pc with
      | signal => exact fun j k _ => by cases j <;> exact Nat.le_refl _
      | _ => grind [program, adderStmt, Stmt.Meets, owed]

theorem awake_after_broadcast
    (run : Run (threads Task n Adder) (initial n Adder queue queueSize) tr s)
    (down : s.data.pool.shutdown ≠ .running) (broadcast : s.threads .main ≠ .ready .broadcast)
    (i : Thread n Adder) : (s.threads i).isAsleep = false := by
  have kept : Sound s ∧ Met (fun _ => True)
      (fun d => if d.pool.shutdown = .running then 0 else 1) owed s := by
    refine run.preserves (fun u => Sound u ∧ Met _ _ owed u) ?_
      ⟨sound_initial queue queueSize, fun _ j asleep => by cases j <;> cases asleep⟩
    rintro u l ⟨sound, met⟩ enabled
    have step := step_of_enabled enabled
    exact ⟨sound.step step, met.step broadcast_meets (fun i k _ => by cases i <;> simp [owed])
      (fun i k _ => by cases i <;> simp [owed]) sound.facts sound.parks step⟩
  by_contra asleep
  have due := kept.2 trivial i (by simpa using asleep)
  have nothing : s.total owed = 0 := Finset.sum_eq_zero fun i _ => by
    cases i with
    | main =>
        cases status : s.threads .main with
        | ready pc => cases pc <;> first | rfl | exact absurd status broadcast
        | unborn | asleep | woken => rfl
    | worker | adder => rfl
  simp only [nothing, if_neg down] at due
  cases due

/-! ## At rest -/

/-- No thread can go on unless it is given more to do: there is no step but calls of
    `threadpool_add`, wakeups for no reason, and the decision to destroy the pool. -/
def Rests (s : PoolState Task n Adder) : Prop :=
  ∀ l, Enabled (program Task n Adder) s l → External l = true ∨
    (s.threads .main = .ready .serving ∧ ∃ k, l = .choose .main k)

omit [Fintype Adder] [DecidableEq Adder] in
theorem Rests.not_run (rests : Rests s) (i : Thread n Adder) :
    ¬ Enabled (program Task n Adder) s (.run i) := by
  intro enabled
  rcases rests _ enabled with external | ⟨_, _, label⟩
  · cases i <;> cases external
  · cases label

omit [Fintype Adder] [DecidableEq Adder] in
theorem Rests.not_notify (rests : Rests s) (i j : Thread n Adder) :
    ¬ Enabled (program Task n Adder) s (.notify i j) := by
  intro enabled
  rcases rests _ enabled with external | ⟨_, _, label⟩
  · cases i <;> cases external
  · cases label

omit [DecidableEq Adder] [Fintype Adder] in
/-- The statements inside the mutex do not block. -/
theorem inside_goes {i : Thread n Adder} {pc : Pc Task n Adder i} (within : inside i pc = true)
    (place : s.threads i = .ready pc) (goes : (program Task n Adder i pc).isStop = false) :
    Enabled (program Task n Adder) s (.run i) ∨
      ∃ j, Enabled (program Task n Adder) s (.notify i j) := by
  have ready := enabled_of_ready (P := program Task n Adder) place
  cases i with
  | main =>
      cases pc with
      | returned | refused => simp [program, mainStmt, Stmt.isStop] at goes
      | _ => first | exact .inl (ready trivial) | exact absurd within Bool.false_ne_true
  | worker j =>
      cases pc <;> first | exact .inl (ready trivial) | exact absurd within Bool.false_ne_true
  | adder a =>
      cases pc with
      | signal =>
          by_cases nobody : ∀ j, (s.threads j).isAsleep = false
          · exact .inl (ready nobody)
          · obtain ⟨j, asleep⟩ := not_forall.mp nobody
            exact .inr ⟨j, by simpa [Enabled, place, program, adderStmt] using asleep⟩
      | _ => first | exact .inl (ready trivial) | exact absurd within Bool.false_ne_true

omit [DecidableEq Adder] [Fintype Adder] in
/-- At rest the mutex is free, or main has freed the pool. -/
theorem Rests.owner (rests : Rests s) (sound : Sound s) :
    s.owner = none ∨ s.threads .main = .ready .returned := by
  cases owner : s.owner with
  | none => exact .inl rfl
  | some i =>
      right
      have holds := (sound.exclusive.owner i).mp owner
      cases place : s.threads i with
      | unborn | asleep | woken =>
          rw [place] at holds
          cases holds
      | ready pc =>
          have within : inside i pc = true := by simpa [place, Status.holds] using holds
          by_cases stops : (program Task n Adder i pc).isStop = false
          · rcases inside_goes within place stops with goes | ⟨j, goes⟩
            · exact absurd goes (rests.not_run i)
            · exact absurd goes (rests.not_notify i j)
          · have known := sound.known i pc (by rw [place]; rfl)
            cases i with
            | main =>
                cases pc <;> first | exact place | exact absurd rfl stops | exact known.elim |
                  exact absurd within Bool.false_ne_true
            | worker j =>
                cases pc <;> first | exact absurd rfl stops | exact absurd within Bool.false_ne_true
            | adder a => cases pc <;> exact absurd rfl stops

omit [DecidableEq Adder] [Fintype Adder] in
/-- At rest a worker that main has counted, once the mutex is free, sleeps or has ended. -/
theorem Rests.worker (rests : Rests s) (sound : Sound s) (free : s.owner = none) (j : Fin n)
    (born : (s.threads (.worker j)).place ≠ none) :
    s.threads (.worker j) = .asleep .test ∨ s.threads (.worker j) = .ready .exited := by
  cases place : s.threads (.worker j) with
  | unborn =>
      rw [place] at born
      exact absurd rfl born
  | woken k =>
      have goes : Enabled (program Task n Adder) s (.run (.worker j)) := by
        simpa only [Enabled, place] using free
      exact absurd goes (rests.not_run _)
  | asleep k =>
      obtain rfl := sound.parks (.worker j) k (by rw [place]; rfl)
      exact .inl rfl
  | ready pc =>
      cases pc with
      | exited => exact .inr rfl
      | lock => exact (rests.not_run _ (enabled_of_ready place free)).elim
      | run task => exact (rests.not_run _ (enabled_of_ready place trivial)).elim
      | _ =>
          rcases inside_goes rfl place rfl with goes | ⟨i, goes⟩
          · exact absurd goes (rests.not_run _)
          · exact absurd goes (rests.not_notify _ _)

/-- Main comes to rest where it may destroy the pool, and where it has. -/
theorem Rests.main (rests : Rests s)
    (run : Run (threads Task n Adder) (initial n Adder queue queueSize) tr s) :
    s.threads .main = .ready .serving ∨ s.threads .main = .ready .returned := by
  have sound := sound_of_run run
  rcases rests.owner sound with free | returned
  · obtain ⟨pc, place⟩ := stands run .main (by simp)
    have known := sound.known .main pc (by rw [place]; rfl)
    have goes := @enabled_of_ready _ _ _ (program Task n Adder) s .main pc place
    cases pc with
    | serving => exact .inl place
    | returned => exact .inr place
    | refused => exact known.elim
    | notFreed => exact absurd place (freed_of_run run)
    | create i =>
        by_cases more : i < n
        · have chooses : Enabled (program Task n Adder) s (.choose .main (.pthreadCreate i)) := by
            simp [Enabled, place, program, mainStmt, more]
          rcases rests _ chooses with external | ⟨serving, -⟩
          · cases external
          · rw [place] at serving
            cases serving
        · refine absurd (goes ?_) (rests.not_run .main)
          simp only [program, mainStmt, if_neg more]
          trivial
    | pthreadCreate i =>
        have more : i < n := known.2.2.1
        have unborn : (s.threads (.worker ⟨i, more⟩)).place = none := by
          by_contra born
          rcases (born_iff run ⟨i, more⟩).mp born with less | counting
          · exact absurd less (by rw [known.2.1]; exact lt_irrefl i)
          · rw [place] at counting
            cases counting
        refine absurd (goes ?_) (rests.not_run .main)
        simp only [program, mainStmt, dif_pos more, Monitor.Ready]
        cases worker : s.threads (.worker ⟨i, more⟩) with
        | unborn => rfl
        | ready | asleep | woken =>
            rw [worker] at unborn
            cases unborn
    | joinThread i =>
        obtain ⟨down, all, less, -⟩ := known
        have more : i < n := less.trans_le all
        have born := (born_iff run ⟨i, more⟩).mpr (.inl less)
        refine absurd (goes ?_) (rests.not_run .main)
        simp only [program, mainStmt, dif_pos more, Monitor.Ready]
        rcases rests.worker sound free ⟨i, more⟩ born with asleep | exited
        · have awake := awake_after_broadcast run down (by simp [place])
            (.worker ⟨i, more⟩)
          rw [asleep] at awake
          cases awake
        · simp [ended, exited, program, workerStmt, Stmt.isStop]
    | destroyLock | freeLock => exact absurd (goes free) (rests.not_run .main)
    | _ => exact absurd (goes trivial) (rests.not_run .main)
  · exact .inr returned

omit [Fintype Adder] in
/-- At rest, no call of `threadpool_add` is on its way, if it does not wait for the mutex that
    main has taken for good. -/
theorem Rests.adder (rests : Rests s)
    (run : Run (threads Task n Adder) (initial n Adder queue queueSize) tr s) (a : Adder) :
    s.threads (.adder a) = .ready .outside ∨
      s.owner ≠ none ∧ ∃ task, s.threads (.adder a) = .ready (.lock task) := by
  obtain ⟨pc, place⟩ := stands run (.adder a) (by simp)
  cases pc with
  | outside => exact .inl place
  | check task => exact (rests.not_run _ (enabled_of_ready place trivial)).elim
  | lock task =>
      refine .inr ⟨fun free => ?_, task, place⟩
      exact rests.not_run _ (enabled_of_ready place free)
  | _ =>
      rcases inside_goes rfl place rfl with goes | ⟨i, goes⟩
      · exact absurd goes (rests.not_run _)
      · exact absurd goes (rests.not_notify _ _)

/-- At rest while main serves, the workers sleep at an empty queue. -/
theorem Rests.serving (rests : Rests s)
    (run : Run (threads Task n Adder) (initial n Adder queue queueSize) tr s)
    (serving : s.threads .main = .ready .serving) :
    s.owner = none ∧ (∀ j, s.threads (.worker j) = .asleep .test) ∧
      (0 < n → s.data.pool.count = 0) := by
  have sound := sound_of_run run
  have free : s.owner = none := by
    refine (rests.owner sound).resolve_right fun returned => ?_
    rw [serving] at returned
    cases returned
  obtain ⟨running, all, -⟩ := sound.known .main .serving (by rw [serving]; rfl)
  have asleep : ∀ j, s.threads (.worker j) = .asleep .test := by
    intro j
    have born := (born_iff run j).mpr (.inl (by rw [all]; exact j.isLt))
    refine (rests.worker sound free j born).resolve_right fun exited => ?_
    exact (sound.known (.worker j) .exited (by rw [exited]; rfl)).1 running
  refine ⟨free, asleep, fun some => ?_⟩
  have nobody : s.total heading = 0 := Finset.sum_eq_zero fun i _ => by
    cases i with
    | main => rw [serving]; rfl
    | worker j => rw [asleep j]; rfl
    | adder a =>
        rcases rests.adder run a with outside | ⟨held, -⟩
        · rw [outside]
          rfl
        · exact absurd free held
  have fewer := met_of_run run running (.worker ⟨0, some⟩) (by rw [asleep]; rfl)
  rw [nobody] at fewer
  exact Nat.le_zero.mp fewer

/-- The threads come to rest in two ways only: main serves and the workers sleep at an empty
    queue; or the pool is destroyed and freed, all workers gone, and only calls of
    `threadpool_add` that came too late are stuck at the mutex. -/
theorem threadpool_rests
    (run : Run (threads Task n Adder) (initial n Adder queue queueSize) tr s) (rests : Rests s) :
    (s.threads .main = .ready .serving ∧ (∀ j, s.threads (.worker j) = .asleep .test) ∧
        (0 < n → s.data.pool.count = 0) ∧ ∀ a, s.threads (.adder a) = .ready .outside) ∨
      (s.threads .main = .ready .returned ∧ s.data.poolFreed = true ∧ s.data.started = 0 ∧
        (∀ j, s.threads (.worker j) = .unborn ∨ s.threads (.worker j) = .ready .exited) ∧
        ∀ a, s.threads (.adder a) = .ready .outside ∨
          ∃ task, s.threads (.adder a) = .ready (.lock task)) := by
  rcases rests.main run with serving | returned
  · obtain ⟨free, asleep, empty⟩ := rests.serving run serving
    refine .inl ⟨serving, asleep, empty, fun a => ?_⟩
    exact (rests.adder run a).resolve_right fun held => held.1 free
  · have known := (sound_of_run run).known .main .returned (by rw [returned]; rfl)
    refine .inr ⟨returned, known.2.2.2.2, none_started run returned rfl,
      crew_gone run returned rfl, fun a => ?_⟩
    exact (rests.adder run a).imp_right fun held => held.2

theorem finishing_rests :
    Rests (exec (threads Nat 1 Unit) (initial 1 Unit (fun _ => 0) 1) finishing) := by
  intro l enabled
  cases l with
  | run i => exact absurd enabled (by revert i; decide)
  | notify i j => exact absurd enabled (by revert i j; decide)
  | choose i k =>
      cases i with
      | main => exact .inr ⟨rfl, k, rfl⟩
      | worker j =>
          have asleep : ∀ j, (exec (threads Nat 1 Unit) (initial 1 Unit (fun _ => 0) 1)
              finishing).threads (.worker j) = .asleep .test := by decide
          simp only [Enabled, asleep] at enabled
      | adder a => exact .inl rfl
  | spurious j => exact .inl rfl

theorem threadpool_rests_finishing :
    let s := exec (threads Nat 1 Unit) (initial 1 Unit (fun _ => 0) 1) finishing
    (s.threads .main = .ready .serving ∧ (∀ j, s.threads (.worker j) = .asleep .test) ∧
        (0 < 1 → s.data.pool.count = 0) ∧ ∀ a, s.threads (.adder a) = .ready .outside) ∨
      (s.threads .main = .ready .returned ∧ s.data.poolFreed = true ∧ s.data.started = 0 ∧
        (∀ j, s.threads (.worker j) = .unborn ∨ s.threads (.worker j) = .ready .exited) ∧
        ∀ a, s.threads (.adder a) = .ready .outside ∨
          ∃ task, s.threads (.adder a) = .ready (.lock task)) :=
  threadpool_rests finishing_run finishing_rests

/-- At rest the accepted tasks have been run, each once, but for those an immediate shutdown
    leaves in the queue. -/
theorem threadpool_completes
    (run : Run (threads Task n Adder) (initial n Adder queue queueSize) tr s) (rests : Rests s) :
    (s.data.accepted : Multiset Task) = s.data.finished + s.data.pool.tasks ∧
      (0 < s.data.threadCount → s.data.pool.shutdown ≠ .immediate → s.data.pool.tasks = []) := by
  have sound := sound_of_run run
  have order : s.data.accepted = s.data.taken ++ (settledPool s).tasks :=
    (fifo_of_threads run).order
  have through : (∀ j, hand (s.threads (.worker j)) = []) ∧ settledPool s = s.data.pool ∧
      (0 < s.data.threadCount → s.data.pool.shutdown ≠ .immediate → s.data.pool.count = 0) := by
    rcases rests.main run with serving | returned
    · obtain ⟨free, asleep, empty⟩ := rests.serving run serving
      refine ⟨fun j => by rw [asleep]; rfl, settledPool_free free, fun some _ => empty ?_⟩
      have all := (sound.known .main .serving (by rw [serving]; rfl)).2.1
      exact all ▸ some
    · obtain ⟨down, all, -⟩ := sound.known .main .returned (by rw [returned]; rfl)
      have gone := crew_gone run returned rfl
      refine ⟨fun j => ?_, ?_, fun some graceful => ?_⟩
      · rcases gone j with unborn | exited
        · rw [unborn]
          rfl
        · rw [exited]
          rfl
      · exact settledPool_calm ((sound.exclusive.held returned).mpr rfl) returned fun _ => rfl
      · have first : s.threads (.worker ⟨0, some.trans_le all⟩) = .ready .exited := by
          refine (gone _).resolve_left fun unborn => ?_
          have born := (born_iff run ⟨0, some.trans_le all⟩).mpr (.inl some)
          rw [unborn] at born
          exact born rfl
        refine (sound.known (.worker _) .exited (by rw [first]; rfl)).2 ?_
        cases shutdown : s.data.pool.shutdown with
        | running => exact absurd shutdown down
        | immediate => exact absurd shutdown graceful
        | graceful => rfl
  obtain ⟨hands, settled, empty⟩ := through
  constructor
  · have taken := taken_eq run
    simp only [hands, Multiset.coe_nil, Finset.sum_const_zero, add_zero] at taken
    rw [order, settled, ← Multiset.coe_add, taken]
  · intro some graceful
    rw [Threadpool.tasks, empty some graceful]
    rfl

theorem threadpool_completes_finishing :
    let s := exec (threads Nat 1 Unit) (initial 1 Unit (fun _ => 0) 1) finishing
    (s.data.accepted : Multiset Nat) = s.data.finished + s.data.pool.tasks ∧
      (0 < s.data.threadCount → s.data.pool.shutdown ≠ .immediate → s.data.pool.tasks = []) :=
  threadpool_completes finishing_run finishing_rests

end ObdServer.PoolThreads
