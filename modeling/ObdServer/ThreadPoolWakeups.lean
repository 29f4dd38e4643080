import ObdServer.ThreadPoolCrew

/-! # Wakeups and the length of runs

No worker sleeps through a task: as long as the pool runs, the tasks in the queue are fewer
than the threads on their way to it, or nobody is asleep. And every thread comes to rest
unless it is given more to do.
-/

namespace ObdServer.PoolThreads

open Monitor Transition

variable {Task : Type} {n : Nat} {Adder : Type}

/-! ## On the way to the queue -/

/-- A worker that has yet to look at the queue or is taking a task from it, or an adder that
    will wake a worker. At `wait` a worker has found the queue empty, and nobody has been able
    to add to it since. -/
def heading : ∀ i : Thread n Adder, Status (Pc Task n Adder i) → ℕ
  | .worker _, .ready pc =>
      match pc with
      | .lock | .test | .wait | .decide | .load | .advance _ | .wrap _ | .decrement _ => 1
      | _ => 0
  | .worker _, .woken _ => 1
  | .adder _, .ready .signal => 1
  | _, _ => 0

theorem meets : ∀ i (pc : Pc Task n Adder i),
    (program Task n Adder i pc).Meets (fun d => d.pool.shutdown = .running)
      (fun d => d.pool.count) heading facts WaitsAt pc
  | .main, pc => by
      cases pc <;> grind [program, mainStmt, Stmt.Meets, heading]
  | .worker j, pc => by
      cases pc with
      | wait => exact fun d fact _ => (fact.1 rfl).2.1
      | decrement =>
          intro d fact running
          have some : d.pool.count ≠ 0 := (fact.1 rfl).2
          exact ⟨running, by change d.pool.count - 1 + 1 ≤ d.pool.count + 0; omega⟩
      | _ => grind [program, workerStmt, Stmt.Meets, heading, facts, knows]
  | .adder a, pc => by
      cases pc with
      | signal =>
          intro j k parks
          cases j with
          | worker j => exact Nat.le_refl _
          | main | adder => cases parks
      | _ => grind [program, adderStmt, Stmt.Meets, heading]

/-! ## What is left to do -/

/-- The steps a thread can still take from a place before it rests, where `crew` is the
    number of threads; 9 for each task that waits are paid by whoever takes it. -/
def stepsLeft (crew : Nat) : ∀ i : Thread n Adder, Pc Task n Adder i → ℕ
  | .main, pc =>
      let destroy := 10 + 2 * n + 6 * crew
      match pc with
      | .create i => destroy + 3 + 10 * (n - i)
      | .pthreadCreate i => destroy + 2 + 10 * (n - i)
      | .countThread i => destroy + 10 * (n - i) - 5
      | .countStarted i => destroy + 10 * (n - i) - 6
      | .publish => destroy + 2
      | .serving => destroy + 1
      | .destroyLock _ => destroy
      | .destroyTest _ => destroy - 1
      | .setShutdown _ => destroy - 2
      | .broadcast => destroy - 3
      | .destroyUnlock => 6 + 2 * n
      | .joinTest i => 5 + 2 * (n - i)
      | .joinThread i => 4 + 2 * (n - i)
      | .free => 4
      | .freeQueue => 3
      | .freeLock => 2
      | .freePool => 1
      | .returned | .refused | .notFreed => 0
  | .worker _, pc =>
      match pc with
      | .lock => 6
      | .test => 5
      | .wait | .decide => 4
      | .load => 3
      | .advance _ => 2
      | .wrap _ => 1
      | .decrement _ => 0
      | .unlock _ => 8
      | .run _ => 7
      | .leave => 2
      | .lastUnlock => 1
      | .exited => 0
  | .adder _, pc =>
      match pc with
      | .outside => 0
      | .check _ => 25
      | .lock _ => 24
      | .computeNext _ => 23
      | .testFull _ _ => 22
      | .testShutdown _ _ => 21
      | .store _ _ => 20
      | .setTail _ => 19
      | .increment => 18
      | .signal => 8
      | .unlock _ => 1

def stepsLeftStatus (crew : Nat) (i : Thread n Adder) : Status (Pc Task n Adder i) → ℕ
  | .ready pc => stepsLeft crew i pc
  | .woken _ => 6
  | .asleep _ | .unborn => 0

/-- What the threads do not do of themselves: call `threadpool_add`, or wake for no reason. -/
def External : Label (Pc Task n Adder) → Bool
  | .choose (.adder _) _ | .spurious _ => true
  | _ => false

variable [Fintype Adder]

theorem descends : ∀ i (pc : Pc Task n Adder i),
    (program Task n Adder i pc).Descends (fun d => 9 * d.pool.count)
      (stepsLeftStatus (Fintype.card (Thread n Adder))) 6 (fun l => 26 * (External l).toNat)
      facts pc
  | .main, pc => by
      cases pc with
      | create i =>
          simp only [program, mainStmt]
          split_ifs with more
          · intro k may
            simp only [decide_eq_true_eq] at may
            rcases may with rfl | rfl <;> simp only [stepsLeftStatus, stepsLeft] <;> omega
          · intro d _
            simp only [stepsLeftStatus, stepsLeft]
            omega
      | _ => grind [program, mainStmt, Stmt.Descends, stepsLeftStatus, stepsLeft, facts, knows]
  | .worker j, pc => by
      cases pc with
      | decrement task =>
          intro d fact
          have some : d.pool.count ≠ 0 := (fact.1 rfl).2
          change 9 * (d.pool.count - 1) + 8 < 9 * d.pool.count + 0
          omega
      | _ => grind [program, workerStmt, Stmt.Descends, stepsLeftStatus, stepsLeft]
  | .adder a, pc => by
      cases pc with
      | outside =>
          intro k calls
          cases k with
          | check task => exact Nat.lt_of_sub_eq_succ rfl
          | _ => cases calls
      | _ => grind [program, adderStmt, Stmt.Descends, stepsLeftStatus, stepsLeft]

/-! ## In every reachable state -/

variable [DecidableEq Adder] {s : PoolState Task n Adder} {queue : Nat → Task} {queueSize : Nat}
  {tr : List (PoolState Task n Adder × Label (Pc Task n Adder))}

theorem met_of_run (run : Run (threads Task n Adder) (initial n Adder queue queueSize) tr s) :
    Met (fun d => d.pool.shutdown = .running) (fun d => d.pool.count) heading s := by
  have kept : Sound s ∧ Met (fun d => d.pool.shutdown = .running) (fun d => d.pool.count)
      heading s := by
    refine run.preserves (fun u => Sound u ∧ Met _ _ heading u) ?_
      ⟨sound_initial queue queueSize, fun _ j asleep => by cases j <;> cases asleep⟩
    rintro u l ⟨sound, met⟩ enabled
    have step := step_of_enabled enabled
    refine ⟨sound.step step, met.step meets ?_ ?_ sound.facts sound.parks step⟩
    · exact fun i k _ => by cases i <;> simp [heading]
    · intro i k parks
      cases i with
      | worker j =>
          obtain rfl := parks
          exact Nat.le_refl _
      | main | adder => cases parks
  exact kept.2

/-- While the pool runs and a worker sleeps, every task in the queue has a thread on its
    way to it. -/
theorem noTask_overslept
    (run : Run (threads Task n Adder) (initial n Adder queue queueSize) tr s)
    (running : s.data.pool.shutdown = .running) (j : Fin n)
    (asleep : (s.threads (.worker j)).isAsleep = true) :
    s.data.pool.count ≤ s.total heading :=
  met_of_run run running (.worker j) asleep

theorem noTask_overslept_adding :
    (exec (threads Nat 1 Unit) (initial 1 Unit (fun _ => 0) 1) adding).data.pool.count ≤
      (exec (threads Nat 1 Unit) (initial 1 Unit (fun _ => 0) 1) adding).total heading :=
  noTask_overslept adding_run (by decide) 0 (by decide)

/-- Each call of `threadpool_add` and each wakeup for no reason is good for 26 steps. -/
theorem run_bounded (run : Run (threads Task n Adder) (initial n Adder queue queueSize) tr s) :
    tr.length ≤ 13 + 12 * n + 6 * Fintype.card (Thread n Adder) +
      26 * tr.countP (fun p => External p.2) := by
  have start : (initial n Adder queue queueSize).measure (fun d => 9 * d.pool.count)
      (stepsLeftStatus (Fintype.card (Thread n Adder))) =
        13 + 12 * n + 6 * Fintype.card (Thread n Adder) := by
    simp only [State.measure, State.total, sum_threads, initial, initialData, threadpoolCreate,
      stepsLeftStatus, stepsLeft, Finset.sum_const_zero]
    omega
  have bounded := run.length_le Sound
    (fun u => u.measure (fun d => 9 * d.pool.count)
      (stepsLeftStatus (Fintype.card (Thread n Adder)))) External 26 ?_
    (sound_initial queue queueSize)
  · have fewer := bounded.1
    rw [start] at fewer
    exact (Nat.le_add_right _ _).trans fewer
  · intro u l sound enabled
    have step := step_of_enabled enabled
    refine ⟨measure_step descends ?_ ?_ ?_ sound.facts sound.parks step, sound.step step⟩
    · exact fun i k _ => by simp [stepsLeftStatus]
    · intro i k parks
      cases i with
      | worker j =>
          obtain rfl := parks
          exact Nat.le_refl _
      | main | adder => cases parks
    · exact fun j => by simp [External]

theorem run_bounded_finishing :
    (trace (threads Nat 1 Unit) (initial 1 Unit (fun _ => 0) 1) finishing).length ≤
      13 + 12 * 1 + 6 * Fintype.card (Thread 1 Unit) + 26 *
        (trace (threads Nat 1 Unit) (initial 1 Unit (fun _ => 0) 1) finishing).countP
          (fun p => External p.2) :=
  run_bounded finishing_run

end ObdServer.PoolThreads
