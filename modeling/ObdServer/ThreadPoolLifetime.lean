import ObdServer.ThreadPoolCrew

/-! # The end of the pool's life

`threadpool_destroy` frees the pool once it has joined the workers. The workers are through
with it then, but nothing in threadpool.c keeps others from calling `threadpool_add`.
-/

namespace ObdServer.PoolThreads

open Monitor Transition

variable {Task : Type} {n : Nat} {Adder : Type} [DecidableEq Adder] [Fintype Adder]
  {s : PoolState Task n Adder} {queue : Nat → Task} {queueSize : Nat}
  {tr : List (PoolState Task n Adder × Label (Pc Task n Adder))}

/-! ## `threadpool_destroy` succeeds -/

omit [Fintype Adder] in
/-- Main and the adders are always at a place of their code. -/
theorem stands (run : Run (threads Task n Adder) (initial n Adder queue queueSize) tr s)
    (i : Thread n Adder) (crewless : ∀ j, i ≠ .worker j) : ∃ pc, s.threads i = .ready pc := by
  have born : (s.threads i).place ≠ none :=
    run.preserves (fun u => (u.threads i).place ≠ none)
      (fun u l born enabled => born_step born (step_of_enabled enabled)) (by
        cases i with
        | worker j => exact absurd rfl (crewless j)
        | main | adder => simp [initial, Status.place])
  have parks := (sound_of_run run).parks i
  cases status : s.threads i with
  | ready pc => exact ⟨pc, rfl⟩
  | unborn =>
      rw [status] at born
      exact absurd rfl born
  | asleep k | woken k =>
      have waits := parks k (by rw [status]; rfl)
      cases i with
      | worker j => exact absurd rfl (crewless j)
      | main | adder => exact waits.elim

/-- Once main has joined its workers, none is counted. -/
theorem none_started (run : Run (threads Task n Adder) (initial n Adder queue queueSize) tr s)
    {pc : MainPc} (place : s.threads .main = .ready pc) (joined : pc.joined = true) :
    s.data.started = 0 := by
  have main : byPlace aliveWeight .main (s.threads (.main : Thread n Adder)) = 0 := by
    rw [place]
    cases pc <;> first | rfl | cases joined
  rw [started_eq run, main, zero_add]
  refine Finset.sum_eq_zero fun j _ => ?_
  rcases crew_gone run place joined j with unborn | exited
  · rw [unborn]
    rfl
  · rw [exited]
    rfl

/-- `threadpool_free` never finds a worker counted, so it frees the pool. -/
theorem freed_of_run (run : Run (threads Task n Adder) (initial n Adder queue queueSize) tr s) :
    s.threads .main ≠ .ready .notFreed := by
  have kept : (∃ tr, Run (threads Task n Adder) (initial n Adder queue queueSize) tr s) ∧
      s.threads .main ≠ .ready .notFreed := by
    refine run.preserves (fun u =>
      (∃ tr, Run (threads Task n Adder) (initial n Adder queue queueSize) tr u) ∧
        u.threads .main ≠ .ready .notFreed) ?_ ⟨⟨_, .refl⟩, by simp [initial]⟩
    rintro u l ⟨⟨tr, run⟩, before⟩ enabled
    refine ⟨⟨_, run.tail enabled⟩, fun now => ?_⟩
    obtain ⟨pc, place⟩ := stands run .main (by simp)
    rcases arrives (step_of_enabled enabled) now with same | woken | unborn | ⟨pc', here, leads, -⟩
    · exact before same
    · rw [place] at woken
      cases woken
    · rw [place] at unborn
      cases unborn
    · have zero : pc' = .free → u.data.started = 0 := fun at_free =>
        none_started run here (by rw [at_free]; rfl)
      cases pc' <;> grind [program, mainStmt, Stmt.Leads]
  exact kept.2

/-! ## Use after free -/

/-- The thread goes on to use the pool: one of its fields, the mutex or the condition
    variable. -/
def touches : ∀ i, Pc Task n Adder i → Bool
  | .main, pc =>
      match pc with
      | .serving | .returned | .refused | .notFreed => false
      | _ => true
  | .worker _, pc =>
      match pc with
      | .run _ | .exited => false
      | _ => true
  | .adder _, pc =>
      match pc with
      | .outside | .check _ => false
      | _ => true

/-- The pool is freed, and some thread goes on to use it. -/
def UsesFreed (s : PoolState Task n Adder) : Prop :=
  s.data.poolFreed = true ∧ ∃ i k, (s.threads i).place = some k ∧ touches i k = true

/-- What the callers of `threadpool_add` owe the pool: none of their calls is on its way when
    the pool is freed, and none gets past the test for NULL afterwards. -/
def InTime (s : PoolState Task n Adder) : Label (Pc Task n Adder) → Prop
  | .run .main =>
      s.threads .main = .ready .freePool →
        ∀ a k, s.threads (.adder a) = .ready k → touches (.adder a) k = false
  | .run (.adder a) =>
      ∀ task, s.threads (.adder a) = .ready (.check task) →
        ¬ (s.data.published = true ∧ s.data.poolFreed = true)
  | _ => True

omit [Fintype Adder] in
theorem returned_of_freed
    (run : Run (threads Task n Adder) (initial n Adder queue queueSize) tr s)
    (freed : s.data.poolFreed = true) : s.threads .main = .ready .returned := by
  obtain ⟨pc, place⟩ := stands run .main (by simp)
  have known := (sound_of_run run).known .main pc (by rw [place]; rfl)
  cases pc with
  | returned => exact place
  | _ => grind [knows]

/-- Only a call of `threadpool_add` can use the freed pool, and it does by locking the mutex. -/
theorem late_call (run : Run (threads Task n Adder) (initial n Adder queue queueSize) tr s)
    (uses : UsesFreed s) : ∃ a task, s.threads (.adder a) = .ready (.lock task) := by
  obtain ⟨freed, i, k, place, touched⟩ := uses
  have returned := returned_of_freed run freed
  cases i with
  | main =>
      rw [returned] at place
      cases place
      cases touched
  | worker j =>
      rcases crew_gone run returned rfl j with unborn | exited
      · rw [unborn] at place
        cases place
      · rw [exited] at place
        cases place
        cases touched
  | adder a =>
      obtain ⟨pc, there⟩ := stands run (.adder a) (by simp)
      rw [there] at place
      cases place
      have outside : inside (.adder a : Thread n Adder) k = false := by
        by_contra within
        have same := (sound_of_run run).exclusive.unique returned there rfl (by simpa using within)
        cases same
      cases k with
      | lock task => exact ⟨a, task, there⟩
      | outside | check => cases touched
      | _ => cases outside

omit [Fintype Adder] in
/-- A call that is on its way when the pool is freed, or comes later, uses the freed pool. -/
theorem late_uses {l : Label (Pc Task n Adder)}
    (enabled : Enabled (program Task n Adder) s l) (late : ¬ InTime s l) :
    UsesFreed (Monitor.next (program Task n Adder) s l) := by
  cases l with
  | run i =>
      cases i with
      | main =>
          obtain ⟨place, late⟩ := Classical.not_imp.mp late
          simp only [not_forall] at late
          obtain ⟨a, k, there, touched⟩ := late
          obtain ⟨-, after⟩ :=
            label_of_act (i := .main) (step_of_enabled enabled) rfl place rfl
          rw [after]
          refine ⟨rfl, .adder a, k, ?_, by simpa using touched⟩
          simp [there, Status.place]
      | worker j => exact absurd trivial late
      | adder a =>
          simp only [InTime, not_forall] at late
          obtain ⟨task, place, late⟩ := late
          obtain ⟨published, freed⟩ := not_not.mp late
          obtain ⟨-, after⟩ :=
            label_of_act (i := .adder a) (step_of_enabled enabled) rfl place rfl
          rw [after]
          refine ⟨freed, .adder a, .lock task, ?_, rfl⟩
          simp [published, Status.place]
  | notify | choose | spurious => exact absurd trivial late

/-- As long as the callers keep in time, no freed pool is used. -/
theorem inTime_safe {l : Label (Pc Task n Adder)}
    (run : Run (threads Task n Adder) (initial n Adder queue queueSize) tr s)
    (enabled : Enabled (program Task n Adder) s l) (inTime : InTime s l) (safe : ¬ UsesFreed s) :
    ¬ UsesFreed (Monitor.next (program Task n Adder) s l) := by
  intro uses
  have step := step_of_enabled enabled
  have run' := run.tail (M := threads Task n Adder) enabled
  obtain ⟨a, task, now⟩ := late_call run' uses
  -- how the adder came to the lock, and how main came to return
  have came : s.threads (.adder a) = .ready (.lock task) ∨
      (s.threads (.adder a) = .ready (.check task) ∧ s.data.published = true ∧
        l = .run (.adder a)) := by
    obtain ⟨pc, place⟩ := stands run (.adder a) (by simp)
    rcases arrives step now with before | woken | unborn | ⟨pc', there, leads, turn⟩
    · exact .inl before
    · cases place.symm.trans woken
    · cases place.symm.trans unborn
    · cases pc' with
      | check task' =>
          obtain ⟨label, -⟩ := label_of_act step turn there rfl
          simp only [program, adderStmt, Stmt.Leads] at leads
          split_ifs at leads with published
          obtain rfl := AdderPc.lock.inj leads
          exact .inr ⟨there, published, label⟩
      | outside => cases leads
      | _ => grind [program, adderStmt, Stmt.Leads]
  by_cases freed : s.data.poolFreed = true
  · rcases came with before | ⟨before, published, rfl⟩
    · exact safe ⟨freed, .adder a, .lock task, by rw [before]; rfl, rfl⟩
    · exact inTime task before ⟨published, freed⟩
  · have returned := returned_of_freed run' uses.1
    obtain ⟨pc, place⟩ := stands run .main (by simp)
    rcases arrives step returned with before | woken | unborn | ⟨pc', there, leads, turn⟩
    · have known := (sound_of_run run).known .main .returned (by rw [before]; rfl)
      exact freed known.2.2.2.2
    · cases place.symm.trans woken
    · cases place.symm.trans unborn
    · have last : pc' = .freePool := by
        cases pc' <;> grind [program, mainStmt, Stmt.Leads]
      subst last
      obtain ⟨rfl, -⟩ := label_of_act step turn there rfl
      rcases came with before | ⟨-, -, label⟩
      · cases inTime there a _ before
      · cases label

/-- A run uses the freed pool nowhere exactly if every call of `threadpool_add` is over when
    `threadpool_destroy` frees the pool, and none comes after. -/
theorem freed_unused_iff
    (run : Run (threads Task n Adder) (initial n Adder queue queueSize) tr s) :
    (∀ u, Visits tr s u → ¬ UsesFreed u) ↔ ∀ p ∈ tr, InTime p.1 p.2 := by
  refine run.safe_iff
    (fun u => (∃ tr, Run (threads Task n Adder) (initial n Adder queue queueSize) tr u) ∧
      ¬ UsesFreed u)
    InTime ?_ (fun u reached => reached.2) ?_ ⟨⟨_, .refl⟩, fun uses => Bool.false_ne_true uses.1⟩
  · rintro u l ⟨⟨tr, run⟩, safe⟩ inTime enabled
    exact ⟨⟨_, run.tail enabled⟩, inTime_safe run enabled inTime safe⟩
  · rintro u l ⟨_, _⟩ late enabled
    exact not_not.mpr (late_uses enabled late)

theorem freed_unused_iff_finishing :
    (∀ u, Visits (trace (threads Nat 1 Unit) (initial 1 Unit (fun _ => 0) 1) finishing)
        (exec (threads Nat 1 Unit) (initial 1 Unit (fun _ => 0) 1) finishing) u → ¬ UsesFreed u) ↔
      ∀ p ∈ trace (threads Nat 1 Unit) (initial 1 Unit (fun _ => 0) 1) finishing, InTime p.1 p.2 :=
  freed_unused_iff finishing_run

end ObdServer.PoolThreads
