import Mathlib.Algebra.BigOperators.Ring.Finset
import Mathlib.Data.Fintype.Option
import Mathlib.Data.Fintype.Sum
import ObdServer.Lib.MonitorCounts
import ObdServer.ThreadPoolOutline

/-! # The workers of the thread pool, counted

Three balances between the data and the threads: which workers have been started, how many
of them are still alive, and which tasks they have in hand.
-/

namespace ObdServer.PoolThreads

open Monitor Transition

variable {Task : Type} {n : Nat} {Adder : Type}

def Thread.equiv : Thread n Adder ≃ Option (Fin n ⊕ Adder) where
  toFun
    | .main => none
    | .worker j => some (.inl j)
    | .adder a => some (.inr a)
  invFun
    | none => .main
    | some (.inl j) => .worker j
    | some (.inr a) => .adder a
  left_inv i := by cases i <;> rfl
  right_inv i := by rcases i with _ | _ | _ <;> rfl

variable [DecidableEq Adder] [Fintype Adder]

instance : Fintype (Thread n Adder) := Fintype.ofEquiv _ Thread.equiv.symm

omit [DecidableEq Adder] in
theorem sum_threads {M : Type*} [AddCommMonoid M] (f : Thread n Adder → M) :
    ∑ i, f i = f .main + (∑ j, f (.worker j) + ∑ a, f (.adder a)) := by
  rw [← Equiv.sum_comp (Thread.equiv : Thread n Adder ≃ _).symm f, Fintype.sum_option,
    Fintype.sum_sum_type]
  rfl

/-- A fact about the state that the owner of the mutex, and each thread at its place, may
    rely on. -/
def facts (i : Thread n Adder) (pc : Pc Task n Adder i) (d : PoolData Task) : Prop :=
  (inside i pc = true → assertion i pc d) ∧ ∃ ended, knows i pc d ended

omit [DecidableEq Adder] [Fintype Adder] in
theorem Sound.facts {s : PoolState Task n Adder} (sound : Sound s) (i : Thread n Adder)
    (pc : Pc Task n Adder i) (place : s.threads i = .ready pc) : facts i pc s.data :=
  ⟨sound.asserted.held i pc place, _, sound.known i pc (by rw [place]; rfl)⟩

variable {s : PoolState Task n Adder}

/-- A balance by places that the first state meets and every statement keeps. -/
theorem balance_of_run {c : PoolData Task → ℤ} {w : ∀ i, Pc Task n Adder i → ℤ}
    {queue : Nat → Task} {queueSize : Nat}
    {tr : List (PoolState Task n Adder × Label (Pc Task n Adder))}
    (run : Run (threads Task n Adder) (initial n Adder queue queueSize) tr s)
    (balances : ∀ i pc, (program Task n Adder i pc).Balances c (byPlace w) facts pc)
    (start : c (initialData queue queueSize) =
      (initial n Adder queue queueSize).total (byPlace w)) :
    c s.data = s.total (byPlace w) := by
  have kept : Sound s ∧ c s.data = s.total (byPlace w) := by
    refine run.preserves (fun u => Sound u ∧ c u.data = u.total (byPlace w)) ?_
      ⟨sound_initial queue queueSize, start⟩
    rintro u l ⟨sound, balance⟩ enabled
    have step := step_of_enabled enabled
    exact ⟨sound.step step, balance_step balances (fun _ _ => rfl) (fun _ _ => rfl) sound.facts
      balance step⟩
  exact kept.2

/-! ## Which workers have been started -/

/-- Worker `j` weighs one once it is born, and main makes up for it until it has counted it. -/
def bornWeight (j : Fin n) : ∀ i : Thread n Adder, Pc Task n Adder i → ℤ
  | .main, .countThread i => if i = j.val then -1 else 0
  | .worker k, _ => if k = j then 1 else 0
  | _, _ => 0

omit [DecidableEq Adder] [Fintype Adder] in
theorem born_balances (j : Fin n) : ∀ i (pc : Pc Task n Adder i),
    (program Task n Adder i pc).Balances (fun d => if j.val < d.threadCount then 1 else 0)
      (byPlace (bornWeight j)) facts pc
  | .main, pc => by
      cases pc with
      | countThread i =>
          rintro d ⟨-, ended, -, counted, -⟩
          simp only [byPlace, Status.place, bornWeight, counted]
          split_ifs <;> omega
      | pthreadCreate i =>
          simp only [program, mainStmt]
          split_ifs with more
          · simp only [Stmt.Balances, byPlace, Status.place, bornWeight, Fin.ext_iff]
            split_ifs <;> omega
          · trivial
      | _ => grind [program, mainStmt, Stmt.Balances, byPlace, Status.place, bornWeight]
  | .worker k, pc => by
      cases pc <;> first | exact fun _ _ => rfl | rfl | trivial
  | .adder a, pc => by
      cases pc <;> grind [program, adderStmt, Stmt.Balances, byPlace, Status.place, bornWeight]

/-! ## How many workers are alive -/

/-- A worker lives until it has counted itself out; main has not counted a worker in yet at
    its two counting places. -/
def aliveWeight : ∀ i : Thread n Adder, Pc Task n Adder i → ℤ
  | .main, .countThread _ | .main, .countStarted _ => -1
  | .worker _, pc =>
      match pc with
      | .lastUnlock | .exited => 0
      | _ => 1
  | _, _ => 0

omit [DecidableEq Adder] [Fintype Adder] in
theorem alive_balances : ∀ i (pc : Pc Task n Adder i),
    (program Task n Adder i pc).Balances (fun d => d.started) (byPlace aliveWeight) facts pc
  | .main, pc => by
      cases pc <;> grind [program, mainStmt, Stmt.Balances, byPlace, Status.place, aliveWeight]
  | .worker k, pc => by
      cases pc <;> grind [program, workerStmt, Stmt.Balances, byPlace, Status.place, aliveWeight]
  | .adder a, pc => by
      cases pc <;> grind [program, adderStmt, Stmt.Balances, byPlace, Status.place, aliveWeight]

/-! ## Which tasks the workers have in hand -/

/-- The task a worker has taken and not finished. -/
def WorkerPc.inHand : WorkerPc Task → List Task
  | .advance task | .wrap task | .decrement task | .unlock task | .run task => [task]
  | _ => []

/-- The tasks of a worker, wherever it is. -/
def hand {j : Fin n} (st : Status (Pc Task n Adder (.worker j))) : List Task :=
  st.place.elim [] WorkerPc.inHand

def handWeight [DecidableEq Task] (b : Task) : ∀ i : Thread n Adder, Pc Task n Adder i → ℤ
  | .worker _, pc => pc.inHand.count b
  | _, _ => 0

omit [DecidableEq Adder] [Fintype Adder] in
theorem hand_balances [DecidableEq Task] (b : Task) : ∀ i (pc : Pc Task n Adder i),
    (program Task n Adder i pc).Balances (fun d => d.taken.count b - d.finished.count b)
      (byPlace (handWeight b)) facts pc
  | .main, pc => by
      cases pc with
      | pthreadCreate i =>
          simp only [program, mainStmt]
          split_ifs
          · simp [Stmt.Balances, byPlace, Status.place, handWeight, WorkerPc.inHand]
          · trivial
      | _ => grind [program, mainStmt, Stmt.Balances, byPlace, Status.place, handWeight]
  | .worker k, pc => by
      cases pc <;>
        grind [program, workerStmt, Stmt.Balances, byPlace, Status.place, handWeight,
          WorkerPc.inHand]
  | .adder a, pc => by
      cases pc <;> grind [program, adderStmt, Stmt.Balances, byPlace, Status.place, handWeight]

/-! ## In every reachable state -/

section Reachable

variable {queue : Nat → Task} {queueSize : Nat}
  {tr : List (PoolState Task n Adder × Label (Pc Task n Adder))}

/-- Worker `j` is born once main has counted it, or is about to. -/
theorem born_iff (run : Run (threads Task n Adder) (initial n Adder queue queueSize) tr s)
    (j : Fin n) : (s.threads (.worker j)).place ≠ none ↔
      j.val < s.data.threadCount ∨ (s.threads .main).place = some (.countThread j.val) := by
  have balance := balance_of_run run (born_balances j) (by
    simp [initialData, State.total, initial, sum_threads, byPlace, Status.place, bornWeight])
  have only : s.total (byPlace (bornWeight j)) =
      byPlace (bornWeight j) .main (s.threads .main) +
        byPlace (bornWeight j) (.worker j) (s.threads (.worker j)) := by
    refine Fintype.sum_eq_add _ _ (by simp) fun i other => ?_
    cases i with
    | main => exact absurd rfl other.1
    | worker k =>
        have apart : k ≠ j := fun same => other.2 (by rw [same])
        exact byPlace_eq_zero (fun pc => if_neg apart) _
    | adder a => exact byPlace_eq_zero (fun pc => rfl) _
  have worker : byPlace (bornWeight j) (.worker j) (s.threads (.worker j)) =
      if (s.threads (.worker j)).place = none then 0 else 1 := by
    rw [byPlace]
    cases (s.threads (.worker j)).place <;> simp [bornWeight]
  have main : byPlace (bornWeight j) .main (s.threads .main) =
      if (s.threads .main).place = some (.countThread j.val) then -1 else 0 := by
    rw [byPlace]
    cases (s.threads .main).place with
    | none => rfl
    | some pc => cases pc <;> simp [bornWeight]
  rw [only, worker, main] at balance
  grind

/-- Main has joined all the workers it has started. -/
def MainPc.joined : MainPc → Bool
  | .free | .freeQueue | .freeLock | .freePool | .returned | .notFreed => true
  | _ => false

/-- Then every worker has ended, or was never started. -/
theorem crew_gone (run : Run (threads Task n Adder) (initial n Adder queue queueSize) tr s)
    {pc : MainPc} (place : s.threads .main = .ready pc) (joined : pc.joined = true) (j : Fin n) :
    s.threads (.worker j) = .unborn ∨ s.threads (.worker j) = .ready .exited := by
  have known := (sound_of_run run).known .main pc (by rw [place]; rfl)
  have all : ∀ j : Fin n, j.val < s.data.threadCount →
      ended (program Task n Adder) s (.worker j) = true := by
    cases pc <;> first | exact known.2.2.1 | cases joined
  by_cases counted : j.val < s.data.threadCount
  · have stopped := all j counted
    cases worker : s.threads (.worker j) with
    | ready k =>
        have last : (program Task n Adder (.worker j) k).isStop = true := by
          simpa only [ended, worker] using stopped
        cases k <;> first | exact .inr rfl | cases last
    | unborn | asleep | woken => simp [ended, worker] at stopped
  · refine .inl ?_
    have unborn : (s.threads (.worker j)).place = none := by
      by_contra born
      rcases (born_iff run j).mp born with less | counting
      · exact counted less
      · rw [place] at counting
        cases counting
        cases joined
    cases worker : s.threads (.worker j) with
    | unborn => rfl
    | ready | asleep | woken =>
        rw [worker] at unborn
        cases unborn

/-- `started` is the number of workers alive, with the one that main is about to count. -/
theorem started_eq (run : Run (threads Task n Adder) (initial n Adder queue queueSize) tr s) :
    s.data.started = byPlace aliveWeight .main (s.threads .main) +
      ∑ j : Fin n, byPlace aliveWeight (.worker j) (s.threads (.worker j)) := by
  have balance := balance_of_run run alive_balances (by
    simp [initialData, State.total, initial, sum_threads, byPlace, Status.place, aliveWeight])
  rw [balance, State.total, sum_threads, ← add_assoc, add_eq_left]
  exact Finset.sum_eq_zero fun a _ => byPlace_eq_zero (fun _ => rfl) _

/-- Every task that was taken is finished or in the hand of one worker. -/
theorem taken_eq (run : Run (threads Task n Adder) (initial n Adder queue queueSize) tr s) :
    (s.data.taken : Multiset Task) =
      s.data.finished + ∑ j : Fin n, (hand (s.threads (.worker j)) : Multiset Task) := by
  classical
  refine Multiset.ext.mpr fun b => ?_
  have balance := balance_of_run run (hand_balances b) (by
    simp [initialData, State.total, initial, sum_threads, byPlace, Status.place, handWeight])
  have hands : s.total (byPlace (handWeight b)) =
      ∑ j : Fin n, ((hand (s.threads (.worker j))).count b : ℤ) := by
    have main : byPlace (handWeight b) .main (s.threads .main) = 0 :=
      byPlace_eq_zero (fun _ => rfl) _
    have adders : ∑ a, byPlace (handWeight b) (.adder a) (s.threads (.adder a)) = 0 :=
      Finset.sum_eq_zero fun a _ => byPlace_eq_zero (fun _ => rfl) _
    rw [State.total, sum_threads, main, adders, add_zero, zero_add]
    refine Finset.sum_congr rfl fun j _ => ?_
    rw [byPlace, hand]
    cases (s.threads (.worker j)).place <;> rfl
  rw [hands, ← Nat.cast_sum] at balance
  rw [Multiset.count_add, Multiset.count_sum']
  simp only [Multiset.coe_count]
  omega

end Reachable

/-! ## One task -/

instance (s : PoolState Task n Adder) (l : Label (Pc Task n Adder)) :
    Decidable ((threads Task n Adder).enabled s l) :=
  inferInstanceAs (Decidable (Enabled (program Task n Adder) s l))

/-- Main makes one worker, which goes to sleep, and a task is added up to the signal. -/
def adding : List (Label (Pc Nat 1 Unit)) :=
  .choose .main (.pthreadCreate 0) :: List.replicate 5 (.run .main) ++
    List.replicate 3 (.run (.worker 0)) ++
    .choose (.adder ()) (.check 5) :: List.replicate 8 (.run (.adder ()))

/-- Then the worker is woken, runs the task and goes to sleep again. -/
def finishing : List (Label (Pc Nat 1 Unit)) :=
  adding ++ .notify (.adder ()) (.worker 0) :: .run (.adder ()) ::
    List.replicate 12 (.run (.worker 0))

theorem adding_run : Run (threads Nat 1 Unit) (initial 1 Unit (fun _ => 0) 1)
    (trace (threads Nat 1 Unit) (initial 1 Unit (fun _ => 0) 1) adding)
    (exec (threads Nat 1 Unit) (initial 1 Unit (fun _ => 0) 1) adding) :=
  .ofSchedule adding (by decide)

theorem finishing_run : Run (threads Nat 1 Unit) (initial 1 Unit (fun _ => 0) 1)
    (trace (threads Nat 1 Unit) (initial 1 Unit (fun _ => 0) 1) finishing)
    (exec (threads Nat 1 Unit) (initial 1 Unit (fun _ => 0) 1) finishing) :=
  .ofSchedule finishing (by decide)

end ObdServer.PoolThreads
