import Mathlib.Algebra.BigOperators.Group.Finset.Basic
import Mathlib.Data.Fintype.BigOperators
import ObdServer.Lib.Transition

/-! # Threads under one mutex and one condition variable

A program is a table: at each place of each thread's code stands one statement, which
names the place after it. The threads take turns in any order. A thread that waits on the
condition variable gives the mutex up in the same step, and has to get it back when it is
woken, be it by a signal, by a broadcast or for no reason.
-/

namespace Monitor

open Transition

/-- The statement of thread `i` at a place of its code; `k` is the next place. -/
inductive Stmt (Data : Type*) {Thread : Type*} (Pc : Thread → Type*) (i : Thread) where
  | lock (k : Pc i)
  | unlock (k : Pc i)
  /-- Sleeps, and goes on at `k` with the mutex. -/
  | wait (k : Pc i)
  | signal (k : Pc i)
  | broadcast (k : Pc i)
  /-- One statement on the data, and where it leads. -/
  | act (f : Data → Data × Pc i)
  | spawn (j : Thread) (start : Pc j) (k : Pc i)
  | join (j : Thread) (k : Pc i)
  /-- The environment says where to go on. -/
  | choose (allowed : Pc i → Bool)
  | stop

inductive Status (Place : Type*) where
  | unborn
  | ready (pc : Place)
  | asleep (k : Place)
  | woken (k : Place)
  deriving DecidableEq

variable {Thread Data : Type*} {Pc : Thread → Type*}

abbrev Program (Data : Type*) {Thread : Type*} (Pc : Thread → Type*) := ∀ i, Pc i → Stmt Data Pc i

def Stmt.isStop {i : Thread} : Stmt Data Pc i → Bool
  | .stop => true
  | _ => false

namespace Status

variable {Place : Type*}

def isUnborn : Status Place → Bool
  | .unborn => true
  | _ => false

def isAsleep : Status Place → Bool
  | .asleep _ => true
  | _ => false

def wake : Status Place → Status Place
  | .asleep k => .woken k
  | st => st

end Status

structure State (Data : Type*) {Thread : Type*} (Pc : Thread → Type*) where
  data : Data
  owner : Option Thread
  threads : ∀ i, Status (Pc i)

inductive Label {Thread : Type*} (Pc : Thread → Type*) where
  /-- Thread `i` executes its statement, or gets the mutex back. -/
  | run (i : Thread)
  /-- Thread `i` signals, and `j` is woken. -/
  | notify (i j : Thread)
  | choose (i : Thread) (k : Pc i)
  | spurious (j : Thread)

/-- The thread whose turn it is. -/
def Label.thread : Label Pc → Thread
  | .run i | .notify i _ | .choose i _ | .spurious i => i

section Semantics

variable [DecidableEq Thread] (P : Program Data Pc)

namespace State

def move (s : State Data Pc) (i : Thread) (st : Status (Pc i)) : State Data Pc :=
  { s with threads := Function.update s.threads i st }

def wakeAll (s : State Data Pc) : State Data Pc :=
  { s with threads := fun j => (s.threads j).wake }

def exec (s : State Data Pc) (i : Thread) : Stmt Data Pc i → State Data Pc
  | .lock k => { s with owner := some i }.move i (.ready k)
  | .unlock k => { s with owner := none }.move i (.ready k)
  | .wait k => { s with owner := none }.move i (.asleep k)
  | .signal k | .join _ k => s.move i (.ready k)
  | .broadcast k => s.wakeAll.move i (.ready k)
  | .act f => { s with data := (f s.data).1 }.move i (.ready (f s.data).2)
  | .spawn j start k => (s.move j (.ready start)).move i (.ready k)
  | .choose _ | .stop => s

end State

omit [DecidableEq Thread] in
/-- Thread `j` is at the end of its code. -/
def ended (s : State Data Pc) (j : Thread) : Bool :=
  match s.threads j with
  | .ready pc => (P j pc).isStop
  | _ => false

/-- A signal that wakes nobody is a step of its own; a thread is made only once. -/
def Ready (s : State Data Pc) {i : Thread} : Stmt Data Pc i → Prop
  | .lock _ => s.owner = none
  | .signal _ => ∀ j, (s.threads j).isAsleep = false
  | .spawn j _ _ => (s.threads j).isUnborn = true
  | .join j _ => ended P s j = true
  | .choose _ | .stop => False
  | .unlock _ | .wait _ | .broadcast _ | .act _ => True

def Enabled (s : State Data Pc) : Label Pc → Prop
  | .run i =>
      match s.threads i with
      | .ready pc => Ready P s (P i pc)
      | .woken _ => s.owner = none
      | _ => False
  | .notify i j =>
      match s.threads i with
      | .ready pc =>
          match P i pc with
          | .signal _ => (s.threads j).isAsleep = true
          | _ => False
      | _ => False
  | .choose i k =>
      match s.threads i with
      | .ready pc =>
          match P i pc with
          | .choose allowed => allowed k = true
          | _ => False
      | _ => False
  | .spurious j => (s.threads j).isAsleep = true

def next (s : State Data Pc) : Label Pc → State Data Pc
  | .run i =>
      match s.threads i with
      | .ready pc => s.exec i (P i pc)
      | .woken k => { s with owner := some i }.move i (.ready k)
      | _ => s
  | .notify i j =>
      match s.threads i with
      | .ready pc =>
          match P i pc with
          | .signal k => (s.move j (s.threads j).wake).move i (.ready k)
          | _ => s
      | _ => s
  | .choose i k => s.move i (.ready k)
  | .spurious j => s.move j (s.threads j).wake

/-- The threads of a program, from any data and any first places. -/
def system (init : State Data Pc → Prop) : System (State Data Pc) (Label Pc) where
  init
  enabled := Enabled P
  next := next P

end Semantics

section Steps

variable [DecidableEq Thread] {P : Program Data Pc} {s s' : State Data Pc} {l : Label Pc}

instance decidableReady [Fintype Thread] {i : Thread} (stmt : Stmt Data Pc i) :
    Decidable (Ready P s stmt) := by
  cases stmt <;> unfold Ready <;> infer_instance

instance decidableEnabled [Fintype Thread] : ∀ l, Decidable (Enabled P s l)
  | .run i => by
      dsimp only [Enabled]
      split <;> infer_instance
  | .notify i j => by
      dsimp only [Enabled]
      split
      · split <;> infer_instance
      · infer_instance
  | .choose i k => by
      dsimp only [Enabled]
      split
      · split <;> infer_instance
      · infer_instance
  | .spurious j => inferInstanceAs (Decidable ((s.threads j).isAsleep = true))

namespace State

variable (s) (i : Thread) (st : Status (Pc i))

@[simp] theorem move_data : (s.move i st).data = s.data := rfl

@[simp] theorem move_owner : (s.move i st).owner = s.owner := rfl

@[simp] theorem move_self : (s.move i st).threads i = st := Function.update_self ..

@[simp] theorem move_of_ne {j : Thread} (other : j ≠ i) : (s.move i st).threads j = s.threads j :=
  Function.update_of_ne other ..

end State

/-- What one step does, by the statement it executes. -/
inductive Step (P : Program Data Pc) (s : State Data Pc) : Label Pc → State Data Pc → Prop where
  | lock {i : Thread} {pc k : Pc i} :
      s.threads i = .ready pc → P i pc = .lock k → s.owner = none →
      Step P s (.run i) ({ s with owner := some i }.move i (.ready k))
  | relock {i : Thread} {k : Pc i} :
      s.threads i = .woken k → s.owner = none →
      Step P s (.run i) ({ s with owner := some i }.move i (.ready k))
  | unlock {i : Thread} {pc k : Pc i} :
      s.threads i = .ready pc → P i pc = .unlock k →
      Step P s (.run i) ({ s with owner := none }.move i (.ready k))
  | wait {i : Thread} {pc k : Pc i} :
      s.threads i = .ready pc → P i pc = .wait k →
      Step P s (.run i) ({ s with owner := none }.move i (.asleep k))
  | signal {i : Thread} {pc k : Pc i} :
      s.threads i = .ready pc → P i pc = .signal k → (∀ j, (s.threads j).isAsleep = false) →
      Step P s (.run i) (s.move i (.ready k))
  | notify {i j : Thread} {pc k : Pc i} {k' : Pc j} :
      s.threads i = .ready pc → P i pc = .signal k → s.threads j = .asleep k' → j ≠ i →
      Step P s (.notify i j) ((s.move j (.woken k')).move i (.ready k))
  | broadcast {i : Thread} {pc k : Pc i} :
      s.threads i = .ready pc → P i pc = .broadcast k →
      Step P s (.run i) (s.wakeAll.move i (.ready k))
  | act {i : Thread} {pc : Pc i} {f : Data → Data × Pc i} :
      s.threads i = .ready pc → P i pc = .act f →
      Step P s (.run i) ({ s with data := (f s.data).1 }.move i (.ready (f s.data).2))
  | spawn {i j : Thread} {pc k : Pc i} {start : Pc j} :
      s.threads i = .ready pc → P i pc = .spawn j start k → s.threads j = .unborn → j ≠ i →
      Step P s (.run i) ((s.move j (.ready start)).move i (.ready k))
  | join {i j : Thread} {pc k : Pc i} :
      s.threads i = .ready pc → P i pc = .join j k → ended P s j = true →
      Step P s (.run i) (s.move i (.ready k))
  | choose {i : Thread} {pc k : Pc i} {allowed : Pc i → Bool} :
      s.threads i = .ready pc → P i pc = .choose allowed → allowed k = true →
      Step P s (.choose i k) (s.move i (.ready k))
  | spurious {j : Thread} {k : Pc j} :
      s.threads j = .asleep k → Step P s (.spurious j) (s.move j (.woken k))

omit [DecidableEq Thread] in
theorem enabled_of_ready {i : Thread} {pc : Pc i} (place : s.threads i = .ready pc)
    (ready : Ready P s (P i pc)) : Enabled P s (.run i) := by
  simpa only [Enabled, place] using ready

theorem Status.eq_asleep {Place : Type*} {st : Status Place} (asleep : st.isAsleep = true) :
    ∃ k, st = .asleep k := by
  cases st with
  | asleep k => exact ⟨k, rfl⟩
  | unborn | ready | woken => cases asleep

theorem Status.eq_unborn {Place : Type*} {st : Status Place} (unborn : st.isUnborn = true) :
    st = .unborn := by
  cases st with
  | unborn => rfl
  | ready | asleep | woken => cases unborn

theorem step_of_run {i : Thread} (enabled : Enabled P s (.run i)) :
    Step P s (.run i) (next P s (.run i)) := by
  cases place : s.threads i with
  | unborn | asleep k => simp [Enabled, place] at enabled
  | woken k =>
      simp only [Enabled, place] at enabled
      simpa only [next, place] using Step.relock place enabled
  | ready pc =>
      simp only [Enabled, place] at enabled
      simp only [next, place]
      cases stmt : P i pc with
      | lock k => exact .lock place stmt (by simpa only [stmt, Ready] using enabled)
      | unlock k => exact .unlock place stmt
      | wait k => exact .wait place stmt
      | signal k => exact .signal place stmt (by simpa only [stmt, Ready] using enabled)
      | broadcast k => exact .broadcast place stmt
      | act f => exact .act place stmt
      | spawn j start k =>
          have unborn := Status.eq_unborn (by simpa only [stmt, Ready] using enabled)
          refine .spawn place stmt unborn fun same => ?_
          subst same
          rw [place] at unborn
          cases unborn
      | join j k => exact .join place stmt (by simpa only [stmt, Ready] using enabled)
      | choose | stop => simp [stmt, Ready] at enabled

theorem step_of_enabled (enabled : Enabled P s l) : Step P s l (next P s l) := by
  cases l with
  | run i => exact step_of_run enabled
  | notify i j =>
      cases place : s.threads i with
      | unborn | asleep k | woken k => simp [Enabled, place] at enabled
      | ready pc =>
          cases stmt : P i pc with
          | signal k =>
              simp only [Enabled, place, stmt] at enabled
              obtain ⟨k', asleep⟩ := Status.eq_asleep enabled
              simp only [next, place, stmt, asleep, Status.wake]
              refine .notify place stmt asleep fun same => ?_
              subst same
              rw [place] at asleep
              cases asleep
          | lock | unlock | wait | broadcast | act | spawn | join | choose | stop =>
              simp [Enabled, place, stmt] at enabled
  | choose i k =>
      cases place : s.threads i with
      | unborn | asleep k | woken k => simp [Enabled, place] at enabled
      | ready pc =>
          cases stmt : P i pc with
          | choose allowed =>
              simp only [Enabled, place, stmt] at enabled
              exact .choose place stmt enabled
          | lock | unlock | wait | signal | broadcast | act | spawn | join | stop =>
              simp [Enabled, place, stmt] at enabled
  | spurious j =>
      obtain ⟨k, asleep⟩ := Status.eq_asleep enabled
      simp only [next, asleep, Status.wake]
      exact .spurious asleep

end Steps

end Monitor
