import Mathlib.Logic.Function.Basic
import Mathlib.Tactic.ByCases

/-! # Straight-line bodies under one non-recursive lock

A body is the list of statements a call executes. `Paired` is a static check of a
body against the lock, given whether its thread holds the lock when it starts: the
lock is taken only while it is not held, given back only while it is, and every way
out of the body leaves it given back.
-/

namespace Mutex

inductive Stmt (Act : Type*) where
  | lock
  | unlock
  | act (a : Act)
  /-- Ends the call; what follows in the body is never executed. -/
  | ret
  deriving DecidableEq

variable {Act Thread : Type*} {t t' : Thread} {owner : Option Thread} {held held' : Prop}
  {stmt : Stmt Act} {rest body : List (Stmt Act)}

/-- The discipline of a body, from a point at which its thread holds the lock or not. -/
def Paired (held : Prop) : List (Stmt Act) → Prop
  | [] => ¬ held
  | .lock :: rest => ¬ held ∧ Paired True rest
  | .unlock :: rest => held ∧ Paired False rest
  | .act _ :: rest => Paired held rest
  | .ret :: _ => ¬ held

/-- A thread can execute the statement: only taking the lock can block. -/
def Ready (owner : Option Thread) : Stmt Act → Prop
  | .lock => owner = none
  | .unlock | .act _ | .ret => True

instance [DecidableEq Thread] (owner : Option Thread) :
    (stmt : Stmt Act) → Decidable (Ready owner stmt)
  | .lock => inferInstanceAs (Decidable (owner = none))
  | .unlock | .act _ | .ret => inferInstanceAs (Decidable True)

/-- The owner of the lock after thread `t` has executed a statement. -/
def ownerAfter (t : Thread) (owner : Option Thread) : Stmt Act → Option Thread
  | .lock => some t
  | .unlock => none
  | .act _ | .ret => owner

theorem Paired.congr (same : held ↔ held') : Paired held body ↔ Paired held' body := by
  rw [propext same]

/-- Executing a statement other than a return leaves the rest of the body disciplined. -/
theorem Paired.exec (paired : Paired (owner = some t) (stmt :: rest))
    (continues : stmt ≠ .ret) : Paired (ownerAfter t owner stmt = some t) rest := by
  cases stmt with
  | lock => exact (Paired.congr (by simp [ownerAfter])).mp paired.2
  | unlock => exact (Paired.congr (by simp [ownerAfter])).mp paired.2
  | act a => exact paired
  | ret => exact absurd rfl continues

/-- A return out of a disciplined body leaves the lock given back. -/
theorem Paired.ret (paired : Paired (owner = some t) (.ret :: rest)) : owner ≠ some t :=
  paired

/-- Whether another thread holds the lock does not change. -/
theorem Paired.owner_other (paired : Paired (owner = some t) (stmt :: rest))
    (ready : Ready owner stmt) (other : t' ≠ t) :
    ownerAfter t owner stmt = some t' ↔ owner = some t' := by
  cases stmt with
  | lock =>
      have free : owner = none := ready
      simp [ownerAfter, free, other.symm]
  | unlock =>
      have mine : owner = some t := paired.1
      simp [ownerAfter, mine, other.symm]
  | act a => exact Iff.rfl
  | ret => exact Iff.rfl

/-- A thread that is about to take the lock does not hold it. -/
theorem Paired.request (paired : Paired (owner = some t) (.lock :: rest)) :
    owner ≠ some t :=
  paired.1

end Mutex
