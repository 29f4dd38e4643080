import Mathlib.Logic.Function.Iterate

/-! # While loops with fuel

A loop that may not end is run with a bound on its iterations. Its result does not
depend on the bound once it is large enough, so a statement about the loop is one
about the number of iterations after which its condition first fails.
-/

namespace WhileLoop

variable {State : Type*} {cond : State → Bool} {body : State → State} {s t u : State}
  {fuel n : Nat}

def run (cond : State → Bool) (body : State → State) : Nat → State → Option State
  | 0, s => if cond s then none else some s
  | fuel + 1, s => if cond s then run cond body fuel (body s) else some s

/-- The loop makes exactly `n` iterations from `s`. -/
def Iterates (cond : State → Bool) (body : State → State) (n : Nat) (s : State) : Prop :=
  (∀ k < n, cond (body^[k] s)) ∧ ¬ cond (body^[n] s)

theorem Iterates.tail (iterates : Iterates cond body (n + 1) s) :
    Iterates cond body n (body s) :=
  ⟨fun k small => iterates.1 (k + 1) (Nat.succ_lt_succ small), iterates.2⟩

theorem run_of_iterates (iterates : Iterates cond body n s) (enough : n ≤ fuel) :
    run cond body fuel s = some (body^[n] s) := by
  induction fuel generalizing n s with
  | zero =>
      obtain rfl : n = 0 := Nat.le_zero.mp enough
      exact if_neg iterates.2
  | succ fuel ih =>
      cases n with
      | zero => exact if_neg iterates.2
      | succ n =>
          have again : cond s = true := iterates.1 0 (Nat.succ_pos n)
          simp only [run, if_pos again]
          exact ih iterates.tail (Nat.le_of_succ_le_succ enough)

theorem iterates_of_run (result : run cond body fuel s = some t) :
    ∃ n ≤ fuel, Iterates cond body n s ∧ t = body^[n] s := by
  induction fuel generalizing s with
  | zero =>
      simp only [run] at result
      split at result
      · cases result
      · cases result
        exact ⟨0, Nat.le_refl 0, ⟨fun k small => absurd small (Nat.not_lt_zero k), ‹_›⟩, rfl⟩
  | succ fuel ih =>
      simp only [run] at result
      split at result
      · obtain ⟨n, enough, ⟨before, after⟩, last⟩ := ih result
        refine ⟨n + 1, Nat.succ_le_succ enough, ⟨fun k small => ?_, after⟩, last⟩
        cases k with
        | zero => assumption
        | succ k => exact before k (Nat.lt_of_succ_lt_succ small)
      · cases result
        exact ⟨0, Nat.zero_le _, ⟨fun k small => absurd small (Nat.not_lt_zero k), ‹_›⟩, rfl⟩

/-- The number of iterations is determined, and so is the result. -/
theorem Iterates.unique {m : Nat} (left : Iterates cond body n s)
    (right : Iterates cond body m s) : n = m := by
  rcases Nat.lt_trichotomy n m with less | same | more
  · exact absurd (right.1 n less) left.2
  · exact same
  · exact absurd (left.1 m more) right.2

theorem run_unique {fuel' : Nat} (left : run cond body fuel s = some t)
    (right : run cond body fuel' s = some u) : t = u := by
  obtain ⟨n, -, first, rfl⟩ := iterates_of_run left
  obtain ⟨m, -, second, rfl⟩ := iterates_of_run right
  rw [first.unique second]

/-- A loop that keeps an invariant under which its condition holds never ends. -/
theorem run_eq_none (inv : State → Prop) (again : ∀ s, inv s → cond s = true)
    (keep : ∀ s, inv s → inv (body s)) (start : inv s) (fuel : Nat) :
    run cond body fuel s = none := by
  induction fuel generalizing s with
  | zero => exact if_pos (again s start)
  | succ fuel ih =>
      simp only [run, if_pos (again s start)]
      exact ih (keep s start)

/-- Where `f` takes every iteration of a loop to one of another, it takes what one leaves to
    what the other does, with any fuel. -/
theorem run_simulates {State' : Type*} {cond' : State' → Bool} {body' : State' → State'}
    (inv : State → Prop) (f : State → State') (again : ∀ s, inv s → cond' (f s) = cond s)
    (step : ∀ s, inv s → cond s = true → f (body s) = body' (f s) ∧ inv (body s)) (start : inv s)
    (fuel : Nat) : run cond' body' fuel (f s) = (run cond body fuel s).map f := by
  induction fuel generalizing s with
  | zero =>
      simp only [run, again s start]
      split <;> rfl
  | succ fuel ih =>
      simp only [run, again s start]
      split
      next more =>
        obtain ⟨same, next⟩ := step s start more
        rw [← same]
        exact ih next
      next => rfl

/-! ## Loops that write at a cursor -/

section Cursor

variable {writes : State → Bool} {cursor : State → Nat} {limit : Nat}

end Cursor

end WhileLoop
