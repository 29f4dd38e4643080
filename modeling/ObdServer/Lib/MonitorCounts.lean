import Mathlib.Algebra.Order.BigOperators.Group.Finset
import Mathlib.Algebra.Module.NatInt
import ObdServer.Lib.MonitorRules

/-! # Counting over the threads of a monitor

Each thread weighs something at each place. The rules below compare the total weight with
a number the data gives: a balance that no step disturbs, a demand that the threads which
are awake have to meet before any may sleep, and a measure that every step uses up.
-/

namespace Monitor

variable {Thread Data : Type*} {Pc : Thread → Type*} [DecidableEq Thread] [Fintype Thread]
  {P : Program Data Pc} {s s' : State Data Pc} {l : Label Pc}

section Totals

variable {M : Type*} [AddCommMonoid M] (v : ∀ i, Status (Pc i) → M)

omit [DecidableEq Thread] in
def State.total (s : State Data Pc) : M := ∑ i, v i (s.threads i)

variable {v}

theorem State.total_move (s : State Data Pc) (i : Thread) (st : Status (Pc i)) :
    (s.move i st).total v + v i (s.threads i) = s.total v + v i st := by
  have moved : ∀ j, v j ((s.move i st).threads j) =
      Function.update (fun j => v j (s.threads j)) i (v i st) j :=
    fun j => Function.apply_update v s.threads i st j
  have here := Finset.mem_univ i
  simp only [State.total, moved]
  rw [Finset.sum_update_of_mem here, Finset.sdiff_singleton_eq_erase,
    ← Finset.add_sum_erase _ _ here]
  ac_rfl

omit [DecidableEq Thread] in
/-- Waking threads that sleep as heavily as they wake. -/
theorem State.total_wakeAll (same : ∀ i k, v i (.woken k) = v i (.asleep k)) (s : State Data Pc) :
    s.wakeAll.total v = s.total v := by
  refine Finset.sum_congr rfl fun i _ => ?_
  simp only [State.wakeAll]
  cases s.threads i with
  | asleep k => exact same i k
  | unborn | ready | woken => rfl

/-- A thread that weighs what its place does, be it awake or not; before it is born it weighs
    nothing. -/
def byPlace (w : ∀ i, Pc i → M) (i : Thread) (st : Status (Pc i)) : M :=
  match st.place with
  | none => 0
  | some k => w i k

omit [DecidableEq Thread] [Fintype Thread] in
theorem byPlace_eq_zero {w : ∀ i, Pc i → M} {i : Thread} (nothing : ∀ k, w i k = 0)
    (st : Status (Pc i)) : byPlace w i st = 0 := by
  rw [byPlace]
  cases st.place with
  | none => rfl
  | some k => exact nothing k

end Totals

/-! ## A balance -/

section Balance

variable (c : Data → ℤ) (v : ∀ i, Status (Pc i) → ℤ) (K : ∀ i, Pc i → Data → Prop)

/-- What the statement changes in the data, it changes in the weight of its thread. -/
def Stmt.Balances {i : Thread} (pc : Pc i) : Stmt Data Pc i → Prop
  | .lock k | .unlock k | .signal k | .broadcast k | .join _ k =>
      v i (.ready k) = v i (.ready pc)
  | .wait k => v i (.asleep k) = v i (.ready pc)
  | .act f => ∀ d, K i pc d → c (f d).1 + v i (.ready pc) = c d + v i (.ready (f d).2)
  | .spawn j start k => v i (.ready k) + v j (.ready start) = v i (.ready pc) + v j .unborn
  | .choose allowed => ∀ k, allowed k = true → v i (.ready k) = v i (.ready pc)
  | .stop => True

variable {c v K}

theorem balance_step (balances : ∀ i pc, (P i pc).Balances c v K pc)
    (wakes : ∀ i k, v i (.woken k) = v i (.asleep k))
    (resumes : ∀ i k, v i (.ready k) = v i (.woken k))
    (known : ∀ i pc, s.threads i = .ready pc → K i pc s.data) (balance : c s.data = s.total v)
    (step : Step P s l s') : c s'.data = s'.total v := by
  cases step with
  | @lock i pc k place stmt _ | @unlock i pc k place stmt | @signal i pc k place stmt
  | @join i _ pc k place stmt =>
      have same := balances i pc
      rw [stmt, Stmt.Balances] at same
      have moved := s.total_move (v := v) i (.ready k)
      rw [place, same] at moved
      exact balance.trans (add_right_cancel moved).symm
  | @relock i k place _ =>
      have moved := s.total_move (v := v) i (.ready k)
      rw [place, resumes] at moved
      exact balance.trans (add_right_cancel moved).symm
  | @spurious i k place =>
      have moved := s.total_move (v := v) i (.woken k)
      rw [place, wakes] at moved
      exact balance.trans (add_right_cancel moved).symm
  | @wait i pc k place stmt =>
      have same := balances i pc
      rw [stmt, Stmt.Balances] at same
      have moved := s.total_move (v := v) i (.asleep k)
      rw [place, same] at moved
      exact balance.trans (add_right_cancel moved).symm
  | @notify i j pc k k' place stmt asleep other =>
      have same := balances i pc
      rw [stmt, Stmt.Balances] at same
      have first := s.total_move (v := v) j (.woken k')
      rw [asleep, wakes] at first
      have moved := (s.move j (.woken k')).total_move (v := v) i (.ready k)
      rw [State.move_of_ne _ _ _ other.symm, place, same] at moved
      exact balance.trans ((add_right_cancel moved).trans (add_right_cancel first)).symm
  | @broadcast i pc k place stmt =>
      have same := balances i pc
      rw [stmt, Stmt.Balances] at same
      have moved := s.wakeAll.total_move (v := v) i (.ready k)
      have here : s.wakeAll.threads i = .ready pc := by simp [State.wakeAll, place, Status.wake]
      rw [here, same] at moved
      exact balance.trans ((add_right_cancel moved).trans (s.total_wakeAll wakes)).symm
  | @act i pc f place stmt =>
      have same := balances i pc
      rw [stmt, Stmt.Balances] at same
      have changed := same s.data (known i pc place)
      have moved := s.total_move (v := v) i (.ready (f s.data).2)
      rw [place] at moved
      change c (f s.data).1 = (s.move i (.ready (f s.data).2)).total v
      omega
  | @spawn i j pc k start place stmt unborn other =>
      have same := balances i pc
      rw [stmt, Stmt.Balances] at same
      have first := s.total_move (v := v) j (.ready start)
      rw [unborn] at first
      have moved := (s.move j (.ready start)).total_move (v := v) i (.ready k)
      rw [State.move_of_ne _ _ _ other.symm, place] at moved
      change c s.data = ((s.move j (.ready start)).move i (.ready k)).total v
      omega
  | @choose i pc k allowed place stmt may =>
      have same := balances i pc
      rw [stmt, Stmt.Balances] at same
      have moved := s.total_move (v := v) i (.ready k)
      rw [place, same k may] at moved
      exact balance.trans (add_right_cancel moved).symm

end Balance

/-! ## A demand

While the data is `live`, no thread may stay asleep unless the others meet the demand.
-/

section Demand

variable (live : Data → Prop) (c : Data → ℕ) (v : ∀ i, Status (Pc i) → ℕ)
  (K : ∀ i, Pc i → Data → Prop) (W : ∀ i, Pc i → Prop)

/-- Threads fall asleep only where nothing is demanded; a signal makes up for its thread's
    weight by the weight of the thread it wakes. -/
def Stmt.Meets {i : Thread} (pc : Pc i) : Stmt Data Pc i → Prop
  | .lock k | .unlock k | .join _ k => v i (.ready pc) ≤ v i (.ready k)
  | .wait _ => ∀ d, K i pc d → live d → c d = 0
  | .signal k =>
      ∀ j k', W j k' → v i (.ready pc) + v j (.asleep k') ≤ v i (.ready k) + v j (.woken k')
  | .act f =>
      ∀ d, K i pc d → live (f d).1 →
        live d ∧ c (f d).1 + v i (.ready pc) ≤ c d + v i (.ready (f d).2)
  | .spawn j start k => v i (.ready pc) + v j .unborn ≤ v i (.ready k) + v j (.ready start)
  | .choose allowed => ∀ k, allowed k = true → v i (.ready pc) ≤ v i (.ready k)
  | .broadcast _ | .stop => True

def Met (s : State Data Pc) : Prop :=
  live s.data → ∀ j, (s.threads j).isAsleep = true → c s.data ≤ s.total v

variable {live c v K W}

/-- A thread that is awake before the step and after it, and weighs no less. -/
theorem Met.move (met : Met live c v s) {i : Thread} {st : Status (Pc i)} {o : Option Thread}
    (awake : st.isAsleep = false) (grows : v i (s.threads i) ≤ v i st) :
    Met live c v (State.move { s with owner := o } i st) := by
  intro lives j asleep
  have moved := s.total_move (v := v) i st
  have before : (s.threads j).isAsleep = true := by
    by_cases same : j = i
    · subst same
      rw [State.move_self, awake] at asleep
      cases asleep
    · simpa [same] using asleep
  have enough := met lives j before
  change c s.data ≤ (s.move i st).total v
  omega

theorem Met.step (meets : ∀ i pc, (P i pc).Meets live c v K W pc)
    (wakes : ∀ i k, W i k → v i (.asleep k) ≤ v i (.woken k))
    (resumes : ∀ i k, W i k → v i (.woken k) ≤ v i (.ready k))
    (known : ∀ i pc, s.threads i = .ready pc → K i pc s.data) (parks : Parks W s)
    (met : Met live c v s)
    (step : Step P s l s') : Met live c v s' := by
  cases step with
  | @lock i pc k place stmt _ | @unlock i pc k place stmt | @join i _ pc k place stmt =>
      have grows := meets i pc
      rw [stmt, Stmt.Meets] at grows
      exact met.move rfl (by rwa [place])
  | @relock i k place _ =>
      exact met.move rfl (by rw [place]; exact resumes i k (parks i k (by rw [place]; rfl)))
  | @spurious i k place =>
      exact met.move rfl (by rw [place]; exact wakes i k (parks i k (by rw [place]; rfl)))
  | @choose i pc k allowed place stmt may =>
      have grows := meets i pc
      rw [stmt, Stmt.Meets] at grows
      exact met.move rfl (by rw [place]; exact grows k may)
  | @wait i pc k place stmt =>
      have nothing := meets i pc
      rw [stmt, Stmt.Meets] at nothing
      intro lives _ _
      exact (nothing s.data (known i pc place) lives).trans_le (Nat.zero_le _)
  | @signal i pc k place stmt nobody =>
      intro _ j asleep
      by_cases same : j = i
      · subst same
        simp [Status.isAsleep] at asleep
      · simp [same, nobody j] at asleep
  | @notify i j pc k k' place stmt asleep other =>
      have grows := meets i pc
      rw [stmt, Stmt.Meets] at grows
      intro lives _ _
      have first := s.total_move (v := v) j (.woken k')
      have second := (s.move j (.woken k')).total_move (v := v) i (.ready k)
      rw [asleep] at first
      rw [State.move_of_ne _ _ _ other.symm, place] at second
      have enough := met lives j (by rw [asleep]; rfl)
      have made := grows j k' (parks j k' (by rw [asleep]; rfl))
      change c s.data ≤ _
      omega
  | @broadcast i pc k place stmt =>
      intro _ j asleep
      by_cases same : j = i
      · subst same
        simp [Status.isAsleep] at asleep
      · simp only [State.move_of_ne _ _ _ same, State.wakeAll] at asleep
        cases status : s.threads j <;> simp [status, Status.wake, Status.isAsleep] at asleep
  | @act i pc f place stmt =>
      have grows := meets i pc
      rw [stmt, Stmt.Meets] at grows
      intro lives j asleep
      obtain ⟨lived, grown⟩ := grows s.data (known i pc place) lives
      have moved := s.total_move (v := v) i (.ready (f s.data).2)
      rw [place] at moved
      have before : (s.threads j).isAsleep = true := by
        by_cases same : j = i
        · subst same
          simp [Status.isAsleep] at asleep
        · simpa [same] using asleep
      have enough := met lived j before
      change c (f s.data).1 ≤ (s.move i (.ready (f s.data).2)).total v
      omega
  | @spawn i j pc k start place stmt unborn other =>
      have grows := meets i pc
      rw [stmt, Stmt.Meets] at grows
      intro lives j' asleep
      have first := s.total_move (v := v) j (.ready start)
      have second := (s.move j (.ready start)).total_move (v := v) i (.ready k)
      rw [unborn] at first
      rw [State.move_of_ne _ _ _ other.symm, place] at second
      have before : (s.threads j').isAsleep = true := by
        by_cases same : j' = i
        · subst same
          simp [Status.isAsleep] at asleep
        · by_cases born : j' = j
          · subst born
            simp [same, Status.isAsleep] at asleep
          · simpa [same, born] using asleep
      have enough := met lives j' before
      change c s.data ≤ _
      omega

end Demand

/-! ## A measure -/

section Measure

variable (m : Data → ℕ) (v : ∀ i, Status (Pc i) → ℕ) (lift : ℕ) (cost : Label Pc → ℕ)
  (K : ∀ i, Pc i → Data → Prop) {W : ∀ i, Pc i → Prop}

/-- The statement uses something up. A thread that wakes others pays for what their waking
    puts back, and the environment pays for what it chooses. -/
def Stmt.Descends {i : Thread} (pc : Pc i) : Stmt Data Pc i → Prop
  | .lock k | .unlock k | .join _ k => v i (.ready k) < v i (.ready pc)
  | .wait k => v i (.asleep k) < v i (.ready pc)
  | .signal k => v i (.ready k) + lift < v i (.ready pc)
  | .broadcast k => v i (.ready k) + Fintype.card Thread * lift < v i (.ready pc)
  | .act f => ∀ d, K i pc d → m (f d).1 + v i (.ready (f d).2) < m d + v i (.ready pc)
  | .spawn j start k => v i (.ready k) + v j (.ready start) < v i (.ready pc) + v j .unborn
  | .choose allowed =>
      ∀ k, allowed k = true → v i (.ready k) < v i (.ready pc) + cost (.choose i k)
  | .stop => True

omit [DecidableEq Thread] in
def State.measure (s : State Data Pc) : ℕ := m s.data + s.total v

variable {m v lift cost K}

omit [DecidableEq Thread] in
theorem State.total_wakeAll_le (wakes : ∀ i k, W i k → v i (.woken k) ≤ v i (.asleep k) + lift)
    (parks : Parks W s) : s.wakeAll.total v ≤ s.total v + Fintype.card Thread * lift := by
  have each : ∀ i, v i (s.threads i).wake ≤ v i (s.threads i) + lift := by
    intro i
    cases status : s.threads i with
    | asleep k => exact wakes i k (parks i k (by rw [status]; rfl))
    | unborn | ready | woken => exact Nat.le_add_right _ _
  calc s.wakeAll.total v
      ≤ ∑ i, (v i (s.threads i) + lift) := Finset.sum_le_sum fun i _ => each i
    _ = s.total v + Fintype.card Thread * lift := by
        rw [Finset.sum_add_distrib, Finset.sum_const, Finset.card_univ, smul_eq_mul]
        rfl

theorem measure_step (descends : ∀ i pc, (P i pc).Descends m v lift cost K pc)
    (wakes : ∀ i k, W i k → v i (.woken k) ≤ v i (.asleep k) + lift)
    (resumes : ∀ i k, W i k → v i (.ready k) < v i (.woken k))
    (spurious : ∀ j, lift < cost (.spurious j))
    (known : ∀ i pc, s.threads i = .ready pc → K i pc s.data) (parks : Parks W s)
    (step : Step P s l s') :
    s'.measure m v < s.measure m v + cost l := by
  -- a thread that gets lighter by more than its waking of others costs
  have lighter : ∀ {u : State Data Pc} (i : Thread) (st : Status (Pc i)) (n : ℕ),
      v i st < v i (u.threads i) + n → (u.move i st).total v < u.total v + n := by
    intro u i st n less
    have moved := u.total_move (v := v) i st
    omega
  cases step with
  | @lock i pc k place stmt _ | @unlock i pc k place stmt | @join i _ pc k place stmt =>
      have less := descends i pc
      rw [stmt, Stmt.Descends] at less
      have total := lighter (u := s) i (.ready k) 0 (by rwa [place])
      simp only [State.measure, State.move_data]
      change _ + (s.move i (.ready k)).total v < _
      omega
  | @wait i pc k place stmt =>
      have less := descends i pc
      rw [stmt, Stmt.Descends] at less
      have total := lighter (u := s) i (.asleep k) 0 (by rwa [place])
      simp only [State.measure, State.move_data]
      change _ + (s.move i (.asleep k)).total v < _
      omega
  | @relock i k place _ =>
      have less := resumes i k (parks i k (by rw [place]; rfl))
      have total := lighter (u := s) i (.ready k) 0 (by rwa [place])
      simp only [State.measure, State.move_data]
      change _ + (s.move i (.ready k)).total v < _
      omega
  | @signal i pc k place stmt _ =>
      have less := descends i pc
      rw [stmt, Stmt.Descends] at less
      have total := lighter (u := s) i (.ready k) 0 (by rw [place]; omega)
      simp only [State.measure, State.move_data]
      omega
  | @notify i j pc k k' place stmt asleep other =>
      have less := descends i pc
      rw [stmt, Stmt.Descends] at less
      have first := s.total_move (v := v) j (.woken k')
      have second := (s.move j (.woken k')).total_move (v := v) i (.ready k)
      have woken := wakes j k' (parks j k' (by rw [asleep]; rfl))
      rw [asleep] at first
      rw [State.move_of_ne _ _ _ other.symm, place] at second
      simp only [State.measure, State.move_data]
      omega
  | @broadcast i pc k place stmt =>
      have less := descends i pc
      rw [stmt, Stmt.Descends] at less
      have moved := s.wakeAll.total_move (v := v) i (.ready k)
      have woken := State.total_wakeAll_le wakes parks
      have here : s.wakeAll.threads i = .ready pc := by simp [State.wakeAll, place, Status.wake]
      rw [here] at moved
      simp only [State.measure]
      change m s.data + _ < _
      omega
  | @act i pc f place stmt =>
      have less := descends i pc
      rw [stmt, Stmt.Descends] at less
      have used := less s.data (known i pc place)
      have moved := s.total_move (v := v) i (.ready (f s.data).2)
      rw [place] at moved
      simp only [State.measure]
      change m (f s.data).1 + (s.move i (.ready (f s.data).2)).total v < _
      omega
  | @spawn i j pc k start place stmt unborn other =>
      have less := descends i pc
      rw [stmt, Stmt.Descends] at less
      have first := s.total_move (v := v) j (.ready start)
      have second := (s.move j (.ready start)).total_move (v := v) i (.ready k)
      rw [unborn] at first
      rw [State.move_of_ne _ _ _ other.symm, place] at second
      simp only [State.measure, State.move_data]
      omega
  | @choose i pc k allowed place stmt may =>
      have less := descends i pc
      rw [stmt, Stmt.Descends] at less
      have total := lighter (u := s) i (.ready k) (cost (.choose i k))
        (by rw [place]; exact less k may)
      simp only [State.measure, State.move_data]
      omega
  | @spurious j k asleep =>
      have paid := spurious j
      have woken := wakes j k (parks j k (by rw [asleep]; rfl))
      have total := lighter (u := s) j (.woken k) (cost (.spurious j))
        (by rw [asleep]; omega)
      simp only [State.measure, State.move_data]
      omega

end Measure

end Monitor
