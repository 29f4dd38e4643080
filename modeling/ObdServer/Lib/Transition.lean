import Mathlib.Data.List.Basic

/-! # Guarded transition systems and their runs

A system is a guard and a total effect on the same labels: a label carries every
choice its step makes, so a run is determined by its first state and its labels.
Traces keep the state each step starts from, because conditions on a run are
mostly conditions on the states in which its steps are taken.
-/

namespace Transition

structure System (State Label : Type*) where
  init : State → Prop
  enabled : State → Label → Prop
  next : State → Label → State

variable {State Label : Type*}

/-- `Run M s tr t`: from `s` the system gets to `t`, and `tr` lists the source state
    and the label of each step, oldest first. -/
inductive Run (M : System State Label) (s : State) : List (State × Label) → State → Prop where
  | refl : Run M s [] s
  | tail {tr : List (State × Label)} {t : State} {l : Label} :
      Run M s tr t → M.enabled t l → Run M s (tr ++ [(t, l)]) (M.next t l)

variable {M : System State Label} {s t u : State} {l : Label} {tr tr' : List (State × Label)}

/-- The states a run passes through, its last one included. -/
def Visits (tr : List (State × Label)) (t u : State) : Prop :=
  u = t ∨ ∃ l, (u, l) ∈ tr

namespace Run

theorem single (enabled : M.enabled s l) : Run M s [(s, l)] (M.next s l) :=
  Run.refl.tail enabled

theorem trans (first : Run M s tr t) (second : Run M t tr' u) : Run M s (tr ++ tr') u := by
  induction second with
  | refl => simpa using first
  | tail _ enabled ih =>
      rw [← List.append_assoc]
      exact ih.tail enabled

/-- The rule for invariants of every step. -/
theorem preserves (run : Run M s tr t) (inv : State → Prop)
    (step : ∀ u l, inv u → M.enabled u l → inv (M.next u l)) (start : inv s) : inv t := by
  induction run with
  | refl => exact start
  | tail _ enabled ih => exact step _ _ ih enabled

/-- The rule for runs whose steps all meet a condition on the state they start from. -/
theorem preservesWhere (run : Run M s tr t) (inv : State → Prop) (ok : State → Label → Prop)
    (step : ∀ u l, inv u → ok u l → M.enabled u l → inv (M.next u l))
    (allowed : ∀ p ∈ tr, ok p.1 p.2) (start : inv s) : inv t := by
  induction run with
  | refl => exact start
  | tail _ enabled ih =>
      have before := ih fun p member => allowed p (List.mem_append_left _ member)
      have last := allowed _ (List.mem_append_right _ (List.mem_singleton.mpr rfl))
      exact step _ _ before last enabled

/-- A run can be cut in front of any of its steps. -/
theorem cut (run : Run M s tr t) (member : (u, l) ∈ tr) :
    ∃ before after, Run M s before u ∧ M.enabled u l ∧ Run M (M.next u l) after t ∧
      tr = before ++ (u, l) :: after := by
  induction run with
  | refl => cases member
  | @tail tr' t' l' earlier enabled ih =>
      rcases List.mem_append.mp member with inside | last
      · obtain ⟨before, after, left, taken, right, shape⟩ := ih inside
        exact ⟨before, after ++ [(t', l')], left, taken, right.tail enabled, by simp [shape]⟩
      · obtain ⟨rfl, rfl⟩ := Prod.mk.inj (List.mem_singleton.mp last)
        exact ⟨tr', [], earlier, enabled, .refl, rfl⟩

/-- Every state a run passes through is the end of a part of it. -/
theorem visited (run : Run M s tr t) (visit : Visits tr t u) :
    ∃ before after, Run M s before u ∧ Run M u after t ∧ tr = before ++ after := by
  rcases visit with rfl | ⟨l, member⟩
  · exact ⟨tr, [], run, .refl, by simp⟩
  · obtain ⟨before, after, left, taken, right, shape⟩ := run.cut member
    exact ⟨before, (u, l) :: after, left, (single taken).trans right, shape⟩

/-- Where exactly the steps that meet `ok` keep an invariant, and each other step breaks
    `good` at once, the runs that stay good are those whose steps all meet `ok`. -/
theorem safe_iff {good : State → Prop} (run : Run M s tr t) (inv : State → Prop)
    (ok : State → Label → Prop)
    (keep : ∀ u l, inv u → ok u l → M.enabled u l → inv (M.next u l))
    (sound : ∀ u, inv u → good u)
    (broken : ∀ u l, inv u → ¬ ok u l → M.enabled u l → ¬ good (M.next u l)) (start : inv s) :
    (∀ u, Visits tr t u → good u) ↔ ∀ p ∈ tr, ok p.1 p.2 := by
  have both : (∀ u, Visits tr t u → good u) → inv t ∧ ∀ p ∈ tr, ok p.1 p.2 := by
    induction run with
    | refl => exact fun _ => ⟨start, by simp⟩
    | @tail tr t l _ enabled ih =>
        intro stays
        obtain ⟨before, allowed⟩ := ih fun u visit => stays u (.inr (by
          rcases visit with rfl | ⟨l', member⟩
          · exact ⟨l, by simp⟩
          · exact ⟨l', List.mem_append_left _ member⟩))
        have last : ok t l := by
          by_contra bad
          exact broken t l before bad enabled (stays _ (.inl rfl))
        refine ⟨keep t l before last enabled, fun p member => ?_⟩
        rcases List.mem_append.mp member with inside | new
        · exact allowed p inside
        · obtain rfl := List.mem_singleton.mp new
          exact last
  constructor
  · intro stays
    exact (both stays).2
  · intro allowed u visit
    obtain ⟨before, after, left, _, shape⟩ := run.visited visit
    have allowedBefore : ∀ p ∈ before, ok p.1 p.2 := fun p member =>
      allowed p (shape ▸ List.mem_append_left _ member)
    exact sound u (left.preservesWhere inv ok keep allowedBefore start)

/-- The rule for simulations: where `f` takes each step from a state with the invariant to
    the step of another system with the same label, it takes runs to runs. -/
theorem simulates {State' : Type*} {N : System State' Label} (run : Run M s tr t)
    (inv : State → Prop) (f : State → State') (enabled : ∀ u l, M.enabled u l → N.enabled (f u) l)
    (step : ∀ u l, inv u → M.enabled u l → f (M.next u l) = N.next (f u) l ∧ inv (M.next u l))
    (start : inv s) : Run N (f s) (tr.map fun p => (f p.1, p.2)) (f t) ∧ inv t := by
  induction run with
  | refl => exact ⟨.refl, start⟩
  | @tail tr u l _ taken ih =>
      obtain ⟨before, here⟩ := ih
      obtain ⟨same, after⟩ := step u l here taken
      rw [List.map_append, List.map_singleton, same]
      exact ⟨before.tail (enabled u l taken), after⟩

/-- The rule for forward simulations, in which a step is answered by any number of steps of
    the other system. -/
theorem forward {State' Label' : Type*} {N : System State' Label'} {s' : State'}
    (run : Run M s tr t) (R : State → State' → Prop)
    (step : ∀ u l u', R u u' → M.enabled u l → ∃ tr' v', Run N u' tr' v' ∧ R (M.next u l) v')
    (start : R s s') : ∃ tr' t', Run N s' tr' t' ∧ R t t' := by
  induction run with
  | refl => exact ⟨[], s', .refl, start⟩
  | @tail tr u l _ enabled ih =>
      obtain ⟨tr', u', before, related⟩ := ih
      obtain ⟨answer, v', after, related'⟩ := step u l u' related enabled
      exact ⟨tr' ++ answer, v', before.trans after, related'⟩

/-- The rule for refinements that say how each step is answered: `f` takes runs to runs, with
    the labels of the answers in order. -/
theorem answered {State' Label' : Type*} {N : System State' Label'} (run : Run M s tr t)
    (inv : State → Prop) (f : State → State') (answer : State → Label → List Label')
    (step : ∀ u l, inv u → M.enabled u l →
      (∃ tr', Run N (f u) tr' (f (M.next u l)) ∧ tr'.map Prod.snd = answer u l) ∧ inv (M.next u l))
    (start : inv s) :
    (∃ tr', Run N (f s) tr' (f t) ∧
      tr'.map Prod.snd = tr.flatMap fun p => answer p.1 p.2) ∧ inv t := by
  induction run with
  | refl => exact ⟨⟨[], .refl, rfl⟩, start⟩
  | @tail tr u l _ enabled ih =>
      obtain ⟨⟨tr', before, labels⟩, here⟩ := ih
      obtain ⟨⟨last, after, labels'⟩, kept⟩ := step u l here enabled
      refine ⟨⟨tr' ++ last, before.trans after, ?_⟩, kept⟩
      simp [labels, labels']

/-- The rule for termination: where every step uses up some of a measure, except that the
    steps of one kind may first put back as much as `price`, those steps bound the others. -/
theorem length_le (run : Run M s tr t) (inv : State → Prop) (measure : State → Nat)
    (kind : Label → Bool) (price : Nat)
    (step : ∀ u l, inv u → M.enabled u l →
      measure (M.next u l) < measure u + price * (kind l).toNat ∧ inv (M.next u l))
    (start : inv s) :
    tr.length + measure t ≤ measure s + price * tr.countP (fun p => kind p.2) ∧ inv t := by
  induction run with
  | refl => exact ⟨by simp, start⟩
  | @tail tr u l _ enabled ih =>
      obtain ⟨before, here⟩ := ih
      obtain ⟨less, after⟩ := step u l here enabled
      have last : [(u, l)].countP (fun p => kind p.2) = (kind l).toNat := by
        cases paid : kind l <;> simp [paid]
      refine ⟨?_, after⟩
      rw [List.length_append, List.length_singleton, List.countP_append, last, Nat.mul_add]
      omega

/-- The rule for high-water marks: where every step raises the mark to the level it leads to,
    and no further, the mark is the highest level of the run. -/
theorem peak (run : Run M s tr t) (inv : State → Prop) (mark level : State → Nat)
    (step : ∀ u l, inv u → M.enabled u l →
      mark (M.next u l) = max (mark u) (level (M.next u l)) ∧ inv (M.next u l))
    (start : inv s) (equal : mark s = level s) :
    (∀ u, Visits tr t u → level u ≤ mark t) ∧ ∃ u, Visits tr t u ∧ level u = mark t := by
  induction run with
  | refl =>
      refine ⟨fun u visit => ?_, s, .inl rfl, equal.symm⟩
      rcases visit with rfl | ⟨l, member⟩
      · exact Nat.le_of_eq equal.symm
      · cases member
  | @tail tr u l earlier enabled ih =>
      obtain ⟨raised, -⟩ := step u l (earlier.preserves inv (fun _ _ h e => (step _ _ h e).2) start)
        enabled
      obtain ⟨below, highest, visit, reached⟩ := ih
      have passed : ∀ v, Visits tr u v → Visits (tr ++ [(u, l)]) (M.next u l) v := by
        rintro v (rfl | ⟨l', member⟩)
        · exact .inr ⟨l, by simp⟩
        · exact .inr ⟨l', List.mem_append_left _ member⟩
      refine ⟨fun v visit => ?_, ?_⟩
      · rw [raised]
        rcases visit with rfl | ⟨l', member⟩
        · exact Nat.le_max_right _ _
        · refine Nat.le_trans (below v ?_) (Nat.le_max_left _ _)
          rcases List.mem_append.mp member with old | last
          · exact .inr ⟨l', old⟩
          · exact .inl (Prod.mk.inj (List.mem_singleton.mp last)).1
      · rcases Nat.le_total (level (M.next u l)) (mark u) with lower | higher
        · exact ⟨highest, passed _ visit, reached.trans (raised.trans (Nat.max_eq_left lower)).symm⟩
        · exact ⟨_, .inl rfl, (raised.trans (Nat.max_eq_right higher)).symm⟩

end Run

/-- The state after a schedule of labels. -/
def exec (M : System State Label) (s : State) (labels : List Label) : State :=
  labels.foldl M.next s

/-- Every label of the schedule is enabled when its turn comes. -/
def Admits (M : System State Label) : State → List Label → Prop
  | _, [] => True
  | s, l :: rest => M.enabled s l ∧ Admits M (M.next s l) rest

/-- The trace a schedule leaves. -/
def trace (M : System State Label) : State → List Label → List (State × Label)
  | _, [] => []
  | s, l :: rest => (s, l) :: trace M (M.next s l) rest

instance decidableAdmits (M : System State Label) [∀ s l, Decidable (M.enabled s l)] :
    ∀ s labels, Decidable (Admits M s labels)
  | _, [] => .isTrue trivial
  | s, l :: rest =>
      have := decidableAdmits M (M.next s l) rest
      inferInstanceAs (Decidable (M.enabled s l ∧ Admits M (M.next s l) rest))

/-- An admitted schedule is a run. -/
theorem Run.ofSchedule (labels : List Label) (admitted : Admits M s labels) :
    Run M s (trace M s labels) (exec M s labels) := by
  induction labels generalizing s with
  | nil => exact .refl
  | cons l rest ih => exact (Run.single admitted.1).trans (ih admitted.2)

end Transition
