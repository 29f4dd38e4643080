import ObdServer.Lib.Monitor

/-! # Proof rules for threads under one mutex

Each rule asks something of every statement of the program by itself, and gives an
invariant of all interleavings: the places inside the mutex belong to its owner; what the
owner knows at its place is nobody else's to change; a balance or a demand moves with the
threads; a measure pays for every step.
-/

namespace Monitor

variable {Thread Data : Type*} {Pc : Thread → Type*} [DecidableEq Thread]
  {P : Program Data Pc} {s s' : State Data Pc} {l : Label Pc}

namespace Status

variable {Place : Type*}

/-- The thread is at a place inside the mutex. -/
def holds (inside : Place → Bool) : Status Place → Bool
  | .ready pc => inside pc
  | _ => false

/-- Where a thread that waits will go on. -/
def parked : Status Place → Option Place
  | .asleep k | .woken k => some k
  | _ => none

/-- The place a thread is at or will go on from. -/
def place : Status Place → Option Place
  | .unborn => none
  | .ready k | .asleep k | .woken k => some k

@[simp] theorem holds_wake (inside : Place → Bool) (st : Status Place) :
    st.wake.holds inside = st.holds inside := by
  cases st <;> rfl

@[simp] theorem parked_wake (st : Status Place) : st.wake.parked = st.parked := by
  cases st <;> rfl

@[simp] theorem place_wake (st : Status Place) : st.wake.place = st.place := by
  cases st <;> rfl

theorem wake_eq_ready {st : Status Place} {pc : Place} (place : st.wake = .ready pc) :
    st = .ready pc := by
  cases st <;> first | exact place | cases place

end Status

/-! ## Mutual exclusion -/

section Exclusion

variable (inside : ∀ i, Pc i → Bool)

/-- The statement enters and leaves the places inside the mutex by its mutex calls only. -/
def Stmt.Bracketed {i : Thread} (pc : Pc i) : Stmt Data Pc i → Prop
  | .lock k => inside i pc = false ∧ inside i k = true
  | .unlock k => inside i pc = true ∧ inside i k = false
  | .wait k => inside i pc = true ∧ inside i k = true
  | .signal k | .broadcast k | .join _ k => inside i k = inside i pc
  | .act f => ∀ d, inside i (f d).2 = inside i pc
  | .spawn j start k => inside i k = inside i pc ∧ inside j start = false
  | .choose allowed => ∀ k, allowed k = true → inside i k = inside i pc
  | .stop => True

structure Exclusive (s : State Data Pc) : Prop where
  owner : ∀ i, s.owner = some i ↔ (s.threads i).holds (inside i) = true
  parked : ∀ i k, (s.threads i).parked = some k → inside i k = true

variable {inside}

omit [DecidableEq Thread] in
theorem Exclusive.held (exclusive : Exclusive inside s) {i : Thread} {pc : Pc i}
    (place : s.threads i = .ready pc) : s.owner = some i ↔ inside i pc = true := by
  rw [exclusive.owner, place, Status.holds]

omit [DecidableEq Thread] in
/-- No two threads are inside. -/
theorem Exclusive.unique (exclusive : Exclusive inside s) {i j : Thread} {pc : Pc i} {pc' : Pc j}
    (here : s.threads i = .ready pc) (there : s.threads j = .ready pc')
    (insideHere : inside i pc = true) (insideThere : inside j pc' = true) : i = j := by
  have first := (exclusive.held here).mpr insideHere
  have second := (exclusive.held there).mpr insideThere
  exact Option.some.inj (first.symm.trans second)

theorem Exclusive.move (exclusive : Exclusive inside s) {i : Thread} {st : Status (Pc i)}
    {o : Option Thread} (d : Data) (own : o = some i ↔ st.holds (inside i) = true)
    (others : ∀ j, j ≠ i → (o = some j ↔ s.owner = some j))
    (parks : ∀ k, st.parked = some k → inside i k = true) :
    Exclusive inside (State.move { s with data := d, owner := o } i st) where
  owner j := by
    by_cases same : j = i
    · subst same
      simpa using own
    · simpa [same, others j same] using exclusive.owner j
  parked j k parked := by
    by_cases same : j = i
    · subst same
      exact parks k (by simpa using parked)
    · exact exclusive.parked j k (by simpa [same] using parked)

/-- A step that neither takes nor gives back the mutex. -/
theorem Exclusive.stay (exclusive : Exclusive inside s) {i : Thread} {pc k : Pc i} (d : Data)
    (place : s.threads i = .ready pc) (same : inside i k = inside i pc) :
    Exclusive inside (State.move { s with data := d } i (.ready k)) :=
  exclusive.move d (by rw [exclusive.held place, Status.holds, same]) (fun _ _ => Iff.rfl)
    (by simp [Status.parked])

omit [DecidableEq Thread] in
theorem Exclusive.wakeAll (exclusive : Exclusive inside s) : Exclusive inside s.wakeAll where
  owner i := by simpa [State.wakeAll] using exclusive.owner i
  parked i k parked := exclusive.parked i k (by simpa [State.wakeAll] using parked)

theorem Exclusive.wake (exclusive : Exclusive inside s) {j : Thread} {k : Pc j}
    (asleep : s.threads j = .asleep k) : Exclusive inside (s.move j (.woken k)) :=
  exclusive.move s.data (by rw [exclusive.owner, asleep]; rfl) (fun _ _ => Iff.rfl)
    (fun k' parked => exclusive.parked j k' (by rw [asleep]; exact parked))

theorem Exclusive.step (bracketed : ∀ i pc, (P i pc).Bracketed inside pc)
    (exclusive : Exclusive inside s) (step : Step P s l s') : Exclusive inside s' := by
  cases step with
  | @lock i pc k place stmt free =>
      have brackets := bracketed i pc
      rw [stmt] at brackets
      exact exclusive.move s.data (by simp [Status.holds, brackets.2])
        (fun j other => by simp [free, Ne.symm other]) (by simp [Status.parked])
  | @relock i k place free =>
      have within := exclusive.parked i k (by rw [place]; rfl)
      exact exclusive.move s.data (by simp [Status.holds, within])
        (fun j other => by simp [free, Ne.symm other]) (by simp [Status.parked])
  | @unlock i pc k place stmt =>
      have brackets := bracketed i pc
      rw [stmt] at brackets
      have mine := (exclusive.held place).mpr brackets.1
      exact exclusive.move s.data (by simp [Status.holds, brackets.2])
        (fun j other => by simp [mine, Ne.symm other]) (by simp [Status.parked])
  | @wait i pc k place stmt =>
      have brackets := bracketed i pc
      rw [stmt] at brackets
      have mine := (exclusive.held place).mpr brackets.1
      exact exclusive.move s.data (by simp [Status.holds])
        (fun j other => by simp [mine, Ne.symm other]) (by simp [Status.parked, brackets.2])
  | @signal i pc k place stmt | @join i _ pc k place stmt =>
      have brackets := bracketed i pc
      rw [stmt] at brackets
      exact exclusive.stay s.data place brackets
  | @notify i j pc k k' place stmt asleep other =>
      have brackets := bracketed i pc
      rw [stmt] at brackets
      exact (exclusive.wake asleep).stay s.data (by simpa [other.symm] using place) brackets
  | @broadcast i pc k place stmt =>
      have brackets := bracketed i pc
      rw [stmt] at brackets
      exact exclusive.wakeAll.stay s.data (by simp [State.wakeAll, place, Status.wake]) brackets
  | @act i pc f place stmt =>
      have brackets := bracketed i pc
      rw [stmt] at brackets
      exact exclusive.stay _ place (brackets s.data)
  | @spawn i j pc k start place stmt unborn other =>
      have brackets := bracketed i pc
      rw [stmt] at brackets
      have born : Exclusive inside (s.move j (.ready start)) :=
        exclusive.move s.data (by rw [exclusive.owner, unborn]; simp [Status.holds, brackets.2])
          (fun _ _ => Iff.rfl) (by simp [Status.parked])
      exact born.stay s.data (by simpa [other.symm] using place) brackets.1
  | @choose i pc k allowed place stmt may =>
      have brackets := bracketed i pc
      rw [stmt] at brackets
      exact exclusive.stay s.data place (brackets k may)
  | @spurious j k asleep => exact exclusive.wake asleep

end Exclusion

/-! ## Assertions

`I` holds of the data while the mutex is free, and `A` at the places inside.
-/

section Assertions

variable (inside : ∀ i, Pc i → Bool) (I : Data → Prop) (A : ∀ i, Pc i → Data → Prop)

/-- The statement leads from its assertion to the next one; outside the mutex it leaves all
    assertions alone. -/
def Stmt.Keeps {i : Thread} (pc : Pc i) : Stmt Data Pc i → Prop
  | .lock k => ∀ d, I d → A i k d
  | .unlock _ => ∀ d, A i pc d → I d
  | .wait k => ∀ d, (A i pc d → I d) ∧ (I d → A i k d)
  | .signal k | .broadcast k | .join _ k | .spawn _ _ k =>
      inside i pc = true → ∀ d, A i pc d → A i k d
  | .act f =>
      if inside i pc = true then ∀ d, A i pc d → A i (f d).2 (f d).1
      else ∀ d, (I d → I (f d).1) ∧ ∀ j k, A j k d → A j k (f d).1
  | .choose allowed => inside i pc = true → ∀ k, allowed k = true → ∀ d, A i pc d → A i k d
  | .stop => True

structure Asserted (s : State Data Pc) : Prop where
  free : s.owner = none → I s.data
  held : ∀ i pc, s.threads i = .ready pc → inside i pc = true → A i pc s.data
  parked : ∀ i k, (s.threads i).parked = some k → ∀ d, I d → A i k d

variable {inside I A}

/-- A thread that moves with the mutex free before the step or after it. -/
theorem Asserted.move (asserted : Asserted inside I A s) {i : Thread} {st : Status (Pc i)}
    {o : Option Thread} (free : o = none → I s.data)
    (held : ∀ pc, st = .ready pc → inside i pc = true → A i pc s.data)
    (parks : ∀ k, st.parked = some k → ∀ d, I d → A i k d) :
    Asserted inside I A (State.move { s with owner := o } i st) where
  free := free
  held j pc place within := by
    by_cases same : j = i
    · subst same
      exact held pc (by simpa using place) within
    · exact asserted.held j pc (by simpa [same] using place) within
  parked j k parked := by
    by_cases same : j = i
    · subst same
      exact parks k (by simpa using parked)
    · exact asserted.parked j k (by simpa [same] using parked)

/-- A step on the mutex's side of its owner's code. -/
theorem Asserted.stay (asserted : Asserted inside I A s) {i : Thread} {pc k : Pc i}
    (place : s.threads i = .ready pc) (same : inside i k = inside i pc)
    (keeps : inside i pc = true → ∀ d, A i pc d → A i k d) :
    Asserted inside I A (s.move i (.ready k)) := by
  refine asserted.move asserted.free (fun pc' next within => ?_) (by simp [Status.parked])
  obtain rfl := Status.ready.inj next
  exact keeps (same ▸ within) s.data (asserted.held i pc place (same ▸ within))

omit [DecidableEq Thread] in
theorem Asserted.wakeAll (asserted : Asserted inside I A s) : Asserted inside I A s.wakeAll where
  free := asserted.free
  held i pc place within := asserted.held i pc (Status.wake_eq_ready place) within
  parked i k parked := asserted.parked i k (by simpa [State.wakeAll] using parked)

theorem Asserted.wake (asserted : Asserted inside I A s) {j : Thread} {k : Pc j}
    (asleep : s.threads j = .asleep k) : Asserted inside I A (s.move j (.woken k)) :=
  asserted.move asserted.free (fun pc place => by cases place)
    (fun k' parked => asserted.parked j k' (by rw [asleep]; exact parked))

/-- A statement on the data. The assertion of its own thread moves along if it is inside, and
    then no other thread is. -/
theorem Asserted.act (asserted : Asserted inside I A s) (exclusive : Exclusive inside s)
    {i : Thread} {pc : Pc i} {f : Data → Data × Pc i} (place : s.threads i = .ready pc)
    (brackets : inside i (f s.data).2 = inside i pc)
    (keeps : (Stmt.act f).Keeps inside I A pc) :
    Asserted inside I A (State.move { s with data := (f s.data).1 } i (.ready (f s.data).2)) := by
  by_cases within : inside i pc = true
  · rw [Stmt.Keeps, if_pos within] at keeps
    have mine := (exclusive.held place).mpr within
    refine ⟨fun free => absurd (mine.symm.trans free) (by simp), fun j pc' place' within' => ?_,
      fun j k parked => ?_⟩
    · by_cases same : j = i
      · subst same
        obtain rfl := Status.ready.inj (by simpa using place')
        exact keeps s.data (asserted.held j pc place within)
      · have there : s.threads j = .ready pc' := by simpa [same] using place'
        exact absurd (exclusive.unique there place within' within) same
    · by_cases same : j = i
      · subst same
        simp [Status.parked] at parked
      · exact asserted.parked j k (by simpa [same] using parked)
  · rw [Stmt.Keeps, if_neg within] at keeps
    obtain ⟨keepI, keepA⟩ := keeps s.data
    refine ⟨fun free => keepI (asserted.free free), fun j pc' place' within' => ?_,
      fun j k parked => ?_⟩
    · by_cases same : j = i
      · subst same
        obtain rfl := Status.ready.inj (by simpa using place')
        rw [brackets] at within'
        exact absurd within' within
      · exact keepA j pc' (asserted.held j pc' (by simpa [same] using place') within')
    · by_cases same : j = i
      · subst same
        simp [Status.parked] at parked
      · exact asserted.parked j k (by simpa [same] using parked)

theorem Asserted.step (bracketed : ∀ i pc, (P i pc).Bracketed inside pc)
    (keeps : ∀ i pc, (P i pc).Keeps inside I A pc) (exclusive : Exclusive inside s)
    (asserted : Asserted inside I A s) (step : Step P s l s') : Asserted inside I A s' := by
  cases step with
  | @lock i pc k place stmt free =>
      have keep := keeps i pc
      rw [stmt] at keep
      refine asserted.move (by simp) (fun pc' next _ => ?_) (by simp [Status.parked])
      obtain rfl := Status.ready.inj next
      exact keep s.data (asserted.free free)
  | @relock i k place free =>
      refine asserted.move (by simp) (fun pc' next _ => ?_) (by simp [Status.parked])
      obtain rfl := Status.ready.inj next
      exact asserted.parked i k (by rw [place]; rfl) s.data (asserted.free free)
  | @unlock i pc k place stmt =>
      have keep := keeps i pc
      have brackets := bracketed i pc
      rw [stmt] at keep brackets
      refine asserted.move (fun _ => keep s.data (asserted.held i pc place brackets.1))
        (fun pc' next within => ?_) (by simp [Status.parked])
      obtain rfl := Status.ready.inj next
      exact absurd within (by simp [brackets.2])
  | @wait i pc k place stmt =>
      have keep := keeps i pc
      have brackets := bracketed i pc
      rw [stmt] at keep brackets
      refine asserted.move (fun _ => (keep s.data).1 (asserted.held i pc place brackets.1))
        (by simp) (fun k' parked => ?_)
      obtain rfl := Option.some.inj parked
      exact fun d => (keep d).2
  | @signal i pc k place stmt | @join i _ pc k place stmt =>
      have keep := keeps i pc
      have brackets := bracketed i pc
      rw [stmt] at keep brackets
      exact asserted.stay place brackets keep
  | @notify i j pc k k' place stmt asleep other =>
      have keep := keeps i pc
      have brackets := bracketed i pc
      rw [stmt] at keep brackets
      exact (asserted.wake asleep).stay (by simpa [other.symm] using place) brackets keep
  | @broadcast i pc k place stmt =>
      have keep := keeps i pc
      have brackets := bracketed i pc
      rw [stmt] at keep brackets
      exact asserted.wakeAll.stay (by simp [State.wakeAll, place, Status.wake]) brackets keep
  | @act i pc f place stmt =>
      have keep := keeps i pc
      have brackets := bracketed i pc
      rw [stmt] at keep brackets
      exact asserted.act exclusive place (brackets s.data) keep
  | @spawn i j pc k start place stmt unborn other =>
      have keep := keeps i pc
      have brackets := bracketed i pc
      rw [stmt] at keep brackets
      have born : Asserted inside I A (s.move j (.ready start)) := by
        refine asserted.move asserted.free (fun pc' next within => ?_) (by simp [Status.parked])
        obtain rfl := Status.ready.inj next
        exact absurd within (by simp [brackets.2])
      exact born.stay (by simpa [other.symm] using place) brackets.1 keep
  | @choose i pc k allowed place stmt may =>
      have keep := keeps i pc
      have brackets := bracketed i pc
      rw [stmt] at keep brackets
      exact asserted.stay place (brackets k may) fun within => keep within k may
  | @spurious j k asleep => exact asserted.wake asleep

end Assertions

/-! ## Ends and waiting places -/

/-- A thread that has ended stays so. -/
theorem ended_step {j : Thread} (stopped : ended P s j = true) (step : Step P s l s') :
    ended P s' j = true := by
  obtain ⟨pc, place, last⟩ : ∃ pc, s.threads j = .ready pc ∧ (P j pc).isStop = true := by
    cases place : s.threads j with
    | ready pc => exact ⟨pc, rfl, by simpa [ended, place] using stopped⟩
    | unborn | asleep | woken => simp [ended, place] at stopped
  have stays : s'.threads j = .ready pc := by
    have apart : ∀ {i : Thread} {pc' : Pc i}, s.threads i = .ready pc' →
        (P i pc').isStop = false → j ≠ i := by
      intro i pc' there goes same
      subst same
      obtain rfl := Status.ready.inj (place.symm.trans there)
      rw [last] at goes
      cases goes
    have unlike : ∀ {i : Thread}, (∀ pc', s.threads i ≠ .ready pc') → j ≠ i := by
      intro i other same
      subst same
      exact other pc place
    cases step with
    | lock there stmt | unlock there stmt | wait there stmt | signal there stmt | act there stmt
    | join there stmt | choose there stmt =>
        rw [State.move_of_ne _ _ _ (apart there (by rw [stmt]; rfl))]
        exact place
    | relock there | spurious there =>
        rw [State.move_of_ne _ _ _ (unlike fun pc' => by simp [there])]
        exact place
    | notify there stmt asleep =>
        rw [State.move_of_ne _ _ _ (apart there (by rw [stmt]; rfl)),
          State.move_of_ne _ _ _ (unlike fun pc' => by simp [asleep])]
        exact place
    | broadcast there stmt =>
        rw [State.move_of_ne _ _ _ (apart there (by rw [stmt]; rfl))]
        simp [State.wakeAll, place, Status.wake]
    | spawn there stmt unborn =>
        rw [State.move_of_ne _ _ _ (apart there (by rw [stmt]; rfl)),
          State.move_of_ne _ _ _ (unlike fun pc' => by simp [unborn])]
        exact place
  simpa [ended, stays] using last

/-- A thread that was born stays so. -/
theorem born_step {j : Thread} (born : (s.threads j).place ≠ none) (step : Step P s l s') :
    (s'.threads j).place ≠ none := by
  have moved : ∀ {u : State Data Pc} {i : Thread} {st : Status (Pc i)} {o : Option Thread}
      {d : Data}, (u.threads j).place ≠ none → st.place ≠ none →
      ((State.move { u with data := d, owner := o } i st).threads j).place ≠ none := by
    intro u i st o d before new
    by_cases same : j = i
    · subst same
      rwa [State.move_self]
    · rwa [State.move_of_ne _ _ _ same]
  cases step with
  | lock | relock | unlock | wait | signal | act | join | choose | spurious =>
      exact moved born nofun
  | @notify i j' _ _ k' =>
      have woken : ((s.move j' (.woken k')).threads j).place ≠ none := moved born nofun
      exact moved woken nofun
  | broadcast =>
      have woken : (s.wakeAll.threads j).place ≠ none := by simpa [State.wakeAll] using born
      exact moved woken nofun
  | @spawn i j' _ _ start =>
      have started : ((s.move j' (.ready start)).threads j).place ≠ none := moved born nofun
      exact moved started nofun

/-- The statement may lead to `k` from the data `d`. -/
def Stmt.Leads {i : Thread} (d : Data) (k : Pc i) : Stmt Data Pc i → Prop
  | .lock k' | .unlock k' | .signal k' | .broadcast k' | .spawn _ _ k' | .join _ k' => k' = k
  | .act f => (f d).2 = k
  | .choose allowed => allowed k = true
  | .wait _ | .stop => False

/-- A thread comes to a place by its own statement, by its birth or after a wait. -/
theorem arrives {j : Thread} {k : Pc j} (step : Step P s l s') (there : s'.threads j = .ready k) :
    s.threads j = .ready k ∨ s.threads j = .woken k ∨ s.threads j = .unborn ∨
      ∃ pc, s.threads j = .ready pc ∧ (P j pc).Leads s.data k ∧ l.thread = j := by
  -- one thread moves, and the others are as before or as `u` has them
  have moved : ∀ {u : State Data Pc} {i : Thread} {k' : Pc i},
      (u.move i (.ready k')).threads j = .ready k →
      u.threads j = .ready k ∨ ∃ same : i = j, same ▸ k' = k := by
    intro u i k' now
    by_cases same : j = i
    · subst same
      rw [State.move_self] at now
      exact .inr ⟨rfl, Status.ready.inj now⟩
    · rw [State.move_of_ne _ _ _ same] at now
      exact .inl now
  have mine : ∀ {i : Thread} {pc k' : Pc i}, s.threads i = .ready pc → (P i pc).Leads s.data k' →
      l.thread = i → (∃ same : i = j, same ▸ k' = k) →
      ∃ pc, s.threads j = .ready pc ∧ (P j pc).Leads s.data k ∧ l.thread = j := by
    rintro i pc k' place leads turn ⟨rfl, rfl⟩
    exact ⟨pc, place, leads, turn⟩
  cases step with
  | lock place stmt | unlock place stmt | signal place stmt | act place stmt | join place stmt =>
      rcases moved there with before | here
      · exact .inl before
      · exact .inr (.inr (.inr (mine place (by rw [stmt]; rfl) rfl here)))
  | choose place stmt may =>
      rcases moved there with before | here
      · exact .inl before
      · exact .inr (.inr (.inr (mine place (by rw [stmt]; exact may) rfl here)))
  | @relock i k' woken =>
      rcases moved there with before | ⟨rfl, rfl⟩
      · exact .inl before
      · exact .inr (.inl woken)
  | @wait i pc k' =>
      by_cases same : j = i
      · subst same
        simp at there
      · exact .inl (by simpa [same] using there)
  | @notify i j' pc k' k'' place stmt asleep =>
      rcases moved there with before | here
      · by_cases same : j = j'
        · subst same
          simp at before
        · exact .inl (by simpa [same] using before)
      · exact .inr (.inr (.inr (mine place (by rw [stmt]; rfl) rfl here)))
  | broadcast place stmt =>
      rcases moved there with before | here
      · exact .inl (Status.wake_eq_ready before)
      · exact .inr (.inr (.inr (mine place (by rw [stmt]; rfl) rfl here)))
  | @spawn i j' pc k' start place stmt unborn =>
      rcases moved there with before | here
      · by_cases same : j = j'
        · subst same
          exact .inr (.inr (.inl unborn))
        · exact .inl (by simpa [same] using before)
      · exact .inr (.inr (.inr (mine place (by rw [stmt]; rfl) rfl here)))
  | @spurious j' k' =>
      by_cases same : j = j'
      · subst same
        simp at there
      · exact .inl (by simpa [same] using there)

/-- A statement on the data is executed by the label that runs its thread. -/
theorem label_of_act {i : Thread} {pc : Pc i} {f : Data → Data × Pc i}
    (step : Step P s l s') (turn : l.thread = i) (place : s.threads i = .ready pc)
    (stmt : P i pc = .act f) :
    l = .run i ∧ s' = State.move { s with data := (f s.data).1 } i (.ready (f s.data).2) := by
  subst turn
  cases step with
  | act there stmt' =>
      obtain rfl := Status.ready.inj (place.symm.trans there)
      cases stmt.symm.trans stmt'
      exact ⟨rfl, rfl⟩
  | lock there stmt' | unlock there stmt' | wait there stmt' | signal there stmt'
  | notify there stmt' | broadcast there stmt' | spawn there stmt' | join there stmt'
  | choose there stmt' =>
      obtain rfl := Status.ready.inj (place.symm.trans there)
      cases stmt.symm.trans stmt'
  | relock there | spurious there => cases place.symm.trans there

/-- Threads wait only where the program says so. -/
def Parks (W : ∀ i, Pc i → Prop) (s : State Data Pc) : Prop :=
  ∀ i k, (s.threads i).parked = some k → W i k

section Parking

variable {W : ∀ i, Pc i → Prop}

theorem Parks.move (parks : Parks W s) {i : Thread} {st : Status (Pc i)} {o : Option Thread}
    (d : Data) (here : ∀ k, st.parked = some k → W i k) :
    Parks W (State.move { s with data := d, owner := o } i st) := by
  intro j k parked
  by_cases same : j = i
  · subst same
    exact here k (by simpa using parked)
  · exact parks j k (by simpa [same] using parked)

theorem Parks.step (waits : ∀ i pc k, P i pc = .wait k → W i k) (parks : Parks W s)
    (step : Step P s l s') : Parks W s' := by
  have all : Parks W s.wakeAll := fun i k parked =>
    parks i k (by simpa [State.wakeAll] using parked)
  have woken : ∀ {j k}, s.threads j = .asleep k → Parks W (s.move j (.woken k)) :=
    fun asleep => parks.move s.data fun k' parked =>
      parks _ k' (by rw [asleep]; exact parked)
  cases step with
  | lock | relock | unlock | signal | act | join | choose => exact parks.move _ nofun
  | wait place stmt =>
      refine parks.move _ fun k parked => ?_
      obtain rfl := Option.some.inj parked
      exact waits _ _ _ stmt
  | notify place stmt asleep => exact (woken asleep).move s.data nofun
  | broadcast => exact all.move s.data nofun
  | @spawn i j pc k start =>
      have born : Parks W (s.move j (.ready start)) := parks.move s.data nofun
      exact born.move s.data nofun
  | spurious asleep => exact woken asleep

end Parking

/-! ## What a thread knows

`K` holds at every place, inside or not, because no other thread can make it false. It may
speak of the threads that have ended.
-/

section Knowledge

variable (inside : ∀ i, Pc i → Bool) (A : ∀ i, Pc i → Data → Prop)
  (K : ∀ i, Pc i → Data → (Thread → Prop) → Prop)

def Stmt.Teaches {i : Thread} (pc : Pc i) : Stmt Data Pc i → Prop
  | .lock k | .unlock k | .wait k | .signal k | .broadcast k =>
      ∀ d E, K i pc d E → K i k d E
  | .join j k => ∀ d E, E j → K i pc d E → K i k d E
  | .act f =>
      ∀ d E, (inside i pc = true → A i pc d) → K i pc d E →
        K i (f d).2 (f d).1 E ∧ ∀ j, j ≠ i → ∀ k, K j k d E → K j k (f d).1 E
  | .spawn j start k => ∀ d E, K i pc d E → K i k d E ∧ K j start d E
  | .choose allowed => ∀ k, allowed k = true → ∀ d E, K i pc d E → K i k d E
  | .stop => True

def Known (P : Program Data Pc) (s : State Data Pc) : Prop :=
  ∀ i k, (s.threads i).place = some k → K i k s.data fun j => ended P s j = true

variable {inside A K}

theorem Known.step (teaches : ∀ i pc, (P i pc).Teaches inside A K pc)
    (mono : ∀ i k d (E E' : Thread → Prop), (∀ j, E j → E' j) → K i k d E → K i k d E')
    (asserted : ∀ i pc, s.threads i = .ready pc → inside i pc = true → A i pc s.data)
    (known : Known K P s) (step : Step P s l s') : Known K P s' := by
  -- what is known in front of the step is known of the threads that have ended behind it
  have later : ∀ i k, K i k s'.data (fun j => ended P s j = true) →
      K i k s'.data fun j => ended P s' j = true :=
    fun i k => mono i k s'.data _ _ fun j stopped => ended_step stopped step
  intro j k' place'
  apply later
  -- a thread that does not move keeps its place
  have still : ∀ {i : Thread} {st : Status (Pc i)} {u : State Data Pc}, j ≠ i →
      ((u.move i st).threads j).place = some k' → (u.threads j).place = some k' := by
    intro i st u other place
    rwa [State.move_of_ne _ _ _ other] at place
  -- a thread that moves is at `k`
  have moved : ∀ {st : Status (Pc j)} {k : Pc j} {u : State Data Pc}, st.place = some k →
      ((u.move j st).threads j).place = some k' → k = k' := by
    intro st k u there place
    rw [State.move_self] at place
    exact Option.some.inj (there.symm.trans place)
  have woken : ∀ i, (s.wakeAll.threads i).place = (s.threads i).place := by
    intro i
    simp [State.wakeAll]
  cases step with
  | @lock i pc k place stmt _ | @unlock i pc k place stmt | @wait i pc k place stmt
  | @signal i pc k place stmt =>
      have teach := teaches i pc
      rw [stmt] at teach
      by_cases same : j = i
      · subst same
        obtain rfl := moved rfl place'
        exact teach _ _ (known j pc (by rw [place]; rfl))
      · exact known j k' (still same place')
  | @join i j' pc k place stmt stopped =>
      have teach := teaches i pc
      rw [stmt] at teach
      by_cases same : j = i
      · subst same
        obtain rfl := moved rfl place'
        exact teach _ _ stopped (known j pc (by rw [place]; rfl))
      · exact known j k' (still same place')
  | @relock i k place _ | @spurious i k place =>
      by_cases same : j = i
      · subst same
        obtain rfl := moved rfl place'
        exact known j k (by rw [place]; rfl)
      · exact known j k' (still same place')
  | @notify i i' pc k k'' place stmt asleep other =>
      have teach := teaches i pc
      rw [stmt] at teach
      by_cases same : j = i
      · subst same
        obtain rfl := moved rfl place'
        exact teach _ _ (known j pc (by rw [place]; rfl))
      · have before := still same place'
        by_cases waker : j = i'
        · subst waker
          obtain rfl := moved rfl before
          exact known j k'' (by rw [asleep]; rfl)
        · exact known j k' (still waker before)
  | @broadcast i pc k place stmt =>
      have teach := teaches i pc
      rw [stmt] at teach
      by_cases same : j = i
      · subst same
        obtain rfl := moved rfl place'
        exact teach _ _ (known j pc (by rw [place]; rfl))
      · exact known j k' ((woken j).symm.trans (still same place'))
  | @act i pc f place stmt =>
      have teach := teaches i pc
      rw [stmt] at teach
      obtain ⟨mine, others⟩ := teach _ _ (asserted i pc place) (known i pc (by rw [place]; rfl))
      by_cases same : j = i
      · subst same
        obtain rfl := moved rfl place'
        exact mine
      · exact others j same k' (known j k' (still (u := { s with data := _ }) same place'))
  | @spawn i i' pc k start place stmt unborn other =>
      have teach := teaches i pc
      rw [stmt] at teach
      obtain ⟨mine, born⟩ := teach _ _ (known i pc (by rw [place]; rfl))
      by_cases same : j = i
      · subst same
        obtain rfl := moved rfl place'
        exact mine
      · have before := still same place'
        by_cases new : j = i'
        · subst new
          obtain rfl := moved rfl before
          exact born
        · exact known j k' (still new before)
  | @choose i pc k allowed place stmt may =>
      have teach := teaches i pc
      rw [stmt] at teach
      by_cases same : j = i
      · subst same
        obtain rfl := moved rfl place'
        exact teach k may _ _ (known j pc (by rw [place]; rfl))
      · exact known j k' (still same place')

end Knowledge

end Monitor
