import ObdServer.Connections

/-! # What one step of the event loop does to the connections

The table, the open sockets, the watchers libev has and the free list say the same thing in
four ways. As long as they agree no callback faults, and each step has one of a few
outcomes.
-/

namespace ObdServer.Connections

variable {Block : Type}

/-- The table agrees with the open sockets, with the watchers libev has, with the events to
    be delivered and with the free list of watchers. -/
structure State.Agrees (s : State Block) : Prop where
  nodup : s.evPool.Nodup
  pool : ∀ b, b ∈ s.evPool ↔ b ∈ s.obtained ∧ ∀ fd, s.libevList fd ≠ some b
  obtained : ∀ fd w, s.libevList fd = some w → w ∈ s.obtained
  range : ∀ fd w, s.libevList fd = some w → fd < socketAllocMaxClient
  opened : ∀ fd, s.isOpen fd = true ↔ s.libevList fd ≠ none
  watcherFd : ∀ fd w, s.libevList fd = some w → (s.watchers w).fd = fd
  anfds : ∀ fd, s.anfds fd = (s.libevList fd).toList.filter fun w => (s.watchers w).active
  pendings : ∀ w e, (w, e) ∈ s.pendings →
    ∃ fd, s.libevList fd = some w ∧ (e = false → (s.watchers w).active = true)

/-- `Malloc` takes `w` and leaves this free list and these blocks obtained. -/
def Takes (s : State Block) (w : Block) (evPool obtained : List Block) : Prop :=
  (s.evPool = w :: evPool ∧ obtained = s.obtained) ∨
    (s.evPool = [] ∧ evPool = [] ∧ w ∉ s.obtained ∧ obtained = w :: s.obtained)

/-- The outcomes of a step. -/
inductive Step [DecidableEq Block] (s : State Block) : Label Block → State Block → Prop where
  /-- `accept_func_cb` gives its block back. -/
  | reject {call : AcceptCall Block} {w : Block} {evPool obtained : List Block} (stale : EvIo) :
      Takes s w evPool obtained →
      Step s (.accept call)
        { s with
          evPool := w :: evPool
          obtained
          watchers := Function.update s.watchers w stale }
  | register {call : AcceptCall Block} {w : Block} {evPool obtained : List Block} {fd : Nat} :
      Takes s w evPool obtained → fd < socketAllocMaxClient → s.libevList fd = none →
      Step s (.accept call)
        { s with
          evPool
          obtained
          watchers := Function.update s.watchers w { active := true, fd }
          libevList := Function.update s.libevList fd (some w)
          isOpen := Function.update s.isOpen fd true
          anfds := Function.update s.anfds fd [w] }
  | feed {fd : Nat} {pendings : List (Block × Bool)} :
      (∀ p ∈ pendings, p ∈ s.pendings ∨ p.1 ∈ s.anfds fd) →
      Step s (.ready fd) { s with pendings }
  | kill {fd : Nat} {w : Block} :
      s.libevList fd = some w → (s.watchers w).active = true →
      Step s (.kill fd)
        { s with
          watchers := Function.update s.watchers w { active := false, fd }
          anfds := Function.update s.anfds fd []
          pendings := (w, true) :: s.pendings.filter (·.1 ≠ w) }
  | dismiss {read : Recv} {p : Block × Bool} {rest : List (Block × Bool)} :
      s.pendings = p :: rest → Step s (.invoke read) { s with pendings := rest }
  | hangUp {read : Recv} {w : Block} {rest : List (Block × Bool)} {fd : Nat} {io : EvIo} :
      s.pendings = (w, false) :: rest → s.libevList fd = some w →
      Step s (.invoke read)
        { s with
          evPool := w :: s.evPool
          watchers := Function.update s.watchers w io
          libevList := Function.update s.libevList fd none
          isOpen := Function.update s.isOpen fd false
          anfds := Function.update s.anfds fd []
          pendings := rest.filter (·.1 ≠ w) }

variable {s t : State Block} {l : Label Block} {w b : Block} {fd : Nat}
  {evPool obtained : List Block}

namespace State.Agrees

theorem initial (watchers : Block → EvIo) : (State.initial watchers).Agrees := by
  constructor <;> simp [State.initial]

/-- A block is in the table once. -/
theorem unique (agrees : s.Agrees) {fd' : Nat} (here : s.libevList fd = some w)
    (there : s.libevList fd' = some w) : fd = fd' :=
  (agrees.watcherFd fd w here).symm.trans (agrees.watcherFd fd' w there)

theorem closed (agrees : s.Agrees) (shut : s.isOpen fd = false) : s.libevList fd = none := by
  by_contra registered
  have isOpen := (agrees.opened fd).mpr registered
  simp [shut] at isOpen

theorem anfds_closed (agrees : s.Agrees) (none : s.libevList fd = none) : s.anfds fd = [] := by
  rw [agrees.anfds, none]
  rfl

theorem anfds_open (agrees : s.Agrees) (here : s.libevList fd = some w) :
    s.anfds fd = if (s.watchers w).active then [w] else [] := by
  rw [agrees.anfds, here]
  cases active : (s.watchers w).active <;> simp [active]

theorem mem_anfds (agrees : s.Agrees) (watched : w ∈ s.anfds fd) :
    s.libevList fd = some w ∧ (s.watchers w).active = true := by
  rw [agrees.anfds, List.mem_filter, Option.mem_toList] at watched
  exact watched

end State.Agrees

/-! ## The block a call of `Malloc` takes -/

/-- It is fresh or from the free list, so not in the table. -/
theorem Takes.not_registered (takes : Takes s w evPool obtained) (agrees : s.Agrees) (fd : Nat) :
    s.libevList fd ≠ some w := by
  intro registered
  rcases takes with ⟨pool, -⟩ | ⟨-, -, fresh, -⟩
  · have free : w ∈ s.evPool := by simp [pool]
    exact ((agrees.pool w).mp free).2 fd registered
  · exact fresh (agrees.obtained fd w registered)

/-- Apart from `w` the free list and the blocks obtained are as before. -/
theorem Takes.mem_iff (takes : Takes s w evPool obtained) (agrees : s.Agrees) (b : Block) :
    (b ∈ evPool ↔ b ≠ w ∧ b ∈ s.evPool) ∧ (b ∈ obtained ↔ b = w ∨ b ∈ s.obtained) := by
  rcases takes with ⟨pool, rfl⟩ | ⟨empty, rfl, fresh, rfl⟩
  · have nodup := agrees.nodup
    rw [pool, List.nodup_cons] at nodup
    have mine : w ∈ s.obtained := ((agrees.pool w).mp (by simp [pool])).1
    constructor
    · rw [pool, List.mem_cons]
      constructor
      · exact fun member => ⟨ne_of_mem_of_not_mem member nodup.1, .inr member⟩
      · rintro ⟨other, same | member⟩
        · exact absurd same other
        · exact member
    · constructor
      · exact .inr
      · rintro (rfl | member)
        · exact mine
        · exact member
  · simp [empty]

theorem Takes.nodup (takes : Takes s w evPool obtained) (agrees : s.Agrees) : evPool.Nodup := by
  rcases takes with ⟨pool, -⟩ | ⟨-, rfl, -, -⟩
  · have nodup := agrees.nodup
    rw [pool, List.nodup_cons] at nodup
    exact nodup.2
  · exact List.nodup_nil

variable [DecidableEq Block]

/-- `Malloc`, when the system has a block to give. -/
theorem malloc_takes {result : Option Block} (stale : EvIo)
    (succeeds : s.evPool = [] → result.any (· ∉ s.obtained)) :
    ∃ w evPool obtained, Takes s w evPool obtained ∧
      s.malloc result stale = (some w, { s with
        evPool
        obtained
        watchers := Function.update s.watchers w stale }) := by
  cases pool : s.evPool with
  | cons w rest =>
      refine ⟨w, rest, s.obtained, .inl ⟨pool, rfl⟩, ?_⟩
      simp only [State.malloc, pool]
  | nil =>
      have given := succeeds pool
      rw [Option.any_eq_true] at given
      obtain ⟨w, rfl, fresh⟩ := given
      refine ⟨w, [], w :: s.obtained, .inr ⟨pool, rfl, by simpa using fresh, rfl⟩, ?_⟩
      simp only [State.malloc, pool]

/-! ## The steps -/

omit [DecidableEq Block] in
theorem free_some (s : State Block) (w : Block) :
    s.free (some w) = .ok { s with evPool := w :: s.evPool } := rfl

omit [DecidableEq Block] in
theorem slot_of_lt (inside : fd < socketAllocMaxClient) : s.slot fd = .ok (s.libevList fd) :=
  if_pos inside

omit [DecidableEq Block] in
theorem setSlot_of_lt (inside : fd < socketAllocMaxClient) (v : Option Block) :
    s.setSlot fd v = .ok { s with libevList := Function.update s.libevList fd v } :=
  if_pos inside

/-- `accept_func_cb` on a socket in range that has no entry registers it. -/
theorem register_eq (s : State Block) (none : s.anfds fd = []) :
    ((s.evIoInit w fd).evIoStart w) = { s with
      watchers := Function.update s.watchers w { active := true, fd }
      anfds := Function.update s.anfds fd [w] } := by
  simp [State.evIoInit, State.evIoStart, none]

theorem accept_step (agrees : s.Agrees) {call : AcceptCall Block}
    (enabled : enabled s (.accept call)) :
    ∃ t, acceptFuncCb s call = .ok t ∧ Step s (.accept call) t := by
  obtain ⟨succeeds, socket⟩ := enabled
  obtain ⟨w, evPool, obtained, takes, allocated⟩ := malloc_takes call.stale succeeds
  have reject : Step s (.accept call) _ := .reject call.stale takes
  simp only [acceptFuncCb, allocated, free_some]
  split_ifs with evError
  · exact ⟨_, rfl, reject⟩
  · cases accepted : call.socket with
    | none => exact ⟨_, rfl, reject⟩
    | some fd =>
        obtain ⟨shut, notMax⟩ := socket fd accepted
        have none := agrees.closed shut
        by_cases beyond : fd > socketAllocMaxClient
        · refine ⟨_, if_pos beyond, ?_⟩
          have restored : Function.update (Function.update s.isOpen fd true) fd false =
              s.isOpen := by
            rw [Function.update_idem, ← shut, Function.update_eq_self]
          simp only [State.openSocket, State.close, restored]
          exact reject
        · have inside : fd < socketAllocMaxClient :=
            Nat.lt_of_le_of_ne (Nat.not_lt.mp beyond) notMax
          refine ⟨_, ?_, .register takes inside none⟩
          simp only [if_neg beyond, slot_of_lt inside, State.openSocket, none]
          refine (congrArg (State.setSlot · fd (some w)) (register_eq _ ?_)).trans ?_
          · exact agrees.anfds_closed none
          · rw [setSlot_of_lt inside, Function.update_idem]

/-- The events `fd_event` feeds. -/
theorem evFeedEvent_pendings (s : State Block) (w : Block) (p : Block × Bool)
    (fed : p ∈ (s.evFeedEvent w false).pendings) : p ∈ s.pendings ∨ p.1 = w := by
  simp only [State.evFeedEvent] at fed
  split_ifs at fed
  · obtain ⟨q, old, rfl⟩ := List.mem_map.mp fed
    by_cases same : q.1 = w
    · exact .inr (by rw [if_pos same])
    · exact .inl (by rwa [if_neg same])
  · rcases List.mem_cons.mp fed with rfl | old
    · exact .inr rfl
    · exact .inl old

theorem evFeedEvent_frame (s : State Block) (w : Block) (e : Bool) :
    s.evFeedEvent w e = { s with pendings := (s.evFeedEvent w e).pendings } := by
  simp only [State.evFeedEvent]
  split_ifs <;> rfl

theorem feed_frame (ws : List Block) (s : State Block) :
    ∃ pendings, ws.foldl (fun s w => s.evFeedEvent w false) s = { s with pendings } ∧
      ∀ p ∈ pendings, p ∈ s.pendings ∨ p.1 ∈ ws := by
  induction ws generalizing s with
  | nil => exact ⟨s.pendings, rfl, fun p old => .inl old⟩
  | cons w ws ih =>
      obtain ⟨pendings, result, source⟩ := ih (s.evFeedEvent w false)
      refine ⟨pendings, ?_, fun p fed => ?_⟩
      · rw [List.foldl_cons, result, evFeedEvent_frame]
      · rcases source p fed with earlier | later
        · rcases evFeedEvent_pendings s w p earlier with old | same
          · exact .inl old
          · exact .inr (by simp [same])
        · exact .inr (List.mem_cons_of_mem w later)

theorem ready_step (s : State Block) (fd : Nat) : Step s (.ready fd) (s.fdEvent fd) := by
  obtain ⟨pendings, result, source⟩ := feed_frame (s.anfds fd) s
  rw [State.fdEvent, result]
  exact .feed source

/-- `ev_io_stop` of the only watcher libev can have on an fd. -/
theorem evIoStop_eq (mine : (s.watchers w).fd = fd)
    (alone : s.anfds fd = if (s.watchers w).active then [w] else []) : s.evIoStop w = { s with
      watchers := Function.update s.watchers w { active := false, fd }
      anfds := Function.update s.anfds fd []
      pendings := s.pendings.filter (·.1 ≠ w) } := by
  cases active : (s.watchers w).active with
  | true =>
      rw [active, if_pos rfl] at alone
      simp [State.evIoStop, State.clearPending, active, mine, alone]
  | false =>
      rw [active] at alone
      have stopped : Function.update s.watchers w { active := false, fd } = s.watchers := by
        rw [← mine, ← active]
        exact Function.update_eq_self w s.watchers
      have empty : Function.update s.anfds fd [] = s.anfds := by
        rw [← show s.anfds fd = [] from alone]
        exact Function.update_eq_self fd s.anfds
      simp [State.evIoStop, State.clearPending, active, stopped, empty]

theorem kill_step (agrees : s.Agrees) (enabled : enabled s (.kill fd)) :
    Step s (.kill fd) (s.fdKill fd) := by
  obtain ⟨w, watched⟩ := List.exists_mem_of_ne_nil _ enabled
  obtain ⟨here, active⟩ := agrees.mem_anfds watched
  have cleared : w ∉ (s.pendings.filter (·.1 ≠ w)).map Prod.fst := by
    simp
  have stopped := evIoStop_eq (agrees.watcherFd fd w here) (agrees.anfds_open here)
  have alone := agrees.anfds_open here
  rw [active, if_pos rfl] at alone
  rw [State.fdKill, alone, List.foldl_cons, List.foldl_nil, stopped, State.evFeedEvent,
    if_neg cleared]
  exact .kill here active

/-- The peer of a registered socket has closed: its slot is emptied and its watcher freed. -/
theorem freeLibev_eq (agrees : s.Agrees) (here : s.libevList fd = some w)
    (pendings : List (Block × Bool)) :
    freeLibev { s with pendings } fd = .ok { s with
      evPool := w :: s.evPool
      watchers := Function.update s.watchers w { active := false, fd }
      libevList := Function.update s.libevList fd none
      isOpen := Function.update s.isOpen fd false
      anfds := Function.update s.anfds fd []
      pendings := pendings.filter (·.1 ≠ w) } := by
  have inside := agrees.range fd w here
  have stopped := evIoStop_eq (s := State.close { s with pendings } fd)
    (agrees.watcherFd fd w here) (agrees.anfds_open here)
  rw [freeLibev, if_neg (Nat.not_lt.mpr (Nat.le_of_lt inside)), slot_of_lt inside, here]
  show ((State.close { s with pendings } fd).evIoStop w).free (some w) >>=
    (fun s => s.setSlot fd none) = _
  rw [stopped, free_some]
  exact setSlot_of_lt inside none

theorem invoke_step (agrees : s.Agrees) {read : Recv} (enabled : enabled s (.invoke read)) :
    Step s (.invoke read) (next s (.invoke read)) := by
  cases queue : s.pendings with
  | nil => exact absurd queue enabled
  | cons p rest =>
      obtain ⟨w, evError⟩ := p
      have dismiss : Step s (.invoke read) _ := .dismiss queue
      simp only [next, queue, readFuncCb]
      cases evError with
      | true => exact dismiss
      | false =>
          cases read with
          | failed | received => exact dismiss
          | closed =>
              obtain ⟨fd, here, -⟩ := agrees.pendings w false (by simp [queue])
              have freed := freeLibev_eq agrees here rest
              rw [agrees.watcherFd fd w here]
              simp only [Bool.false_eq_true, if_false, freed]
              exact .hangUp queue here

theorem step_of_enabled (agrees : s.Agrees) (enabled : enabled s l) : Step s l (next s l) := by
  cases l with
  | accept call =>
      obtain ⟨t, result, step⟩ := accept_step agrees enabled
      simp only [next, result]
      exact step
  | ready fd => exact ready_step s fd
  | kill fd => exact kill_step agrees enabled
  | invoke read => exact invoke_step agrees enabled

end ObdServer.Connections
