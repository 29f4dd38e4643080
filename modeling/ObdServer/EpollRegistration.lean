import ObdServer.EpollSteps

/-! # What `fd_reify` and `epoll_poll` do

When `fd_reify` comes to an fd, the kernel does not have it: each of its watchers has been
started since, on a new socket. So it is added, unless the kernel refuses, which kills it.
The events that come back are those of registrations that still hold.
-/

namespace ObdServer.Epoll

open Connections (Recv)

variable {Block : Type} [DecidableEq Block] {s : State Block} {fd : Nat} {w : Block}
  {rest : List Nat} {full : Bool}

/-! ## One entry of `fdchanges` -/

theorem epollModify_added (isOpen : s.connections.isOpen fd = true)
    (absent : s.epollSet fd = none) (oev : UInt8) :
    s.epollModify fd oev evRead false =
      { s.setAnfd fd { s.anfd fd with emask := evRead, egen := (s.anfd fd).egen + 1 } with
        epollSet := Function.update s.epollSet fd
          (some { events := evRead, data := packed fd ((s.anfd fd).egen + 1) }) } := by
  have nev : ¬ evRead = 0 := by decide
  by_cases mod : oev ≠ 0 ∧ (s.anfd fd).emask ≠ evRead <;>
    simp [State.epollModify, nev, mod, State.epollCtl, State.setAnfd, isOpen, absent]

theorem epollModify_refused (isOpen : s.connections.isOpen fd = true)
    (absent : s.epollSet fd = none) (oev : UInt8) :
    s.epollModify fd oev evRead true =
      ((s.setAnfd fd { s.anfd fd with
        emask := evRead
        egen := (s.anfd fd).egen + 1 }).fdKill fd).decEgen fd := by
  have nev : ¬ evRead = 0 := by decide
  by_cases mod : oev ≠ 0 ∧ (s.anfd fd).emask ≠ evRead <;>
    simp [State.epollModify, nev, mod, State.epollCtl, State.setAnfd, isOpen, absent]

theorem fdKill_watched (alone : s.connections.anfds fd = [w])
    (active : (s.connections.watchers w).active = true)
    (mine : (s.connections.watchers w).fd = fd) :
    s.fdKill fd = { s with connections := s.connections.fdKill fd }.fdChange fd evAnfdReify := by
  rw [State.fdKill, alone, List.foldl_cons, List.foldl_nil, evIoStop_watched active, mine]
  simp only [State.onConnections, State.fdChange_connections, fdChange_with,
    Connections.State.fdKill, alone, List.foldl_cons, List.foldl_nil]

/-- The fd has no watcher. -/
theorem fdReify_idle (idle : s.connections.anfds fd = []) :
    s.fdReify fd full = s.setAnfd fd { s.anfd fd with events := 0, reify := 0 } := by
  simp [State.fdReify, idle, State.epollModify]

theorem fdReify_watched (alone : s.connections.anfds fd = [w])
    (set : (s.anfd fd).reify &&& evIofdset ≠ 0) :
    s.fdReify fd full =
      (s.setAnfd fd { s.anfd fd with events := evRead, reify := 0 }).epollModify fd
        (s.anfd fd).events evRead full := by
  have events : (0 : UInt8) ||| evRead = evRead := by decide
  have modifies : (if (s.anfd fd).events ≠ evRead then evIofdset else (s.anfd fd).reify) &&&
      evIofdset ≠ 0 := by
    split_ifs
    · decide
    · exact set
  simp only [State.fdReify, alone, List.foldl_cons, List.foldl_nil, events, if_pos modifies]

omit [DecidableEq Block] in
theorem State.InStep.alone {changes : List Nat} (inStep : s.InStep changes)
    (watched : s.connections.anfds fd ≠ []) :
    ∃ w, s.connections.anfds fd = [w] ∧ s.connections.libevList fd = some w ∧
      (s.connections.watchers w).active = true ∧ (s.connections.watchers w).fd = fd ∧
      s.connections.isOpen fd = true := by
  obtain ⟨w, member⟩ := List.exists_mem_of_ne_nil _ watched
  obtain ⟨here, active⟩ := inStep.agrees.mem_anfds member
  have alone := inStep.agrees.anfds_open here
  rw [if_pos active] at alone
  exact ⟨w, alone, here, active, inStep.agrees.watcherFd fd w here,
    (inStep.agrees.opened fd).mpr (by simp [here])⟩

/-- The fd has a watcher, and the kernel takes it. -/
theorem fdReify_added (inStep : s.InStep (fd :: rest)) (watched : s.connections.anfds fd ≠ []) :
    s.fdReify fd false = { s with
      anfd := Function.update s.anfd fd
        { events := evRead, reify := 0, emask := evRead, egen := (s.anfd fd).egen + 1 }
      epollSet := Function.update s.epollSet fd
        (some { events := evRead, data := packed fd ((s.anfd fd).egen + 1) }) } := by
  obtain ⟨w, alone, -, -, -, isOpen⟩ := inStep.alone watched
  have absent := inStep.outside_changes List.mem_cons_self
  rw [fdReify_watched alone ((inStep.each fd).unregistered absent watched)]
  refine (epollModify_added (s := s.setAnfd fd _) isOpen absent _).trans ?_
  simp [State.setAnfd]

/-- The fd has a watcher, and the kernel has no room for it. -/
theorem fdReify_refused (inStep : s.InStep (fd :: rest))
    (watched : s.connections.anfds fd ≠ []) :
    s.fdReify fd true = { s with
      connections := s.connections.fdKill fd
      anfd := Function.update s.anfd fd
        { events := evRead, reify := evAnfdReify, emask := evRead, egen := (s.anfd fd).egen }
      fdchanges := s.fdchanges ++ [fd] } := by
  obtain ⟨w, alone, here, active, mine, isOpen⟩ := inStep.alone watched
  have absent := inStep.outside_changes List.mem_cons_self
  rw [fdReify_watched alone ((inStep.each fd).unregistered absent watched)]
  refine (epollModify_refused (s := s.setAnfd fd _) isOpen absent _).trans ?_
  refine (congrArg (State.decEgen · fd)
    (fdKill_watched (s := (s.setAnfd fd _).setAnfd fd _) alone active mine)).trans ?_
  simp [State.decEgen, State.fdChange, State.setAnfd]

/-! ## Staying in step -/

variable {full : Bool}

theorem fdReify_idle_inStep (inStep : s.InStep (fd :: rest))
    (idle : s.connections.anfds fd = []) : (s.fdReify fd full).InStep rest := by
  have absent := inStep.outside_changes List.mem_cons_self
  have fresh := List.nodup_cons.mp inStep.nodup
  rw [fdReify_idle idle]
  refine inStep.update fd inStep.agrees fresh.2 inStep.postfork (fun fd' other => ?_) ?_
  · simp [State.setAnfd, other]
  · constructor <;> simp [State.setAnfd, fresh.1, absent, idle, State.wanted]

theorem fdReify_added_inStep (inStep : s.InStep (fd :: rest))
    (watched : s.connections.anfds fd ≠ []) : (s.fdReify fd false).InStep rest := by
  have fresh := List.nodup_cons.mp inStep.nodup
  rw [fdReify_added inStep watched]
  refine inStep.update fd inStep.agrees fresh.2 inStep.postfork (fun fd' other => ?_) ?_
  · simp [other]
  · constructor <;> simp [fresh.1, watched, State.wanted, eq_comm]

theorem fdReify_refused_inStep (inStep : s.InStep (fd :: rest))
    (watched : s.connections.anfds fd ≠ []) : (s.fdReify fd true).InStep (rest ++ [fd]) := by
  have absent := inStep.outside_changes List.mem_cons_self
  have fresh := List.nodup_cons.mp inStep.nodup
  have step := Connections.kill_step inStep.agrees watched
  have agrees := inStep.agrees.step step
  have anfds : (s.connections.fdKill fd).anfds = Function.update s.connections.anfds fd [] := by
    generalize s.connections.fdKill fd = connections at step
    cases step
    rfl
  rw [fdReify_refused inStep watched]
  refine inStep.update fd agrees ?_ inStep.postfork (fun fd' other => ?_) ?_
  · refine List.nodup_append.mpr ⟨fresh.2, List.nodup_singleton fd, ?_⟩
    rintro fd' member _ last rfl
    obtain rfl := List.mem_singleton.mp last
    exact fresh.1 member
  · simp [anfds, other]
  · have reify : evAnfdReify ≠ 0 := by decide
    constructor <;> simp [anfds, absent, reify]

/-! ## One event -/

theorem got_wanted (ready : Readiness) :
    evRead &&& State.got ready = 0 ↔ ¬ (ready.readable ∨ ready.broken) := by
  obtain ⟨readable, writable, broken⟩ := ready
  cases readable <;> cases writable <;> cases broken <;> decide

omit [DecidableEq Block] in
/-- A registration that holds says its fd and the generation libev has for it. -/
theorem State.InStep.data {changes : List Nat} (inStep : s.InStep changes) {r : Registered}
    (there : s.epollSet fd = some r) :
    packedFd r.data = fd ∧ packedEgen r.data = (s.anfd fd).egen := by
  obtain ⟨-, watched, rfl⟩ := (inStep.each fd).registered r there
  obtain ⟨w, -, here, -⟩ := inStep.alone watched
  have small : fd < UInt32.size := Nat.lt_trans (inStep.agrees.range fd w here) (by decide)
  exact ⟨packedFd_packed small _, packedEgen_packed fd _⟩

/-- What `epoll_poll` makes of a registration that holds. -/
def State.received (s : State Block) (fd : Nat) (emask : UInt8) (ready : Readiness) :
    State Block :=
  { s with
    anfd := Function.update s.anfd fd { s.anfd fd with emask }
    connections := if ready.readable ∨ ready.broken then s.connections.fdEvent fd
      else s.connections }

/-- An event of a registration that holds passes the test of the generation, and goes to the
    watcher if there is something to read, or an error. -/
theorem epollPoll_registered {changes : List Nat} (inStep : s.InStep changes) {r : Registered}
    (there : s.epollSet fd = some r) (event : Event) (data : event.data = r.data) :
    ∃ emask, s.epollPoll event = s.received fd emask event.readiness := by
  obtain ⟨sameFd, sameEgen⟩ := inStep.data there
  obtain ⟨settled, watched, rfl⟩ := (inStep.each fd).registered r there
  obtain ⟨w, -, here, -, -, isOpen⟩ := inStep.alone watched
  have want : (s.anfd fd).events = evRead := by
    rw [(inStep.each fd).events settled, State.wanted, if_neg watched]
  have kept : Function.update s.epollSet fd
      (some { events := evRead, data := packed fd (s.anfd fd).egen }) = s.epollSet := by
    rw [← there, Function.update_eq_self]
  -- in both branches the event goes on to `fd_event`
  have fed : ∀ emask : UInt8, (s.setAnfd fd { s.anfd fd with emask }).fdEvent fd
      (State.got event.readiness) = s.received fd emask event.readiness := by
    intro emask
    simp only [State.fdEvent, State.setAnfd, Function.update_self, settled, if_pos, got_wanted,
      ite_not, State.received]
    split_ifs <;> rfl
  simp only [State.epollPoll, data, sameFd, sameEgen, want, ne_eq, not_true_eq_false, if_false]
  by_cases wanted : State.got event.readiness &&& ~~~ evRead = 0
  · have same : s.setAnfd fd (s.anfd fd) = s := by
      rw [State.setAnfd, Function.update_eq_self]
    refine ⟨(s.anfd fd).emask, (if_neg (not_not.mpr wanted)).trans ?_⟩
    rw [← fed (s.anfd fd).emask]
    exact congrArg (State.fdEvent · fd (State.got event.readiness)) same.symm
  · have asked : ¬ evRead = 0 := by decide
    have modified : ∀ anfd : Anfd, (s.setAnfd fd anfd).epollCtl .mod fd
        { events := evRead, data := packed fd (s.anfd fd).egen } false =
          .ok (s.setAnfd fd anfd) := by
      intro anfd
      simp only [State.epollCtl, State.setAnfd, isOpen, Bool.true_eq_false, if_false, there, kept]
    refine ⟨evRead, (if_pos wanted).trans ?_⟩
    simp only [asked, not_false_eq_true, if_true, modified]
    exact want ▸ fed evRead

/-- An event leaves the epoll set in step. -/
theorem received_inStep {changes : List Nat} (inStep : s.InStep changes) (fd : Nat)
    (emask : UInt8) (ready : Readiness) : (s.received fd emask ready).InStep changes := by
  have fed := Connections.ready_step s.connections fd
  have agrees := inStep.agrees.step fed
  have anfds : (s.connections.fdEvent fd).anfds = s.connections.anfds := by
    generalize s.connections.fdEvent fd = connections at fed
    cases fed
    rfl
  have here := inStep.each fd
  by_cases heard : ready.readable = true ∨ ready.broken = true
  · simp only [State.received, if_pos heard]
    refine inStep.update fd agrees inStep.nodup inStep.postfork (fun fd' other => ?_) ?_
    · simp [other, anfds]
    · constructor
      · simpa using here.changed
      · simpa [State.wanted, anfds] using here.events
      · simpa [anfds] using here.registered
      · simpa [anfds] using here.unregistered
  · simp only [State.received, if_neg heard]
    refine inStep.update fd inStep.agrees inStep.nodup inStep.postfork (fun fd' other => ?_) ?_
    · simp [other]
    · constructor
      · simpa using here.changed
      · simpa [State.wanted] using here.events
      · simpa using here.registered
      · simpa using here.unregistered

end ObdServer.Epoll
