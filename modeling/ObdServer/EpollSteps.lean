import ObdServer.ConnectionTable
import ObdServer.Epoll

/-! # libev's bookkeeping against the epoll set

Each callback and each step of the loop does to the connections what `Connections` says. The
epoll set is in step with the watchers, but for the fds that are in `fdchanges`.
-/

namespace ObdServer.Epoll

open Connections (AcceptCall Fault Recv)

/-! ## `data.u64` -/

theorem packedFd_packed {fd : Nat} (small : fd < UInt32.size) (egen : UInt32) :
    packedFd (packed fd egen) = fd := by
  have low : (packed fd egen).toUInt32 = UInt32.ofNat fd := by
    apply UInt32.toBitVec_inj.mp
    apply BitVec.eq_of_getLsbD_eq
    intro i less
    simp [packed, less]
  rw [packedFd, low]
  exact UInt32.toNat_ofNat_of_lt small

theorem packedEgen_packed (fd : Nat) (egen : UInt32) : packedEgen (packed fd egen) = egen := by
  apply UInt32.toBitVec_inj.mp
  apply BitVec.eq_of_getLsbD_eq
  intro i less
  have upper : 32 + i < 64 := Nat.add_lt_add_left less 32
  have here : i < 64 := Nat.lt_trans less (by decide)
  simp [packedEgen, packed, less, upper, here]

/-! ## The connections -/

variable {Block : Type} [DecidableEq Block] {s t : State Block} {fd : Nat} {w : Block}

namespace State

omit [DecidableEq Block]

@[simp] theorem fdChange_connections (s : State Block) (fd : Nat) (flags : UInt8) :
    (s.fdChange fd flags).connections = s.connections := by
  simp only [fdChange]
  split_ifs <;> rfl

@[simp] theorem onConnections_connections (s : State Block)
    (f : Connections.State Block → Connections.State Block) :
    (s.onConnections f).connections = f s.connections := rfl

@[simp] theorem setAnfd_connections (s : State Block) (fd : Nat) (anfd : Anfd) :
    (s.setAnfd fd anfd).connections = s.connections := rfl

@[simp] theorem close_connections (s : State Block) (fd : Nat) :
    (s.close fd).connections = s.connections.close fd := rfl

variable [DecidableEq Block]

@[simp] theorem evIoStart_connections (s : State Block) (w : Block) :
    (s.evIoStart w).connections = s.connections.evIoStart w := by
  cases active : (s.connections.watchers w).active <;>
    simp [evIoStart, Connections.State.evIoStart, active, onConnections]

@[simp] theorem evIoStop_connections (s : State Block) (w : Block) :
    (s.evIoStop w).connections = s.connections.evIoStop w := by
  simp only [evIoStop]
  split_ifs <;> simp

@[simp] theorem fdKill_connections (s : State Block) (fd : Nat) :
    (s.fdKill fd).connections = s.connections.fdKill fd := by
  have each : ∀ (ws : List Block) (u : State Block),
      (ws.foldl (fun u w => (u.evIoStop w).onConnections (·.evFeedEvent w true)) u).connections =
        ws.foldl (fun c w => (c.evIoStop w).evFeedEvent w true) u.connections := by
    intro ws
    induction ws with
    | nil => exact fun _ => rfl
    | cons w ws ih =>
        intro u
        rw [List.foldl_cons, List.foldl_cons, ih]
        simp
  exact each _ s

end State

omit [DecidableEq Block] in
theorem free_connections (s : State Block) (w : Option Block) :
    (s.free w).map State.connections = s.connections.free w := by
  cases w <;> rfl

omit [DecidableEq Block] in
theorem setSlot_connections (s : State Block) (fd : Nat) (w : Option Block) :
    (s.setSlot fd w).map State.connections = s.connections.setSlot fd w := by
  simp only [State.setSlot]
  cases s.connections.setSlot fd w <;> rfl

theorem freeLibev_connections (s : State Block) (fd : Nat) :
    (freeLibev s fd).map State.connections = Connections.freeLibev s.connections fd := by
  simp only [freeLibev, Connections.freeLibev]
  split_ifs
  · rfl
  · cases slot : s.connections.slot fd with
    | error fault => rfl
    | ok entry =>
        cases entry with
        | none => rfl
        | some w =>
            have stopped : ((s.close fd).evIoStop w).connections =
                (s.connections.close fd).evIoStop w := by simp
            refine (setSlot_connections _ fd none).trans ?_
            rw [stopped]
            rfl

theorem acceptFuncCb_connections (s : State Block) (call : AcceptCall Block) :
    (acceptFuncCb s call).map State.connections =
      Connections.acceptFuncCb s.connections call := by
  simp only [acceptFuncCb, Connections.acceptFuncCb]
  cases s.connections.malloc call.malloc call.stale with
  | mk taken connections =>
      cases taken with
      | none => rfl
      | some w =>
          dsimp only
          split_ifs
          · rfl
          · cases call.socket with
            | none => rfl
            | some fd =>
                dsimp only
                split_ifs
                · rfl
                · simp only [State.onConnections_connections]
                  cases slot : (connections.openSocket fd).slot fd with
                  | error fault => rfl
                  | ok entry =>
                      cases entry with
                      | some w' => rfl
                      | none =>
                          refine (setSlot_connections _ fd (some w)).trans ?_
                          rw [State.evIoStart_connections]
                          rfl

theorem readFuncCb_connections (s : State Block) (w : Block) (evError : Bool) (read : Recv) :
    (readFuncCb s w evError read).map State.connections =
      Connections.readFuncCb s.connections w evError read := by
  simp only [readFuncCb, Connections.readFuncCb]
  split_ifs
  · rfl
  · cases read with
    | failed | received => rfl
    | closed => exact freeLibev_connections s _

/-! ## The epoll set and the watchers -/

/-- The events the watchers of an fd wait for. -/
def State.wanted (s : State Block) (fd : Nat) : UInt8 :=
  if s.connections.anfds fd = [] then 0 else evRead

/-- An fd that is not in `changes` is in the epoll set exactly if it has a watcher, with the
    generation libev expects; one that is in `changes` is not in the epoll set. -/
structure State.InStepAt (s : State Block) (changes : List Nat) (fd : Nat) : Prop where
  changed : fd ∈ changes ↔ (s.anfd fd).reify ≠ 0
  events : (s.anfd fd).reify = 0 → (s.anfd fd).events = s.wanted fd
  registered : ∀ r, s.epollSet fd = some r → (s.anfd fd).reify = 0 ∧
    s.connections.anfds fd ≠ [] ∧ r = { events := evRead, data := packed fd (s.anfd fd).egen }
  unregistered : s.epollSet fd = none → s.connections.anfds fd ≠ [] →
    (s.anfd fd).reify &&& evIofdset ≠ 0

structure State.InStep (s : State Block) (changes : List Nat) : Prop where
  agrees : s.connections.Agrees
  nodup : changes.Nodup
  each : ∀ fd, s.InStepAt changes fd
  postfork : s.postfork = false

variable {changes : List Nat}

omit [DecidableEq Block] in
/-- What happens to one fd leaves the others in step. -/
theorem State.InStep.update (inStep : s.InStep changes) (fd : Nat) {changes' : List Nat}
    (agrees : t.connections.Agrees) (nodup : changes'.Nodup) (postfork : t.postfork = false)
    (frame : ∀ fd' ≠ fd, t.anfd fd' = s.anfd fd' ∧ t.epollSet fd' = s.epollSet fd' ∧
      t.connections.anfds fd' = s.connections.anfds fd' ∧ (fd' ∈ changes' ↔ fd' ∈ changes))
    (here : t.InStepAt changes' fd) : t.InStep changes' where
  agrees := agrees
  nodup := nodup
  postfork := postfork
  each fd' := by
    by_cases same : fd' = fd
    · exact same ▸ here
    · obtain ⟨anfd, epollSet, anfds, changed⟩ := frame fd' same
      obtain ⟨change, events, registered, unregistered⟩ := inStep.each fd'
      constructor
      · rw [changed, anfd]
        exact change
      · rw [anfd, State.wanted, anfds]
        exact events
      · rw [anfd, epollSet, anfds]
        exact registered
      · rw [anfd, epollSet, anfds]
        exact unregistered

omit [DecidableEq Block] in
/-- A callback that leaves the lists of watchers alone. -/
theorem State.InStep.callback (inStep : s.InStep changes) {connections : Connections.State Block}
    (agrees : connections.Agrees) (anfds : connections.anfds = s.connections.anfds) :
    { s with connections }.InStep changes where
  agrees := agrees
  nodup := inStep.nodup
  postfork := inStep.postfork
  each fd := by
    obtain ⟨change, events, registered, unregistered⟩ := inStep.each fd
    constructor
    · exact change
    · simpa only [State.wanted, anfds] using events
    · simpa only [anfds] using registered
    · simpa only [anfds] using unregistered

namespace State.InStep

omit [DecidableEq Block]

/-- An fd in the epoll set has a watcher, so it is open and in the table. -/
theorem entry (inStep : s.InStep changes) {r : Registered} (there : s.epollSet fd = some r) :
    ∃ w, s.connections.libevList fd = some w ∧ (s.connections.watchers w).active = true := by
  obtain ⟨-, watched, -⟩ := (inStep.each fd).registered r there
  obtain ⟨w, member⟩ := List.exists_mem_of_ne_nil _ watched
  exact ⟨w, inStep.agrees.mem_anfds member⟩

theorem outside (inStep : s.InStep changes) (none : s.connections.libevList fd = none) :
    s.epollSet fd = Option.none ∧ s.connections.anfds fd = [] := by
  refine ⟨?_, inStep.agrees.anfds_closed none⟩
  cases there : s.epollSet fd with
  | none => rfl
  | some r =>
      obtain ⟨w, here, -⟩ := inStep.entry there
      rw [none] at here
      cases here

theorem outside_changes (inStep : s.InStep changes) (changed : fd ∈ changes) :
    s.epollSet fd = none := by
  cases there : s.epollSet fd with
  | none => rfl
  | some r =>
      have settled := ((inStep.each fd).registered r there).1
      exact absurd settled ((inStep.each fd).changed.mp changed)

end State.InStep

/-! ## `fd_change` -/

theorem flags_or_and (a b c : UInt8) : (a ||| b) &&& c = a &&& c ||| b &&& c := by
  apply UInt8.toBitVec_inj.mp
  apply BitVec.eq_of_getLsbD_eq
  intro i less
  simp [Bool.and_or_distrib_right]

section FdChange

omit [DecidableEq Block]

variable (s) (fd) (flags : UInt8)

@[simp] theorem fdChange_anfd : (s.fdChange fd flags).anfd = Function.update s.anfd fd
    { s.anfd fd with reify := (s.anfd fd).reify ||| flags } := by
  simp only [State.fdChange]
  split_ifs <;> rfl

@[simp] theorem fdChange_epollSet : (s.fdChange fd flags).epollSet = s.epollSet := by
  simp only [State.fdChange]
  split_ifs <;> rfl

@[simp] theorem fdChange_postfork : (s.fdChange fd flags).postfork = s.postfork := by
  simp only [State.fdChange]
  split_ifs <;> rfl

@[simp] theorem fdChange_phase : (s.fdChange fd flags).phase = s.phase := by
  simp only [State.fdChange]
  split_ifs <;> rfl

@[simp] theorem fdChange_fdchanges : (s.fdChange fd flags).fdchanges =
    if (s.anfd fd).reify = 0 then s.fdchanges ++ [fd] else s.fdchanges := by
  simp only [State.fdChange]
  split_ifs <;> rfl

theorem fdChange_with (connections : Connections.State Block) :
    { s.fdChange fd flags with connections } = { s with connections }.fdChange fd flags := by
  simp only [State.fdChange]
  split_ifs <;> rfl

end FdChange

omit [DecidableEq Block] in
/-- A callback by which an fd leaves the epoll set, or has never been in it, and gets or loses
    its watcher. -/
theorem State.InStep.change (inStep : s.InStep s.fdchanges) (fd : Nat)
    {connections : Connections.State Block} (agrees : connections.Agrees) (anfdmax : Nat)
    {flags : UInt8} (some : flags ≠ 0)
    (anfds : ∀ fd' ≠ fd, connections.anfds fd' = s.connections.anfds fd')
    (set : connections.anfds fd ≠ [] → flags &&& evIofdset ≠ 0) :
    ({ s with
      connections
      anfdmax
      epollSet := Function.update s.epollSet fd none }.fdChange fd flags).InStep
        (if (s.anfd fd).reify = 0 then s.fdchanges ++ [fd] else s.fdchanges) := by
  have changed := (inStep.each fd).changed
  refine inStep.update fd (by simpa using agrees) ?_ (by simpa using inStep.postfork)
    (fun fd' other => ?_) ?_
  · split_ifs with settled
    · refine List.nodup_append.mpr ⟨inStep.nodup, List.nodup_singleton fd, ?_⟩
      rintro fd' member _ last rfl
      obtain rfl := List.mem_singleton.mp last
      exact changed.mp member settled
    · exact inStep.nodup
  · refine ⟨by simp [other], by simp [other], by simpa using anfds fd' other, ?_⟩
    split_ifs <;> simp [other]
  · constructor
    · simp only [fdChange_anfd, Function.update_self, ne_eq, UInt8.or_eq_zero_iff, some, and_false,
        not_false_eq_true, iff_true]
      split_ifs with settled
      · simp
      · exact changed.mpr settled
    · simp [some]
    · simp
    · intro _ watched
      have set := set (by simpa using watched)
      simp only [fdChange_anfd, Function.update_self, flags_or_and, ne_eq, UInt8.or_eq_zero_iff,
        not_and]
      exact fun _ => set

/-! ## The callbacks -/

omit [DecidableEq Block] in
theorem unopened (none : s.epollSet fd = none) : Function.update s.epollSet fd Option.none =
    s.epollSet := by
  rw [← none, Function.update_eq_self]

theorem evIoStart_fresh (s : State Block) (w : Block) (fd : Nat) :
    (s.onConnections (·.evIoInit w fd)).evIoStart w =
      { s with
        connections := (s.connections.evIoInit w fd).evIoStart w
        anfdmax := max s.anfdmax (fd + 1) }.fdChange fd (evIofdset ||| evAnfdReify) := by
  simp [State.evIoStart, Connections.State.evIoInit, State.onConnections]

/-- `accept_func_cb` gives its block back, or it registers a socket for the next `fd_reify`. -/
theorem accept_inStep (inStep : s.InStep s.fdchanges) {call : AcceptCall Block}
    (enabled : Connections.enabled s.connections (.accept call)) :
    ∃ t, acceptFuncCb s call = .ok t ∧ t.InStep t.fdchanges ∧ t.phase = s.phase := by
  obtain ⟨connections, result, step⟩ := Connections.accept_step inStep.agrees enabled
  have agrees := inStep.agrees.step step
  have projected := acceptFuncCb_connections s call
  rw [result] at projected
  obtain ⟨succeeds, socket⟩ := enabled
  obtain ⟨w, evPool, obtained, takes, allocated⟩ := Connections.malloc_takes call.stale succeeds
  simp only [acceptFuncCb, allocated] at projected ⊢
  split_ifs at projected ⊢ with evError
  · obtain rfl := Except.ok.inj projected
    exact ⟨_, rfl, inStep.callback agrees rfl, rfl⟩
  · cases accepted : call.socket with
    | none =>
        rw [accepted] at projected
        obtain rfl := Except.ok.inj projected
        exact ⟨_, rfl, inStep.callback agrees rfl, rfl⟩
    | some fd =>
        rw [accepted] at projected
        obtain ⟨shut, notMax⟩ := socket fd accepted
        have none := inStep.agrees.closed shut
        obtain ⟨absent, unwatched⟩ := inStep.outside none
        dsimp only at projected ⊢
        split_ifs at projected ⊢ with beyond
        · obtain rfl := Except.ok.inj projected
          refine ⟨_, rfl, ?_, rfl⟩
          have kept := inStep.callback agrees rfl
          rwa [← unopened absent] at kept
        · have inside : fd < socketAllocMaxClient :=
            Nat.lt_of_le_of_ne (Nat.not_lt.mp beyond) notMax
          simp only [State.onConnections_connections, Connections.slot_of_lt inside,
            Connections.State.openSocket, none] at projected ⊢
          change (State.setSlot _ fd (some w)).map State.connections = _ at projected
          change ∃ t, State.setSlot _ fd (some w) = _ ∧ _
          rw [evIoStart_fresh, State.setSlot, State.fdChange_connections,
            Connections.setSlot_of_lt inside] at projected ⊢
          obtain rfl := Except.ok.inj projected
          refine ⟨_, rfl, ?_, by simp [State.onConnections]⟩
          have changed := inStep.change fd agrees (max s.anfdmax (fd + 1))
            (show evIofdset ||| evAnfdReify ≠ 0 by decide) (fun fd' other => by
              simp [Connections.State.evIoStart, Connections.State.evIoInit,
                State.onConnections, other]) fun _ => by decide
          rw [unopened absent] at changed
          rw [fdChange_with, fdChange_fdchanges]
          exact changed

/-- `ev_io_stop` of the only watcher of a closed fd. -/
theorem evIoStop_watched (active : (s.connections.watchers w).active = true) :
    s.evIoStop w = { s with connections := s.connections.evIoStop w }.fdChange
      (s.connections.watchers w).fd evAnfdReify := by
  simp [State.evIoStop, active, State.onConnections]

theorem freeLibev_watched (here : s.connections.libevList fd = some w)
    (inside : fd < socketAllocMaxClient) (active : (s.connections.watchers w).active = true)
    (mine : (s.connections.watchers w).fd = fd) :
    ∃ connections, Connections.freeLibev s.connections fd = .ok connections ∧
      freeLibev s fd = .ok ({ s with
        connections
        epollSet := Function.update s.epollSet fd none }.fdChange fd evAnfdReify) := by
  have active' : ((s.close fd).connections.watchers w).active = true := active
  have mine' : ((s.close fd).connections.watchers w).fd = fd := mine
  refine ⟨{ (s.connections.close fd).evIoStop w with
    evPool := w :: ((s.connections.close fd).evIoStop w).evPool
    libevList := Function.update ((s.connections.close fd).evIoStop w).libevList fd none },
    ?_, ?_⟩
  · rw [Connections.freeLibev, if_neg (Nat.not_lt.mpr (Nat.le_of_lt inside)),
      Connections.slot_of_lt inside, here]
    exact Connections.setSlot_of_lt inside none
  · rw [freeLibev, if_neg (Nat.not_lt.mpr (Nat.le_of_lt inside)),
      Connections.slot_of_lt inside, here]
    change (((s.close fd).evIoStop w).free (some w) >>= fun s => s.setSlot fd none) = _
    rw [evIoStop_watched active', mine', State.free, State.fdChange_connections]
    change State.setSlot _ fd none = _
    rw [State.setSlot, Connections.setSlot_of_lt inside]
    change Except.ok _ = Except.ok _
    simp only [fdChange_with]
    rfl

/-- `read_func_cb` does nothing to libev, or it closes its socket. -/
theorem invoke_inStep (inStep : s.InStep s.fdchanges) (read : Recv)
    (enabled : s.connections.pendings ≠ []) :
    (next s (.invoke read)).InStep (next s (.invoke read)).fdchanges ∧
      (next s (.invoke read)).phase = s.phase := by
  cases queue : s.connections.pendings with
  | nil => exact absurd queue enabled
  | cons p rest =>
      obtain ⟨w, evError⟩ := p
      have dismissed : ({ s with connections.pendings := rest } : State Block).InStep
          s.fdchanges := by
        refine inStep.callback ?_ rfl
        have step : Connections.Step s.connections (.invoke .failed) _ := .dismiss queue
        exact inStep.agrees.step step
      simp only [next, queue, readFuncCb]
      cases evError with
      | true => exact ⟨dismissed, rfl⟩
      | false =>
          cases read with
          | failed | received => exact ⟨dismissed, rfl⟩
          | closed =>
              obtain ⟨fd, here, active⟩ := inStep.agrees.pendings w false (by simp [queue])
              have mine := inStep.agrees.watcherFd fd w here
              obtain ⟨connections, freed, result⟩ :=
                freeLibev_watched (s := { s with connections.pendings := rest }) here
                  (inStep.agrees.range fd w here) (active rfl) mine
              have agrees : connections.Agrees := by
                have step :=
                  Connections.step_of_enabled (l := .invoke .closed) inStep.agrees enabled
                simp only [Connections.next, queue, Connections.readFuncCb, Bool.false_eq_true,
                  if_false, mine, freed] at step
                exact inStep.agrees.step step
              have explicit := Connections.freeLibev_eq inStep.agrees here rest
              obtain rfl := Except.ok.inj (freed.symm.trans explicit)
              have changed := inStep.change fd agrees s.anfdmax
                (show evAnfdReify ≠ 0 by decide) (fun fd' other => by simp [other]) (by simp)
              simp only [Bool.false_eq_true, if_false, mine, result]
              change (State.fdChange _ fd evAnfdReify).InStep
                (State.fdChange _ fd evAnfdReify).fdchanges ∧
                  (State.fdChange _ fd evAnfdReify).phase = _
              rw [fdChange_fdchanges, fdChange_phase]
              exact ⟨changed, rfl⟩

end ObdServer.Epoll
