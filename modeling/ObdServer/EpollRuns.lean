import ObdServer.EpollRegistration

/-! # Whole runs of the event loop on epoll

Whenever libev waits, the epoll set is exactly what the watchers call for, with the
generations libev expects; so no event is thrown away, the epoll set is never made anew, and
what the loop does to the connections is a run of `connections`.
-/

namespace ObdServer

namespace Epoll

open Transition Connections

variable {Block : Type}

/-- The fds that `fd_reify` has still to see. -/
def State.changes (s : State Block) : List Nat :=
  match s.phase with
  | .reifying i => s.fdchanges.drop i
  | _ => s.fdchanges

structure State.Synced (s : State Block) : Prop where
  inStep : s.InStep s.changes
  quiet : (s.phase = .waiting ∨ ∃ events, s.phase = .receiving events) → s.fdchanges = []
  current : ∀ events, s.phase = .receiving events → ∀ event ∈ events,
    ∃ fd r, s.epollSet fd = some r ∧ event.data = r.data

theorem State.InStep.phased {s : State Block} {changes : List Nat} (inStep : s.InStep changes)
    (fdchanges : List Nat) (phase : Phase) : { s with fdchanges, phase }.InStep changes where
  agrees := inStep.agrees
  nodup := inStep.nodup
  each fd := ⟨(inStep.each fd).changed, (inStep.each fd).events, (inStep.each fd).registered,
    (inStep.each fd).unregistered⟩
  postfork := inStep.postfork

theorem synced_initial (watchers : Block → EvIo) : (State.initial watchers).Synced where
  inStep := by
    refine ⟨State.Agrees.initial watchers, List.nodup_nil, fun fd => ?_, rfl⟩
    constructor <;> simp [State.initial, State.changes, State.wanted, Connections.State.initial]
  quiet _ := rfl
  current _ phase := by cases phase

variable [DecidableEq Block] {s : State Block} {l : Label Block}

/-! ## One step -/

namespace State.Synced

omit [DecidableEq Block] in
/-- After a callback, and wherever libev is not in the middle of anything. -/
theorem invoking {t : State Block} (inStep : t.InStep t.fdchanges) (phase : t.phase = .invoking) :
    t.Synced where
  inStep := by rwa [State.changes, phase]
  quiet busy := by simp [phase] at busy
  current events received := by simp [phase] at received

theorem reify (synced : s.Synced) {i fd : Nat} (phase : s.phase = .reifying i)
    (here : s.fdchanges[i]? = some fd) (full : Bool) : (next s (.reify full)).Synced := by
  have inside : i < s.fdchanges.length := (List.getElem?_eq_some_iff.mp here).1
  have split : s.changes = fd :: s.fdchanges.drop (i + 1) := by
    simp only [State.changes, phase]
    rw [List.drop_eq_getElem_cons inside, (List.getElem?_eq_some_iff.mp here).2]
  have inStep := split ▸ synced.inStep
  -- `fd_reify` goes on with the rest, and with what has been added to it
  have reified : ∀ rest, (s.fdReify fd full).InStep rest →
      (s.fdReify fd full).fdchanges.drop (i + 1) = rest → (next s (.reify full)).Synced := by
    intro rest kept shape
    simp only [next, phase, here]
    refine ⟨?_, fun busy => by simp at busy, fun events received => by simp at received⟩
    simp only [State.changes, shape]
    exact kept.phased _ _
  by_cases watched : s.connections.anfds fd = []
  · refine reified _ (fdReify_idle_inStep inStep watched) ?_
    rw [fdReify_idle watched]
    rfl
  · cases full with
    | false =>
        refine reified _ (fdReify_added_inStep inStep watched) ?_
        rw [fdReify_added inStep watched]
    | true =>
        refine reified _ (fdReify_refused_inStep inStep watched) ?_
        rw [fdReify_refused inStep watched]
        exact List.drop_append_of_le_length inside

theorem poll (synced : s.Synced) {event : Event} {rest : List Event}
    (phase : s.phase = .receiving (event :: rest)) : (next s .poll).Synced := by
  obtain ⟨fd, r, there, data⟩ := synced.current _ phase event List.mem_cons_self
  obtain ⟨emask, received⟩ := epollPoll_registered synced.inStep there event data
  have none := synced.quiet (.inr ⟨_, phase⟩)
  have inStep := synced.inStep
  simp only [State.changes, phase, none] at inStep
  simp only [next, phase, received]
  refine ⟨?_, fun _ => none, fun events now other member => ?_⟩
  · have kept := (received_inStep inStep fd emask event.readiness).phased []
      (.receiving rest)
    simpa only [State.changes, State.received, none] using kept
  · obtain rfl := Phase.receiving.inj now
    exact synced.current _ phase other (List.mem_cons_of_mem _ member)

theorem step (synced : s.Synced) (enabled : enabled s l) : (next s l).Synced := by
  cases l with
  | accept call =>
      obtain ⟨phase, possible⟩ := enabled
      have inStep := synced.inStep
      simp only [State.changes, phase] at inStep
      obtain ⟨t, result, kept, same⟩ := accept_inStep inStep possible
      simp only [next, result, Except.toOption, Option.getD_some]
      exact invoking kept (same.trans phase)
  | invoke read =>
      obtain ⟨phase, some⟩ := enabled
      have inStep := synced.inStep
      simp only [State.changes, phase] at inStep
      obtain ⟨kept, same⟩ := invoke_inStep inStep read some
      exact invoking kept (same.trans phase)
  | loop =>
      obtain ⟨phase, -⟩ := enabled
      have inStep := synced.inStep
      simp only [State.changes, phase] at inStep
      have resumed : next s .loop = { s with phase := .reifying 0 } := by
        rw [next, if_neg (by simp [inStep.postfork])]
      rw [resumed]
      exact ⟨inStep.phased _ _, fun busy => by simp at busy, fun events now => by simp at now⟩
  | reify full =>
      cases phase : s.phase with
      | reifying i =>
          have inside : i < s.fdchanges.length := by simpa only [Epoll.enabled, phase] using enabled
          exact synced.reify phase (List.getElem?_eq_getElem inside) full
      | _ => simp [Epoll.enabled, phase] at enabled
  | reified =>
      cases phase : s.phase with
      | reifying i =>
          have beyond : s.fdchanges.length ≤ i := by
            simpa only [Epoll.enabled, phase] using enabled
          have inStep := synced.inStep
          simp only [State.changes, phase, List.drop_eq_nil_of_le beyond] at inStep
          exact ⟨inStep.phased [] .waiting, fun _ => rfl, fun events now => by simp [next] at now⟩
      | _ => simp [Epoll.enabled, phase] at enabled
  | wait ready =>
      obtain ⟨phase, -⟩ := enabled
      have none := synced.quiet (.inl phase)
      have inStep := synced.inStep
      simp only [State.changes, phase] at inStep
      refine ⟨inStep.phased _ _, fun _ => none, fun events now event member => ?_⟩
      obtain rfl := Phase.receiving.inj now
      simp only [State.events, List.mem_filterMap, Option.map_eq_some_iff] at member
      obtain ⟨⟨fd, _⟩, _, r, there, rfl⟩ := member
      exact ⟨fd, r, there, rfl⟩
  | poll =>
      cases phase : s.phase with
      | receiving events =>
          cases events with
          | nil => simp [Epoll.enabled, phase] at enabled
          | cons event rest => exact synced.poll phase
      | _ => simp [Epoll.enabled, phase] at enabled
  | polled =>
      have phase : s.phase = .receiving [] := enabled
      have inStep := synced.inStep
      simp only [State.changes, phase] at inStep
      exact invoking (inStep.phased _ _) rfl

end State.Synced

theorem synced_of_run {watchers : Block → EvIo} {tr : List (State Block × Label Block)}
    {t : State Block} (run : Run (epoll Block) (State.initial watchers) tr t) : t.Synced :=
  run.preserves State.Synced (fun _ _ synced enabled => synced.step enabled)
    (synced_initial watchers)

/-! ## The connections -/

/-- What a step is to the connections. -/
def State.answer (s : State Block) : Label Block → List (Connections.Label Block)
  | .accept call => [.accept call]
  | .invoke read => [.invoke read]
  | .reify full => match s.phase with
      | .reifying i => (s.fdchanges[i]?).toList.filterMap fun fd =>
          if full ∧ s.connections.anfds fd ≠ [] then some (.kill fd) else none
      | _ => []
  | .poll => match s.phase with
      | .receiving (event :: _) =>
          if event.readiness.readable ∨ event.readiness.broken then
            [.ready (packedFd event.data)]
          else []
      | _ => []
  | .loop | .reified | .wait _ | .polled => []

omit [DecidableEq Block] in
theorem getD_connections {result : Except Fault (State Block)}
    {projected : Except Fault (Connections.State Block)}
    (same : result.map State.connections = projected) (s : State Block) :
    (result.toOption.getD s).connections = projected.toOption.getD s.connections := by
  subst same
  cases result <;> rfl

theorem State.Synced.answered (synced : s.Synced) (enabled : enabled s l) :
    ∃ tr, Run (ObdServer.connections Block) s.connections tr (next s l).connections ∧
      tr.map Prod.snd = s.answer l := by
  -- a step that is no step of the connections, or one with the same effect
  have unseen : s.answer l = [] → (next s l).connections = s.connections →
      ∃ tr, Run (ObdServer.connections Block) s.connections tr (next s l).connections ∧
        tr.map Prod.snd = s.answer l := by
    intro silent same
    rw [silent, same]
    exact ⟨[], .refl, rfl⟩
  have seen : ∀ l', s.answer l = [l'] → Connections.enabled s.connections l' →
      (next s l).connections = Connections.next s.connections l' →
      ∃ tr, Run (ObdServer.connections Block) s.connections tr (next s l).connections ∧
        tr.map Prod.snd = s.answer l := by
    intro l' told possible same
    rw [told, same]
    exact ⟨_, Run.single (M := ObdServer.connections Block) possible, rfl⟩
  cases l with
  | accept call =>
      exact seen _ rfl enabled.2 (getD_connections (acceptFuncCb_connections s call) s)
  | invoke read =>
      refine seen _ rfl enabled.2 ?_
      cases queue : s.connections.pendings with
      | nil => exact absurd queue enabled.2
      | cons p rest =>
          simp only [next, Connections.next, queue]
          exact getD_connections (readFuncCb_connections _ p.1 p.2 read) s
  | loop =>
      refine unseen rfl ?_
      rw [next, if_neg (by simp [synced.inStep.postfork])]
  | reify full =>
      cases phase : s.phase with
      | reifying i =>
          have inside : i < s.fdchanges.length := by simpa only [Epoll.enabled, phase] using enabled
          have inStep := synced.inStep
          simp only [State.changes, phase, List.drop_eq_getElem_cons inside] at inStep
          have here := List.getElem?_eq_getElem inside
          by_cases watched : s.connections.anfds s.fdchanges[i] = []
          · refine unseen (by simp [State.answer, phase, here, watched]) ?_
            simp only [next, phase, here, fdReify_idle watched]
            rfl
          · cases full with
            | false =>
                refine unseen (by simp [State.answer, phase]) ?_
                simp only [next, phase, here, fdReify_added inStep watched]
            | true =>
                refine seen (.kill s.fdchanges[i]) (by simp [State.answer, phase, here, watched])
                  watched ?_
                simp only [next, phase, here, fdReify_refused inStep watched]
                rfl
      | _ => simp [Epoll.enabled, phase] at enabled
  | poll =>
      cases phase : s.phase with
      | receiving events =>
          cases events with
          | nil => simp [Epoll.enabled, phase] at enabled
          | cons event rest =>
              obtain ⟨fd, r, there, data⟩ := synced.current _ phase event List.mem_cons_self
              obtain ⟨emask, received⟩ := epollPoll_registered synced.inStep there event data
              have sameFd : packedFd event.data = fd := data ▸ (synced.inStep.data there).1
              by_cases heard : event.readiness.readable = true ∨ event.readiness.broken = true
              · refine seen (.ready fd) (by simp [State.answer, phase, heard, sameFd]) trivial ?_
                simp only [next, phase, received, State.received, if_pos heard]
                rfl
              · refine unseen (by simp [State.answer, phase, heard]) ?_
                simp only [next, phase, received, State.received, if_neg heard]
      | _ => simp [Epoll.enabled, phase] at enabled
  | reified | wait | polled => exact unseen rfl rfl

/-! ## The epoll set when libev waits -/

omit [DecidableEq Block] in
theorem State.Synced.registered (synced : s.Synced) (waiting : s.phase = .waiting) (fd : Nat) :
    s.epollSet fd = if s.connections.anfds fd = [] then none
      else some { events := evRead, data := packed fd (s.anfd fd).egen } := by
  have inStep := synced.inStep
  simp only [State.changes, waiting, synced.quiet (.inl waiting)] at inStep
  obtain ⟨changed, -, registered, unregistered⟩ := inStep.each fd
  have settled : (s.anfd fd).reify = 0 := by simpa using changed
  cases there : s.epollSet fd with
  | none =>
      rw [if_pos]
      by_contra watched
      exact unregistered there watched (by rw [settled]; decide)
  | some r =>
      obtain ⟨-, watched, rfl⟩ := registered r there
      rw [if_neg watched]

/-- A watcher that is fed is pending. -/
theorem fed_pending (c : Connections.State Block) (w : Block) :
    ∃ e, (w, e) ∈ (c.evFeedEvent w false).pendings := by
  simp only [Connections.State.evFeedEvent]
  split_ifs with pending
  · obtain ⟨p, member, rfl⟩ := List.mem_map.mp pending
    refine ⟨p.2 || false, List.mem_map.mpr ⟨p, member, ?_⟩⟩
    rw [if_pos rfl]
  · exact ⟨false, List.mem_cons_self⟩

/-- The kernel has no room for the fd that `fd_reify` is at. -/
def State.refused (s : State Block) : Label Block → Bool
  | .reify full => match s.phase with
      | .reifying i =>
          full && (s.fdchanges[i]?).any fun fd => !(s.connections.anfds fd).isEmpty
      | _ => false
  | _ => false

omit [DecidableEq Block] in
theorem State.refused_iff (s : State Block) (l : Label Block) :
    s.refused l = false ↔ ∀ l' ∈ s.answer l, l'.isKill = false := by
  cases l with
  | reify full =>
      cases phase : s.phase with
      | reifying i =>
          cases here : s.fdchanges[i]? with
          | none => simp [refused, answer, phase, here]
          | some fd =>
              by_cases watched : s.connections.anfds fd = [] <;> cases full <;>
                simp [refused, answer, phase, here, watched, Connections.Label.isKill]
      | _ => simp [refused, answer, phase]
  | poll =>
      cases phase : s.phase with
      | receiving events =>
          cases events with
          | nil => simp [refused, answer, phase]
          | cons event rest =>
              simp only [refused, answer, phase]
              split_ifs <;> simp [Connections.Label.isKill]
      | _ => simp [refused, answer, phase]
  | _ => simp [refused, answer, Connections.Label.isKill]

theorem connections_of_run {watchers : Block → EvIo} {tr : List (State Block × Label Block)}
    {t : State Block} (run : Run (epoll Block) (State.initial watchers) tr t) :
    ∃ tr', Run (ObdServer.connections Block) (.initial watchers) tr' t.connections ∧
      tr'.map Prod.snd = tr.flatMap fun p => p.1.answer p.2 :=
  (run.answered State.Synced State.connections State.answer
    (fun _ _ synced enabled => ⟨synced.answered enabled, synced.step enabled⟩)
    (synced_initial watchers)).1

/-- No watcher was ever stopped by a refusal. -/
theorem watched_iff {watchers : Block → EvIo} {tr : List (State Block × Label Block)}
    {t : State Block} (run : Run (epoll Block) (State.initial watchers) tr t) :
    t.connections.Watched ↔ ∀ p ∈ tr, p.1.refused p.2 = false := by
  obtain ⟨tr', run', labels⟩ := connections_of_run run
  have ordinary : (∀ p ∈ tr, p.1.refused p.2 = false) ↔ ∀ p ∈ tr', p.2.isKill = false := by
    have all : (∀ l ∈ tr'.map Prod.snd, l.isKill = false) ↔
        ∀ p ∈ tr, ∀ l ∈ p.1.answer p.2, l.isKill = false := by
      rw [labels]
      simp only [List.mem_flatMap, forall_exists_index, and_imp]
      exact ⟨fun all p member l answer => all l p member answer,
        fun all l p member answer => all p member l answer⟩
    simp only [State.refused_iff, ← all, List.forall_mem_map]
  rw [ordinary]
  constructor
  · rintro watched ⟨u, l⟩ member
    cases l with
    | kill fd =>
        obtain ⟨w, here, inactive⟩ := orphan_of_kill ⟨watchers, rfl⟩ run' member
        simp [watched fd w here] at inactive
    | accept | ready | invoke => rfl
  · exact watched_of_run ⟨watchers, rfl⟩ run'

end Epoll

/-! ## Results -/

open Transition

/-- Socket 5 is accepted and comes into the epoll set. -/
def Epoll.accepted : List (Epoll.Label Nat) :=
  [.accept { malloc := some 0, stale := ⟨true, 0⟩, evError := false, socket := some 5 }, .loop,
    .reify false, .reified]

theorem Epoll.accepted_run : Run (epoll Nat) (.initial fun _ => ⟨false, 0⟩)
    (trace (epoll Nat) (.initial fun _ => ⟨false, 0⟩) accepted)
    (exec (epoll Nat) (.initial fun _ => ⟨false, 0⟩) accepted) :=
  .ofSchedule accepted (by decide +kernel)

/-- Then it is readable. -/
def Epoll.heard : List (Epoll.Label Nat) :=
  accepted ++ [.wait [(5, { readable := true, writable := false, broken := false })]]

variable {Block : Type} [DecidableEq Block] {watchers : Block → Connections.EvIo}
  {tr : List (Epoll.State Block × Epoll.Label Block)} {t : Epoll.State Block}

/-- The event loop on epoll does to the connections what `connections` can do, each step as
    `answer` says: epoll and its bookkeeping show only in which fds are ready and killed. -/
theorem epoll_refines (run : Run (epoll Block) (.initial watchers) tr t) :
    ∃ tr', Run (connections Block) (.initial watchers) tr' t.connections ∧
      tr'.map Prod.snd = tr.flatMap fun p => p.1.answer p.2 :=
  Epoll.connections_of_run run

theorem epoll_refines_accepted :
    ∃ tr', Run (connections Nat) (.initial fun _ => ⟨false, 0⟩) tr'
        (exec (epoll Nat) (.initial fun _ => ⟨false, 0⟩) Epoll.accepted).connections ∧
      tr'.map Prod.snd =
        (trace (epoll Nat) (.initial fun _ => ⟨false, 0⟩) Epoll.accepted).flatMap
          fun p => p.1.answer p.2 :=
  epoll_refines Epoll.accepted_run

/-- Whenever libev waits, an fd is in the epoll set exactly if it has a watcher, for reading
    and with the generation libev expects. -/
theorem epoll_registered (run : Run (epoll Block) (.initial watchers) tr t)
    (waiting : t.phase = .waiting) (fd : Nat) :
    t.epollSet fd = if t.connections.anfds fd = [] then none
      else some { events := Epoll.evRead, data := Epoll.packed fd (t.anfd fd).egen } :=
  (Epoll.synced_of_run run).registered waiting fd

theorem epoll_registered_accepted :
    let t := exec (epoll Nat) (.initial fun _ => ⟨false, 0⟩) Epoll.accepted
    t.epollSet 5 = if t.connections.anfds 5 = [] then none
      else some { events := Epoll.evRead, data := Epoll.packed 5 (t.anfd 5).egen } :=
  epoll_registered Epoll.accepted_run (by decide +kernel) 5

/-- No event is lost to the test of the generation: each event of `epoll_wait` is of the
    present socket of its fd, and when it tells of data or of an error, the watcher of that
    socket becomes pending. The epoll set is never made anew. -/
theorem epoll_delivers (run : Run (epoll Block) (.initial watchers) tr t) {event : Epoll.Event}
    {rest : List Epoll.Event} (receiving : t.phase = .receiving (event :: rest)) :
    ∃ fd w, event.data = Epoll.packed fd (t.anfd fd).egen ∧
      t.connections.libevList fd = some w ∧ (Epoll.next t .poll).postfork = false ∧
      (event.readiness.readable ∨ event.readiness.broken →
        ∃ e, (w, e) ∈ (Epoll.next t .poll).connections.pendings) := by
  have synced := Epoll.synced_of_run run
  obtain ⟨fd, r, there, data⟩ := synced.current _ receiving event List.mem_cons_self
  obtain ⟨emask, received⟩ := Epoll.epollPoll_registered synced.inStep there event data
  obtain ⟨-, watched, rfl⟩ := (synced.inStep.each fd).registered r there
  obtain ⟨w, alone, here, -⟩ := synced.inStep.alone watched
  refine ⟨fd, w, data, here, ?_, fun heard => ?_⟩
  · exact (synced.poll receiving).inStep.postfork
  · simp only [Epoll.next, receiving, received, Epoll.State.received, if_pos heard,
      Connections.State.fdEvent, alone, List.foldl_cons, List.foldl_nil]
    exact Epoll.fed_pending t.connections w

theorem epoll_delivers_heard :
    let t := exec (epoll Nat) (.initial fun _ => ⟨false, 0⟩) Epoll.heard
    let event : Epoll.Event :=
      { readiness := { readable := true, writable := false, broken := false }
        data := Epoll.packed 5 1 }
    ∃ fd w, event.data = Epoll.packed fd (t.anfd fd).egen ∧
      t.connections.libevList fd = some w ∧ (Epoll.next t .poll).postfork = false ∧
      (event.readiness.readable ∨ event.readiness.broken →
        ∃ e, (w, e) ∈ (Epoll.next t .poll).connections.pendings) :=
  epoll_delivers (.ofSchedule Epoll.heard (by decide +kernel))
    (show _ = Epoll.Phase.receiving [_] by decide +kernel)

/-- Whenever libev waits, every open socket is in the epoll set exactly if the kernel has
    always had room: a socket it once refused is never heard again, nor closed. -/
theorem epoll_hears_iff (run : Run (epoll Block) (.initial watchers) tr t)
    (waiting : t.phase = .waiting) :
    (∀ fd, t.connections.isOpen fd = true → t.epollSet fd ≠ none) ↔
      ∀ p ∈ tr, p.1.refused p.2 = false := by
  have synced := Epoll.synced_of_run run
  have agrees := synced.inStep.agrees
  rw [← Epoll.watched_iff run, ← agrees.noOrphan_iff]
  refine forall₂_congr fun fd _ => ?_
  rw [synced.registered waiting fd]
  constructor
  · intro registered
    have watched : t.connections.anfds fd ≠ [] := by simpa using registered
    obtain ⟨w, -, here, active, -⟩ := synced.inStep.alone watched
    exact ⟨w, here, active⟩
  · rintro ⟨w, here, active⟩
    have alone := agrees.anfds_open here
    rw [if_pos active] at alone
    simp [alone]

theorem epoll_hears_iff_accepted :
    let t := exec (epoll Nat) (.initial fun _ => ⟨false, 0⟩) Epoll.accepted
    (∀ fd, t.connections.isOpen fd = true → t.epollSet fd ≠ none) ↔
      ∀ p ∈ trace (epoll Nat) (.initial fun _ => ⟨false, 0⟩) Epoll.accepted,
        p.1.refused p.2 = false :=
  epoll_hears_iff Epoll.accepted_run (by decide +kernel)

end ObdServer
