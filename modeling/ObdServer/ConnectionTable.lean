import Mathlib.Data.List.Nodup
import ObdServer.ConnectionSteps

/-! # The connection table over whole runs

Every step keeps the table in agreement with the sockets, the watchers and the free list.
Whether each registered watcher is active is another matter: `fd_kill` stops a watcher and
nothing in `read_func_cb` reacts to it.
-/

namespace ObdServer

namespace Connections

open Transition

variable {Block : Type} [DecidableEq Block] {s t : State Block} {l : Label Block} {w : Block}
  {fd : Nat}

omit [DecidableEq Block] in
theorem update_ne_some {table : Nat → Option Block} {b : Block} {v : Option Block} :
    (∀ fd', Function.update table fd v fd' ≠ some b) ↔
      v ≠ some b ∧ ∀ fd', fd' ≠ fd → table fd' ≠ some b := by
  constructor
  · intro outside
    refine ⟨?_, fun fd' other => ?_⟩
    · simpa using outside fd
    · simpa [Function.update_of_ne other] using outside fd'
  · rintro ⟨here, elsewhere⟩ fd'
    by_cases same : fd' = fd
    · subst same
      simpa using here
    · simpa [Function.update_of_ne same] using elsewhere fd' same

namespace State.Agrees

/-! ## What an update of one socket leaves -/

omit [DecidableEq Block] in
theorem opened_update (agrees : s.Agrees) (entry : Option Block) (fd' : Nat) :
    Function.update s.isOpen fd entry.isSome fd' = true ↔
      Function.update s.libevList fd entry fd' ≠ none := by
  by_cases this : fd' = fd
  · subst this
    rw [Function.update_self, Function.update_self, Option.isSome_iff_ne_none]
  · simpa [Function.update_of_ne this] using agrees.opened fd'

omit [DecidableEq Block] in
/-- The list of a socket stays right when its watcher is not touched. -/
theorem anfds_of_same (agrees : s.Agrees) {watchers : Block → EvIo}
    (same : ∀ v, s.libevList fd = some v → watchers v = s.watchers v) :
    s.anfds fd = (s.libevList fd).toList.filter fun v => (watchers v).active := by
  refine (agrees.anfds fd).trans (List.filter_congr fun v member => ?_)
  exact (congrArg EvIo.active (same v (Option.mem_toList.mp member))).symm

/-! ## One lemma for each outcome -/

theorem reject (agrees : s.Agrees) {evPool obtained : List Block}
    (takes : Takes s w evPool obtained) (stale : EvIo) :
    ({ s with
      evPool := w :: evPool
      obtained
      watchers := Function.update s.watchers w stale } : State Block).Agrees := by
  have outside := takes.not_registered agrees
  have members := takes.mem_iff agrees
  have same : ∀ fd v, s.libevList fd = some v → Function.update s.watchers w stale v =
      s.watchers v := fun fd v here =>
    Function.update_of_ne (by rintro rfl; exact outside fd here) _ _
  constructor
  · exact List.nodup_cons.mpr ⟨fun member => ((members w).1.mp member).1 rfl, takes.nodup agrees⟩
  · intro b
    rw [List.mem_cons, (members b).1, (members b).2, agrees.pool]
    by_cases same : b = w
    · simp [same, outside]
    · simp [same]
  · exact fun fd v here => (members v).2.mpr (.inr (agrees.obtained fd v here))
  · exact agrees.range
  · exact agrees.opened
  · intro fd v here
    exact (congrArg EvIo.fd (same fd v here)).trans (agrees.watcherFd fd v here)
  · exact fun fd => agrees.anfds_of_same (same fd)
  · intro v e member
    obtain ⟨fd, here, active⟩ := agrees.pendings v e member
    exact ⟨fd, here, fun noError => (congrArg EvIo.active (same fd v here)).trans (active noError)⟩

theorem register (agrees : s.Agrees) {evPool obtained : List Block}
    (takes : Takes s w evPool obtained) (inside : fd < socketAllocMaxClient)
    (none : s.libevList fd = none) :
    ({ s with
      evPool
      obtained
      watchers := Function.update s.watchers w { active := true, fd }
      libevList := Function.update s.libevList fd (some w)
      isOpen := Function.update s.isOpen fd true
      anfds := Function.update s.anfds fd [w] } : State Block).Agrees := by
  have outside := takes.not_registered agrees
  have members := takes.mem_iff agrees
  have same : ∀ fd' v, s.libevList fd' = some v →
      Function.update s.watchers w { active := true, fd } v = s.watchers v := fun fd' v here =>
    Function.update_of_ne (by rintro rfl; exact outside fd' here) _ _
  -- the other entries of the table are as before
  have elsewhere : ∀ fd' v, Function.update s.libevList fd (some w) fd' = some v →
      (fd' = fd ∧ v = w) ∨ (fd' ≠ fd ∧ s.libevList fd' = some v) := by
    intro fd' v here
    by_cases this : fd' = fd
    · subst this
      rw [Function.update_self, Option.some_inj] at here
      exact .inl ⟨rfl, here.symm⟩
    · rw [Function.update_of_ne this] at here
      exact .inr ⟨this, here⟩
  constructor
  · exact takes.nodup agrees
  · intro b
    rw [update_ne_some, (members b).1, (members b).2, agrees.pool]
    constructor
    · rintro ⟨other, mine, free⟩
      exact ⟨.inr mine, fun same => other (Option.some.inj same).symm, fun fd' _ => free fd'⟩
    · rintro ⟨same | mine, other, free⟩
      · exact absurd (congrArg some same.symm) other
      · refine ⟨fun same => other (congrArg some same.symm), mine, fun fd' => ?_⟩
        by_cases this : fd' = fd
        · simp [this, none]
        · exact free fd' this
  · intro fd' v here
    rcases elsewhere fd' v here with ⟨-, rfl⟩ | ⟨-, old⟩
    · exact (members v).2.mpr (.inl rfl)
    · exact (members v).2.mpr (.inr (agrees.obtained fd' v old))
  · intro fd' v here
    rcases elsewhere fd' v here with ⟨rfl, -⟩ | ⟨-, old⟩
    · exact inside
    · exact agrees.range fd' v old
  · exact agrees.opened_update (some w)
  · intro fd' v here
    rcases elsewhere fd' v here with ⟨rfl, rfl⟩ | ⟨-, old⟩
    · simp
    · exact (congrArg EvIo.fd (same fd' v old)).trans (agrees.watcherFd fd' v old)
  · intro fd'
    by_cases this : fd' = fd
    · simp [this]
    · simp only [Function.update_of_ne this]
      exact agrees.anfds_of_same (same fd')
  · intro v e member
    obtain ⟨fd', here, active⟩ := agrees.pendings v e member
    have this : fd' ≠ fd := by
      rintro rfl
      simp [none] at here
    refine ⟨fd', (Function.update_of_ne this _ _).trans here, fun noError => ?_⟩
    exact (congrArg EvIo.active (same fd' v here)).trans (active noError)

omit [DecidableEq Block] in
theorem feed (agrees : s.Agrees) {pendings : List (Block × Bool)}
    (source : ∀ p ∈ pendings, p ∈ s.pendings ∨ p.1 ∈ s.anfds fd) :
    ({ s with pendings } : State Block).Agrees := by
  refine { agrees with pendings := fun v e member => ?_ }
  rcases source (v, e) member with old | watched
  · exact agrees.pendings v e old
  · obtain ⟨here, active⟩ := agrees.mem_anfds watched
    exact ⟨fd, here, fun _ => active⟩

theorem kill (agrees : s.Agrees) (here : s.libevList fd = some w) :
    ({ s with
      watchers := Function.update s.watchers w { active := false, fd }
      anfds := Function.update s.anfds fd []
      pendings := (w, true) :: s.pendings.filter (·.1 ≠ w) } : State Block).Agrees := by
  have others : ∀ fd' v, s.libevList fd' = some v → fd' ≠ fd →
      Function.update s.watchers w { active := false, fd } v = s.watchers v := by
    intro fd' v there other
    apply Function.update_of_ne
    intro same
    subst same
    exact other (agrees.unique there here)
  refine { agrees with watcherFd := fun fd' v there => ?_, anfds := fun fd' => ?_,
                       pendings := fun v e member => ?_ }
  · by_cases same : v = w
    · subst same
      simpa using agrees.unique here there
    · exact (congrArg EvIo.fd (Function.update_of_ne same _ _)).trans
        (agrees.watcherFd fd' v there)
  · by_cases this : fd' = fd
    · simp [this, here]
    · simp only [Function.update_of_ne this]
      exact agrees.anfds_of_same fun v there => others fd' v there this
  · rcases List.mem_cons.mp member with same | old
    · obtain ⟨rfl, rfl⟩ := Prod.mk.inj same
      exact ⟨fd, here, fun noError => by cases noError⟩
    · rw [List.mem_filter] at old
      have other : v ≠ w := by simpa using old.2
      obtain ⟨fd', there, active⟩ := agrees.pendings v e old.1
      refine ⟨fd', there, fun noError => ?_⟩
      exact (congrArg EvIo.active (Function.update_of_ne other _ _)).trans (active noError)

theorem hangUp (agrees : s.Agrees) {rest : List (Block × Bool)} (queue : ∀ p ∈ rest, p ∈ s.pendings)
    (here : s.libevList fd = some w) (io : EvIo) :
    ({ s with
      evPool := w :: s.evPool
      watchers := Function.update s.watchers w io
      libevList := Function.update s.libevList fd none
      isOpen := Function.update s.isOpen fd false
      anfds := Function.update s.anfds fd []
      pendings := rest.filter (·.1 ≠ w) } : State Block).Agrees := by
  -- an entry left in the table is an old one, of another watcher
  have left : ∀ fd' v, Function.update s.libevList fd none fd' = some v →
      fd' ≠ fd ∧ s.libevList fd' = some v ∧ Function.update s.watchers w io v = s.watchers v := by
    intro fd' v there
    have other : fd' ≠ fd := by
      rintro rfl
      simp at there
    rw [Function.update_of_ne other] at there
    refine ⟨other, there, Function.update_of_ne ?_ _ _⟩
    rintro rfl
    exact other (agrees.unique there here)
  constructor
  · exact List.nodup_cons.mpr ⟨fun free => ((agrees.pool w).mp free).2 fd here, agrees.nodup⟩
  · intro b
    rw [List.mem_cons, update_ne_some, agrees.pool]
    constructor
    · rintro (rfl | ⟨mine, free⟩)
      · refine ⟨agrees.obtained fd b here, by simp, fun fd' other there => ?_⟩
        exact other (agrees.unique there here)
      · exact ⟨mine, by simp, fun fd' _ => free fd'⟩
    · rintro ⟨mine, -, free⟩
      by_cases same : b = w
      · exact .inl same
      · refine .inr ⟨mine, fun fd' there => ?_⟩
        by_cases this : fd' = fd
        · subst this
          exact same (Option.some.inj (there.symm.trans here))
        · exact free fd' this there
  · exact fun fd' v there => agrees.obtained fd' v (left fd' v there).2.1
  · exact fun fd' v there => agrees.range fd' v (left fd' v there).2.1
  · exact agrees.opened_update none
  · intro fd' v there
    obtain ⟨-, old, same⟩ := left fd' v there
    exact (congrArg EvIo.fd same).trans (agrees.watcherFd fd' v old)
  · intro fd'
    by_cases this : fd' = fd
    · simp [this]
    · simp only [Function.update_of_ne this]
      refine agrees.anfds_of_same fun v there => (left fd' v ?_).2.2
      rw [Function.update_of_ne this]
      exact there
  · intro v e member
    rw [List.mem_filter] at member
    have other : v ≠ w := by simpa using member.2
    obtain ⟨fd', there, active⟩ := agrees.pendings v e (queue _ member.1)
    have this : fd' ≠ fd := by
      rintro rfl
      exact other (Option.some.inj (there.symm.trans here))
    refine ⟨fd', (Function.update_of_ne this _ _).trans there, fun noError => ?_⟩
    exact (congrArg EvIo.active (Function.update_of_ne other _ _)).trans (active noError)

theorem step (agrees : s.Agrees) (step : Step s l t) : t.Agrees := by
  cases step with
  | reject stale takes => exact agrees.reject takes stale
  | register takes inside none => exact agrees.register takes inside none
  | feed source => exact agrees.feed source
  | kill here active => exact agrees.kill here
  | dismiss queue =>
      refine { agrees with pendings := fun v e member => agrees.pendings v e ?_ }
      rw [queue]
      exact List.mem_cons_of_mem _ member
  | hangUp queue here =>
      refine agrees.hangUp (fun p member => ?_) here _
      rw [queue]
      exact List.mem_cons_of_mem _ member

end State.Agrees

theorem agrees_of_run {tr : List (State Block × Label Block)} (init : (connections Block).init s)
    (run : Run (connections Block) s tr t) : t.Agrees := by
  obtain ⟨watchers, rfl⟩ := init
  exact run.preserves State.Agrees
    (fun _ _ agrees enabled => agrees.step (step_of_enabled agrees enabled)) (.initial watchers)

/-! ## Active watchers -/

/-- The step is libev killing an fd. -/
def Label.isKill {Block : Type} : Label Block → Bool
  | .kill _ => true
  | _ => false

/-- Every socket registered has an active watcher. -/
def State.Watched (s : State Block) : Prop :=
  ∀ fd w, s.libevList fd = some w → (s.watchers w).active = true

/-- The socket's watcher is not active, so that no event of the socket can be delivered. -/
def State.Orphan (s : State Block) (fd : Nat) : Prop :=
  ∃ w, s.libevList fd = some w ∧ (s.watchers w).active = false

/-- Every socket that is open is registered with an active watcher. -/
def State.NoOrphan (s : State Block) : Prop :=
  ∀ fd, s.isOpen fd = true → ∃ w, s.libevList fd = some w ∧ (s.watchers w).active = true

omit [DecidableEq Block] in
theorem State.Agrees.noOrphan_iff (agrees : s.Agrees) : s.NoOrphan ↔ s.Watched := by
  constructor
  · intro noOrphan fd w here
    obtain ⟨v, there, active⟩ := noOrphan fd ((agrees.opened fd).mpr (by simp [here]))
    rwa [Option.some.inj (here.symm.trans there)]
  · intro watched fd isOpen
    obtain ⟨w, here⟩ := Option.ne_none_iff_exists'.mp ((agrees.opened fd).mp isOpen)
    exact ⟨w, here, watched fd w here⟩

/-- Every step but the killing of an fd keeps the watchers active. -/
theorem State.Watched.step (watched : s.Watched) (agrees : s.Agrees) (step : Step s l t)
    (ordinary : l.isKill = false) : t.Watched := by
  intro fd v here
  cases step with
  | @reject _ w _ _ _ takes =>
      have other : v ≠ w := by
        rintro rfl
        exact takes.not_registered agrees fd here
      simpa [Function.update_of_ne other] using watched fd v here
  | @register _ w _ _ fd' takes =>
      by_cases same : v = w
      · simp [same]
      · have old : s.libevList fd = some v := by
          by_cases this : fd = fd'
          · simp [this, Ne.symm same] at here
          · simpa [Function.update_of_ne this] using here
        simpa [Function.update_of_ne same] using watched fd v old
  | feed | dismiss => exact watched fd v here
  | kill => cases ordinary
  | @hangUp _ w _ fd' _ queue there =>
      have this : fd ≠ fd' := by
        rintro rfl
        simp at here
      have old : s.libevList fd = some v := by simpa [Function.update_of_ne this] using here
      have other : v ≠ w := by
        rintro rfl
        exact this (agrees.unique old there)
      simpa [Function.update_of_ne other] using watched fd v old

/-- No step helps an orphan. -/
theorem State.Orphan.step (orphan : s.Orphan fd) (agrees : s.Agrees) (step : Step s l t) :
    t.Orphan fd := by
  obtain ⟨v, here, inactive⟩ := orphan
  cases step with
  | @reject _ w _ _ _ takes =>
      have other : v ≠ w := by
        rintro rfl
        exact takes.not_registered agrees fd here
      exact ⟨v, here, by simpa [Function.update_of_ne other] using inactive⟩
  | @register _ w _ _ fd' takes _ none =>
      have this : fd ≠ fd' := by
        rintro rfl
        simp [none] at here
      have other : v ≠ w := by
        rintro rfl
        exact takes.not_registered agrees fd here
      exact ⟨v, by simpa [Function.update_of_ne this] using here,
        by simpa [Function.update_of_ne other] using inactive⟩
  | feed | dismiss => exact ⟨v, here, inactive⟩
  | @kill _ w there active =>
      refine ⟨v, here, ?_⟩
      by_cases same : v = w
      · simp [same]
      · simpa [Function.update_of_ne same] using inactive
  | @hangUp _ w _ fd' _ queue there =>
      -- its read event would need an active watcher
      have other : v ≠ w := by
        rintro rfl
        obtain ⟨_, _, active⟩ := agrees.pendings v false (by simp [queue])
        simp [inactive] at active
      have this : fd ≠ fd' := by
        rintro rfl
        exact other (Option.some.inj (here.symm.trans there))
      exact ⟨v, by simpa [Function.update_of_ne this] using here,
        by simpa [Function.update_of_ne other] using inactive⟩

/-- An fd that is killed leaves an orphan. -/
theorem Step.orphans (step : Step s (.kill fd) t) : t.Orphan fd := by
  cases step with
  | kill here active => exact ⟨_, here, by simp⟩

/-- Table, sockets, watchers and free list, in full. -/
structure State.TableExact (s : State Block) : Prop where
  registered : ∀ fd < socketAllocMaxClient, s.libevList fd ≠ none ↔ s.isOpen fd = true
  watcher : ∀ fd < socketAllocMaxClient, ∀ w, s.libevList fd = some w →
    (s.watchers w).active = true ∧ (s.watchers w).fd = fd ∧ s.anfds fd = [w]
  distinct : ∀ fd < socketAllocMaxClient, ∀ fd' < socketAllocMaxClient, ∀ w,
    s.libevList fd = some w → s.libevList fd' = some w → fd = fd'
  notFree : ∀ fd < socketAllocMaxClient, ∀ w, s.libevList fd = some w → w ∉ s.evPool
  blocks : ∀ b ∈ s.obtained,
    (∃ fd < socketAllocMaxClient, s.libevList fd = some b) ∨ s.evPool.count b = 1

theorem State.Agrees.tableExact (agrees : s.Agrees) (watched : s.Watched) : s.TableExact where
  registered fd _ := (agrees.opened fd).symm
  watcher fd _ w here := by
    have active := watched fd w here
    have alone := agrees.anfds_open here
    rw [active, if_pos rfl] at alone
    exact ⟨active, agrees.watcherFd fd w here, alone⟩
  distinct fd _ fd' _ w here there := agrees.unique here there
  notFree fd _ w here free := ((agrees.pool w).mp free).2 fd here
  blocks b obtained := by
    by_cases free : b ∈ s.evPool
    · exact .inr (List.count_eq_one_of_mem agrees.nodup free)
    · have registered : ¬ ∀ fd, s.libevList fd ≠ some b := fun outside =>
        free ((agrees.pool b).mpr ⟨obtained, outside⟩)
      obtain ⟨fd, here⟩ := not_forall_not.mp registered
      exact .inl ⟨fd, agrees.range fd b here, here⟩

theorem watched_of_run {tr : List (State Block × Label Block)} (init : (connections Block).init s)
    (run : Run (connections Block) s tr t) (ordinary : ∀ p ∈ tr, p.2.isKill = false) :
    t.Watched := by
  have start : s.Agrees ∧ s.Watched := by
    refine ⟨agrees_of_run init .refl, ?_⟩
    obtain ⟨watchers, rfl⟩ := init
    intro fd w here
    cases here
  refine (run.preservesWhere (fun u => u.Agrees ∧ u.Watched)
    (fun _ l => l.isKill = false) ?_ ordinary start).2
  rintro u l ⟨agrees, watched⟩ ok enabled
  have step := step_of_enabled agrees enabled
  exact ⟨agrees.step step, watched.step agrees step ok⟩

theorem orphan_of_kill {tr : List (State Block × Label Block)} {u : State Block}
    (init : (connections Block).init s) (run : Run (connections Block) s tr t)
    (member : (u, .kill fd) ∈ tr) : t.Orphan fd := by
  obtain ⟨before, after, part, enabled, rest, -⟩ := run.cut member
  have agrees := agrees_of_run init part
  have step : Step u (.kill fd) _ := step_of_enabled agrees enabled
  refine (rest.preserves (fun v => v.Agrees ∧ v.Orphan fd) ?_
    ⟨agrees.step step, step.orphans⟩).2
  rintro v l ⟨agrees, orphan⟩ enabled
  have step := step_of_enabled agrees enabled
  exact ⟨agrees.step step, orphan.step agrees step⟩

end Connections

open Transition Connections

variable {Block : Type} [DecidableEq Block] {s t : Connections.State Block}
  {tr : List (Connections.State Block × Connections.Label Block)}

/-- The connection table is exact as long as libev kills no fd, so that it delivers events
    without EV_ERROR and to active watchers only. -/
theorem connections_tableExact (init : (connections Block).init s)
    (run : Run (connections Block) s tr t) (ordinary : ∀ p ∈ tr, p.2.isKill = false) :
    t.TableExact :=
  (agrees_of_run init run).tableExact (watched_of_run init run ordinary)

/-- No socket is orphaned, with callbacks pending or not, exactly as long as libev kills no
    fd. -/
theorem connections_noOrphan_iff (init : (connections Block).init s)
    (run : Run (connections Block) s tr t) :
    t.NoOrphan ↔ ∀ p ∈ tr, p.2.isKill = false := by
  rw [(agrees_of_run init run).noOrphan_iff]
  constructor
  · rintro watched ⟨u, l⟩ member
    cases l with
    | kill fd =>
        obtain ⟨w, here, inactive⟩ := orphan_of_kill init run member
        simp [watched fd w here] at inactive
    | accept | ready | invoke => rfl
  · exact watched_of_run init run

/-- A call of `accept_func_cb` that gets block `b` and socket `fd`. -/
def Connections.accepts (b fd : Nat) : Connections.Label Nat :=
  .accept { malloc := some b, stale := ⟨true, 0⟩, evError := false, socket := some fd }

/-- A connection is accepted, sends a message and closes, and the next takes its block. -/
def Connections.twoConnections : List (Connections.Label Nat) :=
  [accepts 0 5, .ready 5, .invoke .received, .ready 5, .invoke .closed, accepts 1 7]

theorem connections_tableExact_twoConnections :
    (exec (connections Nat) (.initial fun _ => ⟨false, 0⟩) twoConnections).TableExact :=
  connections_tableExact ⟨_, rfl⟩ (.ofSchedule _ (by decide +kernel)) (by decide +kernel)

theorem connections_noOrphan_iff_twoConnections :
    (exec (connections Nat) (.initial fun _ => ⟨false, 0⟩) twoConnections).NoOrphan ↔
      ∀ p ∈ trace (connections Nat) (.initial fun _ => ⟨false, 0⟩) twoConnections,
        p.2.isKill = false :=
  connections_noOrphan_iff ⟨_, rfl⟩ (.ofSchedule _ (by decide +kernel))

/-- A connection is accepted, libev kills its fd and delivers the error. -/
def Connections.killed : List (Connections.Label Nat) :=
  [accepts 0 5, .kill 5, .invoke .received]

theorem connections_orphan : ¬ ∀ (s t : Connections.State Nat) tr, (connections Nat).init s →
    Run (connections Nat) s tr t → t.pendings = [] → t.NoOrphan := by
  intro always
  have run : Run (connections Nat) (.initial fun _ => ⟨false, 0⟩) _ _ :=
    .ofSchedule killed (by decide +kernel)
  obtain ⟨w, here, active⟩ :=
    always _ _ _ ⟨_, rfl⟩ run (by decide +kernel) 5 (by decide +kernel)
  have first : w = 0 := Option.some.inj (here.symm.trans (by decide +kernel))
  subst first
  revert active
  decide +kernel

end ObdServer
