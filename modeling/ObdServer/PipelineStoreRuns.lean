import ObdServer.PipelineStoreSteps

/-! # Runs of the pipeline store by store

The single stores show in nothing that the pipeline does: its runs are those of `Pipeline`,
with the list as it is there whenever no stores are outstanding, and no thread is held up by
them for ever.
-/

namespace ObdServer

open Transition CircularList Pipeline

variable {Block : Type} [DecidableEq Block] {x y : StoreState Block}
  {tr : List (StoreState Block × StoreLabel Block)}

/-- The steps of the pipeline among those of the stores. -/
def Pipeline.StoreLabel.steps : StoreLabel Block → List (Pipeline.Label Block)
  | .step l => [l]
  | .lock _ | .store _ => []

theorem Pipeline.sound_of_run (init : (storePipeline Block).init x)
    (run : Run (storePipeline Block) x tr y) : Sound y := by
  obtain ⟨start, ⟨heap, mq⟩, free, idle⟩ := init
  exact run.preserves Sound (fun _ _ sound may => sound.step may)
    (sound_initial start mq free idle)

/-- Taking the mutex and storing leave the state of the pipeline alone. -/
theorem Pipeline.nextStore_state (x : StoreState Block) (l : StoreLabel Block)
    (silent : l.steps = []) : (nextStore x l).state = x.state := by
  cases l with
  | step l => cases silent
  | lock t => rfl
  | store t =>
      simp only [nextStore]
      split <;> rfl

/-- In single stores the server does what it does with whole queue functions, step by step,
    and whoever takes the mutex finds the list it finds there. -/
theorem storePipeline_refines (init : (storePipeline Block).init x)
    (run : Run (storePipeline Block) x tr y) :
    (∃ tr', Run (pipeline Block) x.state tr' y.state ∧
      tr'.map Prod.snd = tr.flatMap fun p => p.2.steps) ∧
    ((∀ t, y.mqMutex ≠ .held t) → Holds y.mq y.state.obdMq) := by
  have sound := sound_of_run init .refl
  have answered := run.answered (N := pipeline Block) Sound StoreState.state
    (fun _ l => l.steps) (fun u l sound may => ⟨?_, sound.step may⟩) sound
  · refine ⟨answered.1, fun notHeld => ?_⟩
    have links := answered.2.links
    simp only [StoreState.settled] at links
    split at links
    · exact absurd ‹_› (notHeld _)
    · exact links
    · exact links
  · cases l with
    | step l =>
        have state : ((storePipeline Block).next u (.step l)).state = next u.state l :=
          beginStep_state sound may
        rw [state]
        exact ⟨_, Run.single (M := pipeline Block) (sound.enabled may), rfl⟩
    | lock t => exact ⟨[], .refl, rfl⟩
    | store t =>
        have state : ((storePipeline Block).next u (.store t)).state = u.state :=
          nextStore_state u (.store t) rfl
        rw [state]
        exact ⟨[], .refl, rfl⟩

/-- `main` has called `mq_init`, with all nodes linked to themselves. -/
def Pipeline.storeInitial : StoreState Nat where
  state := mainInitial
  mq := mqInit (fun p => ⟨p, p⟩) .head
  mqMutex := .free
  code _ := []

/-- The drain thread tests `mq_flag` while a message is put, and then gets it. -/
def Pipeline.storedMessage : List (StoreLabel Nat) :=
  [.step (.readFuncCb 0), .store .main, .store .main, .step (.recv (.data ['A'.toUInt8])),
    .store .main, .store .main, .lock .main, .step .put, .store .main, .store .main,
    .step .evalFlag] ++ List.replicate 4 (.store .main) ++ [.lock .drain, .step .get] ++
    List.replicate 6 (.store .drain) ++ [.step .add]

theorem Pipeline.storeInitial_init : (storePipeline Nat).init storeInitial :=
  ⟨⟨_, _, _, _, rfl⟩, ⟨_, rfl⟩, rfl, fun _ => rfl⟩

theorem Pipeline.storedMessage_run : Run (storePipeline Nat) storeInitial
    (trace (storePipeline Nat) storeInitial storedMessage)
    (exec (storePipeline Nat) storeInitial storedMessage) :=
  .ofSchedule _ (by decide +kernel)

theorem storePipeline_refines_storedMessage :
    (∃ tr', Run (pipeline Nat) mainInitial tr'
        (exec (storePipeline Nat) storeInitial storedMessage).state ∧
      tr'.map Prod.snd = (trace (storePipeline Nat) storeInitial storedMessage).flatMap
        fun p => p.2.steps) ∧
    ((∀ t, (exec (storePipeline Nat) storeInitial storedMessage).mqMutex ≠ .held t) →
      Holds (exec (storePipeline Nat) storeInitial storedMessage).mq
        (exec (storePipeline Nat) storeInitial storedMessage).state.obdMq) :=
  storePipeline_refines storeInitial_init storedMessage_run

/-! ## How long the stores take -/

namespace Pipeline

variable {s s' : State Block} {l : Label Block} {t : Thread}

def threads (s : State Block) : List Thread :=
  .main :: .drain :: (List.range s.workers.length).map .worker

omit [DecidableEq Block] in
theorem threads_nodup (s : State Block) : (threads s).Nodup := by
  have workers : ((List.range s.workers.length).map Thread.worker).Nodup :=
    List.nodup_range.map fun _ _ same => Thread.worker.inj same
  simp [threads, workers]

theorem step_threads (step : Step s l s') : threads s' = threads s := by
  cases step <;> simp [threads]

omit [DecidableEq Block] in
theorem thread_mem (enabled : enabled s l) (turn : l.thread = some t) : t ∈ threads s := by
  have worker : ∀ {i : Nat} {pc : WorkerPc Block}, s.workers[i]? = some pc →
      Thread.worker i ∈ threads s := by
    intro i pc found
    simp [threads, (List.getElem?_eq_some_iff.mp found).1]
  cases l with
  | sigint => cases turn
  | grab i | workerExit i =>
      obtain rfl := Option.some.inj turn
      exact worker enabled.1
  | decode i fuel =>
      obtain rfl := Option.some.inj turn
      obtain ⟨o, -, decoding, -⟩ := enabled
      exact worker decoding
  | workerRelease i =>
      obtain rfl := Option.some.inj turn
      obtain ⟨o, -, releasing⟩ := enabled
      exact worker releasing
  | _ =>
      obtain rfl := Option.some.inj turn
      simp [threads]

/-- A step leaves at most six stores to its thread. -/
theorem beginStep_code (x : StoreState Block) (l : Label Block) :
    (beginStep x l).code = x.code ∨
      ∃ t code, l.thread = some t ∧ code.length ≤ 6 ∧
        (beginStep x l).code = Function.update x.code t code := by
  cases l with
  | readFuncCb fresh => exact .inr ⟨.main, initStores _, rfl, by simp [initStores], rfl⟩
  | recv event =>
      simp only [beginStep]
      split
      · exact .inr ⟨.main, initStores _, rfl, by simp [initStores], rfl⟩
      · exact .inl rfl
  | put =>
      simp only [beginStep]
      split
      · exact .inr ⟨.main, putStores _, rfl, by simp [putStores], rfl⟩
      · exact .inl rfl
  | get =>
      simp only [beginStep]
      split
      · exact .inr ⟨.drain, [.unlock], rfl, by simp, rfl⟩
      · split
        · exact .inr ⟨.drain, getStores _, rfl, by simp [getStores], rfl⟩
        · exact .inl rfl
  | decode i fuel =>
      simp only [beginStep]
      split
      · exact .inr ⟨.worker i, initStores _, rfl, by simp [initStores], rfl⟩
      · exact .inl rfl
  | _ => exact .inl rfl

/-- Before the mutex is taken, that is a step still to come. -/
def MqMutex.toll : MqMutex → Nat
  | .taken _ => 0
  | .free | .held _ => 1

/-- The stores that the threads have not executed yet. -/
def StoreState.outstanding (x : StoreState Block) : Nat :=
  Ledger.weight (fun t => (x.code t).length) (threads x.state) + x.mqMutex.toll

/-- Only the server's threads have stores to execute. -/
def Manned (x : StoreState Block) : Prop :=
  ∀ t, x.code t ≠ [] → t ∈ threads x.state

omit [DecidableEq Block] in
theorem outstanding_begin (y : StoreState Block) {code : Thread → List (Store (ListPtr Block))}
    {stores : List (Store (ListPtr Block))} (member : t ∈ threads y.state)
    (begins : y.code = Function.update code t stores) :
    Ledger.weight (fun t => (y.code t).length) (threads y.state) + (code t).length =
      Ledger.weight (fun t => (code t).length) (threads y.state) + stores.length := by
  have lengths : (fun t => (y.code t).length) =
      Function.update (fun t => (code t).length) t stores.length := by
    funext t'
    by_cases same : t' = t
    · subst same
      simp [begins]
    · simp [begins, same]
  rw [lengths]
  exact Ledger.weight_update (w := fun t => (code t).length) (threads_nodup _) member _

theorem Manned.step {l : StoreLabel Block} (sound : Sound x) (manned : Manned x)
    (may : storeEnabled x l) : Manned (nextStore x l) := by
  intro t more
  cases l with
  | lock t' => exact manned t more
  | store t' =>
      obtain ⟨a, rest, code⟩ := List.exists_cons_of_ne_nil may
      have state := nextStore_state x (.store t') rfl
      rw [state]
      by_cases same : t = t'
      · subst same
        exact manned t may
      · exact manned t (by simpa [nextStore, code, StoreState.begin, same] using more)
  | step l =>
      have enabled := sound.enabled may
      have state : (nextStore x (.step l)).state = next x.state l := beginStep_state sound may
      rw [state, step_threads (step_of_enabled enabled)]
      rcases beginStep_code x l with same | ⟨t', stores, turn, -, begins⟩
      · exact manned t (by simpa [nextStore, same] using more)
      · by_cases same : t = t'
        · subst same
          exact thread_mem enabled turn
        · exact manned t (by simpa [nextStore, begins, same] using more)

theorem manned_of_run (init : (storePipeline Block).init x)
    (run : Run (storePipeline Block) x tr y) : Manned y := by
  have sound := sound_of_run init .refl
  have manned : Manned x := fun t more => absurd (init.2.2.2 t) more
  have kept := run.preserves (fun u => Sound u ∧ Manned u)
    (fun _ _ both may => ⟨both.1.step may, both.2.step both.1 may⟩) ⟨sound, manned⟩
  exact kept.2

/-- Executing a store and taking the mutex bring the end of the stores nearer; a step of the
    pipeline puts it off by at most seven. -/
theorem outstanding_step {l : StoreLabel Block} (sound : Sound x) (manned : Manned x)
    (may : storeEnabled x l) :
    (nextStore x l).outstanding < x.outstanding + 8 * l.steps.length := by
  cases l with
  | lock t =>
      obtain ⟨-, -, free⟩ := may
      simp [StoreState.outstanding, nextStore, free, MqMutex.toll, StoreLabel.steps]
  | store t =>
      obtain ⟨a, rest, code⟩ := List.exists_cons_of_ne_nil may
      have state := nextStore_state x (.store t) rfl
      have begins : (nextStore x (.store t)).code = Function.update x.code t rest := by
        simp only [nextStore, code, StoreState.begin]
      have member := manned t may
      have fewer := outstanding_begin (nextStore x (.store t)) (state ▸ member) begins
      have toll : (nextStore x (.store t)).mqMutex.toll ≤ x.mqMutex.toll := by
        by_cases unlocks : a = .unlock
        · have mine : x.mqMutex = .held t := by
            by_contra notMine
            obtain ⟨obd, -, init⟩ := sound.outside t notMine a (by simp [code])
            simp [unlocks, initStores] at init
          simp [nextStore, code, unlocks, StoreState.begin, mine, MqMutex.toll]
        · simp [nextStore, code, unlocks, StoreState.begin]
      rw [code, List.length_cons, state] at fewer
      simp only [StoreState.outstanding, state, StoreLabel.steps, List.length_nil]
      omega
  | step l =>
      have enabled := sound.enabled may
      have state : (beginStep x l).state = next x.state l := beginStep_state sound may
      have crew : threads (beginStep x l).state = threads x.state := by
        rw [state, step_threads (step_of_enabled enabled)]
      have toll : ∀ mutex : MqMutex, mutex.toll ≤ 1 := by
        rintro (_ | _ | _) <;> simp [MqMutex.toll]
      have after := toll (beginStep x l).mqMutex
      simp only [StoreState.outstanding, nextStore, StoreLabel.steps, List.length_singleton]
      rcases beginStep_code x l with same | ⟨t, stores, turn, few, begins⟩
      · rw [crew, same]
        omega
      · have member : t ∈ threads (beginStep x l).state := by
          rw [crew]
          exact thread_mem enabled turn
        have more := outstanding_begin (beginStep x l) member begins
        rw [may.1 t turn, List.length_nil, crew] at more
        rw [crew]
        omega

/-! ## Nothing is held up -/

omit [DecidableEq Block] in
theorem enabled_notHeld (enabled : enabled s l) :
    Pipeline.enabled { s with mqHeld := false } l := by
  cases l with
  | put | isEmpty | get => exact ⟨enabled.1, rfl⟩
  | _ => exact enabled

omit [DecidableEq Block] in
/-- A thread behind `pthread_mutex_lock` can go on with the body. -/
theorem AtLock.body (atLock : AtLock s t) : ∃ l : Label Block, l.body = true ∧
    l.thread = some t ∧ Pipeline.enabled { s with mqHeld := false } l := by
  cases t with
  | main => exact ⟨.put, rfl, rfl, atLock, rfl⟩
  | drain =>
      rcases atLock with testing | before
      · exact ⟨.isEmpty, rfl, rfl, testing, rfl⟩
      · exact ⟨.get, rfl, rfl, before, rfl⟩
  | worker i => exact atLock.elim

omit [DecidableEq Block] in
theorem atLock_of_body (enabled : enabled s l) (body : l.body = true) :
    s.mqHeld = false ∧ ∃ t, l.thread = some t ∧ AtLock s t := by
  cases l with
  | put => exact ⟨enabled.2, .main, rfl, enabled.1⟩
  | isEmpty => exact ⟨enabled.2, .drain, rfl, .inl enabled.1⟩
  | get => exact ⟨enabled.2, .drain, rfl, .inr enabled.1⟩
  | _ => cases body

/-- Where no store, no lock and no step is possible, the pipeline has no step either. -/
theorem Sound.halted (sound : Sound x) (halted : ∀ l, ¬ storeEnabled x l) (l : Label Block) :
    ¬ Pipeline.enabled x.state l := by
  intro enabled
  have idle : ∀ t, x.code t = [] := fun t => not_not.mp (halted (.store t))
  have notTaken : ∀ t, x.mqMutex ≠ .taken t := by
    intro t taken
    obtain ⟨l', -, turn, goesOn⟩ := (sound.taken t taken).body
    exact halted (.step l') ⟨fun t' _ => idle t', goesOn, fun _ => ⟨t, turn, taken⟩⟩
  cases body : l.body with
  | false =>
      refine halted (.step l) ⟨fun t _ => idle t, enabled_notHeld enabled, fun needs => ?_⟩
      cases body.symm.trans needs
  | true =>
      obtain ⟨notHeld, t, -, atLock⟩ := atLock_of_body enabled body
      cases mutex : x.mqMutex with
      | free => exact halted (.lock t) ⟨atLock, idle t, mutex⟩
      | taken t' => exact notTaken t' mutex
      | held t' =>
          have kept := (sound.busy mutex (idle t')).2
          cases notHeld.symm.trans kept

end Pipeline

/-- The stores hold nothing up: a run has at most eight steps for each step of the pipeline and
    one more, and where it can go no further the pipeline cannot either. -/
theorem storePipeline_rests (init : (storePipeline Block).init x)
    (run : Run (storePipeline Block) x tr y) :
    tr.length ≤ 8 * tr.countP (fun p => p.2.steps ≠ []) + 1 ∧
      ((∀ l, ¬ storeEnabled y l) → ∀ l, ¬ enabled y.state l) := by
  have sound := sound_of_run init .refl
  have manned := manned_of_run init .refl
  refine ⟨?_, (sound_of_run init run).halted⟩
  obtain ⟨-, -, free, idle⟩ := init
  have bound := (run.length_le (fun u => Sound u ∧ Manned u) StoreState.outstanding
    (fun l => l.steps ≠ []) 8 ?_ ⟨sound, manned⟩).1
  · have none : Ledger.weight (fun t => (x.code t).length) (threads x.state) ≤
        0 * (threads x.state).length := Ledger.weight_le (fun t => by simp [idle t]) _
    simp only [StoreState.outstanding, free, MqMutex.toll] at bound
    omega
  · rintro u l ⟨sound, manned⟩ may
    refine ⟨?_, sound.step may, manned.step sound may⟩
    have price : l.steps.length = (decide (l.steps ≠ [])).toNat := by
      cases l <;> rfl
    rw [← price]
    exact outstanding_step sound manned may

/-- The message is decoded, its block given back, and the server goes down. -/
def Pipeline.storedShutdown : List (StoreLabel Nat) :=
  storedMessage ++ [.step (.grab 0), .step .sigint, .step (.decode 0 0), .store (.worker 0),
    .step .leaveLoop, .store (.worker 0), .step .evalFlag, .lock .drain, .step .isEmpty,
    .step (.workerRelease 0), .step .joinDrain, .step .destroyThreadPool] ++
    (List.range 8).map (fun i => .step (.workerExit i)) ++
    [.step .joinWorkers, .step .destroyObdPool]

theorem Pipeline.storedShutdown_run : Run (storePipeline Nat) storeInitial
    (trace (storePipeline Nat) storeInitial storedShutdown)
    (exec (storePipeline Nat) storeInitial storedShutdown) :=
  .ofSchedule _ (by decide +kernel)

/-- The server has returned, and the drain thread has the mutex for good. -/
theorem Pipeline.storedShutdown_halted (l : StoreLabel Nat) :
    ¬ storeEnabled (exec (storePipeline Nat) storeInitial storedShutdown) l := by
  have manned := manned_of_run storeInitial_init storedShutdown_run
  intro may
  cases l with
  | step l =>
      exact halted_of_exited (by decide +kernel) (by decide +kernel) (by decide +kernel)
        (by decide +kernel) l may.2.1
  | lock t =>
      have mutex : (exec (storePipeline Nat) storeInitial storedShutdown).mqMutex =
          .held .drain := by decide +kernel
      cases mutex.symm.trans may.2.2
  | store t =>
      have idle : ∀ t ∈ threads (exec (storePipeline Nat) storeInitial storedShutdown).state,
          (exec (storePipeline Nat) storeInitial storedShutdown).code t = [] := by
        decide +kernel
      exact may (idle t (manned t may))

theorem storePipeline_rests_storedShutdown :
    (trace (storePipeline Nat) storeInitial storedShutdown).length ≤
        8 * (trace (storePipeline Nat) storeInitial storedShutdown).countP
          (fun p => p.2.steps ≠ []) + 1 ∧
      ∀ l, ¬ enabled (exec (storePipeline Nat) storeInitial storedShutdown).state l :=
  have rests := storePipeline_rests storeInitial_init storedShutdown_run
  ⟨rests.1, rests.2 storedShutdown_halted⟩

end ObdServer
