import ObdServer.PipelineMessages
import ObdServer.Reception

/-! # Receiving, in the pipeline

No thread touches the block of the callback between its initialisation and the `recv`, so
what is stored is what `Reception` says of a fresh block.
-/

namespace ObdServer

namespace Pipeline

open Transition

variable {Block : Type} [DecidableEq Block] {s t : State Block} {l : Label Block} {obd : Block}
  {old : Obd} {bytes : List UInt8}

/-- The block the callback receives into is as `OBD_init` has left it. -/
def State.Initialised (s : State Block) : Prop :=
  ∀ obd, s.main = .initialised obd → ∃ old : Obd, s.mem obd = old.init

/-- A block of the callback is not one that a worker has. -/
theorem State.Owned.ne_of_worker (owned : s.Owned) (waiting : s.main = .initialised obd)
    {i : Nat} {pc : WorkerPc Block} (found : s.workers[i]? = some pc) {o : Block}
    (holds : pc.holds = [o]) : obd ≠ o := by
  rintro rfl
  apply owned.worker_alone (p := .callback) found holds (by simp)
  simp [State.blocksAt, waiting, MainPc.holds]

theorem State.Initialised.step (initialised : s.Initialised) (owned : s.Owned)
    (enabled : enabled s l) : (next s l).Initialised := by
  intro obd waiting
  cases l with
  | readFuncCb fresh =>
      simp only [next, State.initBlock] at waiting ⊢
      obtain rfl := MainPc.initialised.inj waiting
      exact ⟨_, Function.update_self _ _ _⟩
  | recv event =>
      obtain ⟨⟨b, -, before⟩, -⟩ := enabled
      simp only [next, before] at waiting
      cases event with
      | evError | recvError | closed => cases waiting
      | data bytes =>
          simp only [State.afterRecv] at waiting
          split at waiting <;> cases waiting
  | release =>
      obtain ⟨b, -, before⟩ := enabled
      simp only [next, before, State.releaseBlock] at waiting
      cases waiting
  | put =>
      obtain ⟨⟨b, -, before⟩, -⟩ := enabled
      simp only [next, before] at waiting
      cases waiting
  | leaveLoop | joinDrain | destroyThreadPool | joinWorkers | destroyObdPool => cases waiting
  | sigint | evalFlag | isEmpty => exact initialised obd waiting
  | get =>
      cases queue : s.obdMq with
      | nil =>
          simp only [next, queue] at waiting ⊢
          exact initialised obd waiting
      | cons o rest =>
          simp only [next, queue] at waiting ⊢
          exact initialised obd waiting
  | add =>
      obtain ⟨o, -, adding⟩ := enabled
      simp only [next, adding, State.addTask] at waiting ⊢
      exact initialised obd waiting
  | grab i => exact initialised obd waiting
  | decode i fuel =>
      obtain ⟨o, -, decoding, -⟩ := enabled
      simp only [next, decoding, State.setWorker] at waiting ⊢
      rw [Function.update_of_ne (owned.ne_of_worker waiting decoding rfl)]
      exact initialised obd waiting
  | workerRelease i =>
      obtain ⟨o, -, releasing⟩ := enabled
      simp only [next, releasing, State.releaseBlock, State.setWorker] at waiting ⊢
      rw [Function.update_of_ne (owned.ne_of_worker waiting releasing rfl)]
      exact initialised obd waiting
  | workerExit i => exact initialised obd waiting

theorem initialised_of_run {tr : List (State Block × Label Block)}
    (init : (pipeline Block).init s) (run : Run (pipeline Block) s tr t) : t.Initialised := by
  have start : s.Owned ∧ s.Initialised := by
    obtain ⟨mem, queue, queueSize, threadCount, rfl⟩ := init
    refine ⟨.initial mem queue queueSize threadCount, ?_⟩
    intro obd waiting
    cases waiting
  refine (run.preserves (fun u => u.Owned ∧ u.Initialised) ?_ start).2
  rintro u l ⟨owned, initialised⟩ enabled
  exact ⟨owned.step (step_of_enabled enabled), initialised.step owned enabled⟩

/-! ## What a message received leaves -/

theorem next_recv_released (waiting : s.main = .initialised obd) (fresh : s.mem obd = old.init)
    (empty : (received old bytes).dataLength = 0) :
    next s (.recv (.data bytes)) =
      { s with
        mem := Function.update s.mem obd (old.init.store bytes)
        main := .releasing obd } := by
  have length : (old.init.store bytes).dataLength = 0 := empty
  simp only [next, waiting, State.afterRecv, fresh, if_pos length]

theorem next_recv_acknowledged (waiting : s.main = .initialised obd)
    (fresh : s.mem obd = old.init) (queued : (received old bytes).dataLength ≠ 0) :
    next s (.recv (.data bytes)) =
      { s with
        mem := Function.update s.mem obd (received old bytes)
        main := .acknowledged obd
        history.acked := s.history.acked + 1
        history.message := Function.update s.history.message obd s.history.acked } := by
  have length : ¬ (old.init.store bytes).dataLength = 0 := queued
  simp only [next, waiting, State.afterRecv, fresh, if_neg length, received]

/-- What is asked of the callback that receives the bytes in state `s`: it stores inside
    `data`, it notes the length of the text, and it answers OK and puts the message unless
    the text is empty. -/
structure State.Records (s : State Block) (obd : Block) (bytes : List UInt8) : Prop where
  stores : ∀ p ∈ dataStores bytes, p.1 < bufSize
  length : ((next s (.recv (.data bytes))).mem obd).dataLength.toNat =
    (messageText bytes).length
  acknowledged : (next s (.recv (.data bytes))).history.acked = s.history.acked + 1 ↔
    bytes.head? ≠ some 0
  put : (next (next s (.recv (.data bytes))) .put).obdMq = s.obdMq ++ [obd] ↔
    bytes.head? ≠ some 0

/-- The stores spoken of are those the callback makes: they turn the block as it was into the
    one whose length and command it then takes. -/
theorem recv_stores (waiting : s.main = .initialised obd) (small : bytes.length ≤ bufSize) :
    ∃ length id, (next s (.recv (.data bytes))).mem obd =
      { (dataStores bytes).foldl (fun o p => o.setByte p.1 p.2) (s.mem obd) with
        dataLength := length
        id := id } := by
  rw [← recv_setByte _ small]
  simp only [next, waiting, State.afterRecv]
  split_ifs <;> simp only [Function.update_self, Obd.store] <;> exact ⟨_, _, rfl⟩

theorem records_of_room (waiting : s.main = .initialised obd) (fresh : s.mem obd = old.init)
    (nonempty : bytes ≠ []) (room : bytes.length < bufSize) : s.Records obd bytes := by
  have small : bytes.length ≤ bufSize := Nat.le_of_lt room
  have textRoom : (messageText bytes).length < bufSize :=
    Nat.lt_of_le_of_lt (messageText_length_le bytes) room
  have length := received_toNat old small textRoom
  have first : 0 < (messageText bytes).length ↔ bytes.head? ≠ some 0 := by
    rw [List.length_pos_iff, ne_eq, messageText_eq_nil_iff]
    cases bytes with
    | nil => exact absurd rfl nonempty
    | cons c bytes => simp
  have queued := (received_queued_iff old small).trans (and_iff_left textRoom)
  by_cases empty : (received old bytes).dataLength = 0
  · have noText := mt queued.mpr (not_not.mpr empty)
    have step := next_recv_released waiting fresh empty
    refine ⟨dataStores_inside_iff.mpr room, ?_, ?_, ?_⟩
    · simp only [step, Function.update_self]
      exact length
    · rw [step, ← first]
      simp [noText]
    · rw [step, ← first]
      simp [next, noText]
  · have text := queued.mp empty
    have step := next_recv_acknowledged waiting fresh empty
    refine ⟨dataStores_inside_iff.mpr room, ?_, ?_, ?_⟩
    · simp only [step, Function.update_self]
      exact length
    · rw [step, ← first]
      simp [text]
    · rw [step, ← first]
      simp [next, text]

end Pipeline

open Transition Pipeline

variable {Block : Type} [DecidableEq Block] {s t : Pipeline.State Block} {obd : Block}
  {tr : List (Pipeline.State Block × Pipeline.Label Block)} {bytes : List UInt8}

/-- Receiving some bytes does what is asked of it exactly when they do not fill the
    buffer. -/
theorem pipeline_records_iff (init : (pipeline Block).init s) (run : Run (pipeline Block) s tr t)
    (waiting : t.main = .initialised obd) (nonempty : 0 < bytes.length) :
    t.Records obd bytes ↔ bytes.length < bufSize := by
  obtain ⟨old, fresh⟩ := initialised_of_run init run obd waiting
  constructor
  · intro records
    exact dataStores_inside_iff.mp records.stores
  · exact records_of_room waiting fresh (List.ne_nil_of_length_pos nonempty)

/-- A long message with a NUL inside. -/
def textWithNul : List UInt8 :=
  List.replicate 120 'A'.toUInt8 ++ 0 :: List.replicate 80 'B'.toUInt8

theorem pipeline_records_iff_textWithNul :
    (exec (pipeline Nat) mainInitial [.readFuncCb 0]).Records 0 textWithNul ↔
      textWithNul.length < bufSize :=
  pipeline_records_iff ⟨_, _, _, _, rfl⟩ (.ofSchedule _ (by decide +kernel)) rfl
    (List.length_pos_iff.mpr (List.append_ne_nil_of_right_ne_nil _ (List.cons_ne_nil _ _)))

/-- A message that fills the buffer. -/
def fullBuffer : List UInt8 := List.replicate bufSize 'A'.toUInt8

theorem pipeline_not_records : ¬ ∀ (s t : Pipeline.State Nat) tr obd bytes,
    (pipeline Nat).init s → Run (pipeline Nat) s tr t → t.main = .initialised obd →
    0 < bytes.length → bytes.length ≤ bufSize → t.Records obd bytes := by
  intro always
  have run : Run (pipeline Nat) mainInitial _ _ :=
    .ofSchedule [.readFuncCb 0] (by decide +kernel)
  have length : fullBuffer.length = bufSize := List.length_replicate
  have records := always _ _ _ 0 fullBuffer ⟨_, _, _, _, rfl⟩ run rfl (by rw [length]; decide)
    (Nat.le_of_eq length)
  have room := dataStores_inside_iff.mp records.stores
  rw [length] at room
  exact Nat.lt_irrefl _ room

end ObdServer
