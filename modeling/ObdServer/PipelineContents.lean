import Mathlib.Data.List.Perm.Basic
import ObdServer.PipelineReception
import ObdServer.Session

/-! # What a message is when it is decoded

A block on its way from the callback to a worker holds what receiving its message has left in
it, whatever the other threads do meanwhile. So each message is decoded as if it were alone.
-/

namespace ObdServer

namespace Pipeline

open Transition

variable {Block : Type} [DecidableEq Block] {s t : State Block} {l : Label Block} {b : Block}
  {tr : List (State Block × Label Block)}

/-- What a step acknowledges. -/
def acknowledgedBy (s : State Block) (l : Label Block) : List (List UInt8) :=
  match l with
  | .recv (.data bytes) =>
      if (next s l).history.acked = s.history.acked then [] else [bytes]
  | _ => []

/-- The messages acknowledged in a run; the place of a message is its number. -/
def acknowledgedBytes (tr : List (State Block × Label Block)) : List (List UInt8) :=
  tr.flatMap fun p => acknowledgedBy p.1 p.2

/-- The blocks whose bytes a step may change. -/
def writtenBy (s : State Block) : Label Block → List Block
  | .readFuncCb fresh => [(malloc s.objPool fresh).1]
  | .recv _ | .release => s.main.holds
  | .decode i _ | .workerRelease i => s.workerHolds i
  | _ => []

structure State.Intact (s : State Block) (messages : List (List UInt8)) : Prop where
  numbered : messages.length = s.history.acked
  contents : ∀ b ∈ s.carriers, ∃ bytes, messages[s.history.message b]? = some bytes ∧
    bytes.length ≤ bufSize ∧ s.mem b = received zeroBlock bytes ∧ (s.mem b).dataLength ≠ 0

/-! ## Which blocks carry a message -/

omit [DecidableEq Block] in
theorem State.mem_carriers : b ∈ s.carriers ↔
    s.main = .acknowledged b ∨ b ∈ s.obdMq ∨ s.drain = .adding b ∨ b ∈ s.threadPool.tasks ∨
      ∃ i : Nat, s.workers[i]? = some (.decoding b) := by
  simp only [State.carriers, List.mem_append, MainPc.mem_unput, DrainPc.mem_holds,
    Ledger.mem_flatMap_iff, WorkerPc.mem_undecoded, or_assoc, exists_eq_right]

/-- A block is at one place only, and there it carries a message. -/
theorem State.Owned.carrier_place (owned : s.Owned) (carrier : b ∈ s.carriers) {p : Place}
    (here : b ∈ s.blocksAt p) :
    p = .callback ∧ s.main = .acknowledged b ∨ p = .obdMq ∨ p = .drain ∨ p = .taskQueue ∨
      ∃ i, p = .worker i ∧ s.workers[i]? = some (.decoding b) := by
  have same : ∀ q, b ∈ s.blocksAt q → p = q := fun q there => by
    by_contra other
    exact owned.apart other here there
  rcases State.mem_carriers.mp carrier with main | mq | drain | tasks | ⟨i, worker⟩
  · exact .inl ⟨same .callback (by simp [State.blocksAt, main, MainPc.holds]), main⟩
  · exact .inr (.inl (same .obdMq mq))
  · exact .inr (.inr (.inl (same .drain (by simp [State.blocksAt, drain, DrainPc.holds]))))
  · exact .inr (.inr (.inr (.inl (same .taskQueue tasks))))
  · refine .inr (.inr (.inr (.inr ⟨i, same (.worker i) ?_, worker⟩)))
    simp [State.blocksAt, State.workerHolds, worker, WorkerPc.holds]

theorem State.Owned.free_not_carrier (owned : s.Owned) (free : b ∈ s.objPool) :
    b ∉ s.carriers := by
  intro carrier
  have place := owned.carrier_place carrier (p := .objPool) free
  simp at place

/-- A step brings no message to a block but the one it acknowledges. -/
theorem carriers_step (owned : s.Owned) (step : Step s l t) (carrier : b ∈ t.carriers) :
    b ∈ s.carriers ∧ t.history.message b = s.history.message b ∨
      (∃ event, l = .recv event) ∧ s.main = .initialised b ∧ t.main = .acknowledged b ∧
        t.history.message b = s.history.acked := by
  cases step with
  | @acknowledge event obd mem pc =>
      by_cases new : b = obd
      · subst new
        exact .inr ⟨⟨event, rfl⟩, pc, rfl, Function.update_self _ _ _⟩
      · refine .inl ⟨?_, Function.update_of_ne new _ _⟩
        rw [State.mem_carriers] at carrier ⊢
        rcases carrier with main | others
        · exact absurd (MainPc.acknowledged.inj main).symm new
        · exact .inr others
  | destroyThreadPool pc =>
      refine .inl ⟨?_, rfl⟩
      rw [State.mem_carriers] at carrier ⊢
      simpa [Threadpool.destroy_tasks, pc] using carrier
  | @put obd pc =>
      refine .inl ⟨?_, rfl⟩
      rw [State.mem_carriers] at carrier ⊢
      simp only [pc, List.mem_append, List.mem_singleton] at carrier ⊢
      rcases carrier with main | (mq | rfl) | others
      · cases main
      · exact .inr (.inl mq)
      · exact .inl rfl
      · exact .inr (.inr others)
  | get pc queue =>
      refine .inl ⟨?_, rfl⟩
      rw [State.mem_carriers] at carrier ⊢
      simp only [pc, queue, List.mem_cons] at carrier ⊢
      rcases carrier with main | mq | drain | others
      · exact .inl main
      · exact .inr (.inl (.inr mq))
      · exact .inr (.inl (.inl (DrainPc.adding.inj drain).symm))
      · exact .inr (.inr (.inr others))
  | addTask pc room running =>
      refine .inl ⟨?_, rfl⟩
      rw [State.mem_carriers] at carrier ⊢
      simp only [pc, Threadpool.add_tasks owned.queue room running, List.mem_append,
        List.mem_singleton] at carrier ⊢
      rcases carrier with main | mq | drain | (tasks | rfl) | workers
      · exact .inl main
      · exact .inr (.inl mq)
      · cases drain
      · exact .inr (.inr (.inr (.inl tasks)))
      · exact .inr (.inr (.inl rfl))
      · exact .inr (.inr (.inr (.inr workers)))
  | grab found some =>
      refine .inl ⟨?_, rfl⟩
      rw [State.mem_carriers] at carrier ⊢
      rw [Threadpool.grab_tasks owned.queue some, List.mem_cons]
      rcases carrier with main | mq | drain | tasks | ⟨j, worker⟩
      · exact .inl main
      · exact .inr (.inl mq)
      · exact .inr (.inr (.inl drain))
      · exact .inr (.inr (.inr (.inl (.inr tasks))))
      · simp only [List.getElem?_set] at worker
        split_ifs at worker with same inside
        · obtain rfl := WorkerPc.decoding.inj (Option.some_inj.mp worker)
          exact .inr (.inr (.inr (.inl (.inl rfl))))
        · exact .inr (.inr (.inr (.inr ⟨j, worker⟩)))
  | decode mem found | workerRelease mem found | workerExit found =>
      refine .inl ⟨?_, rfl⟩
      rw [State.mem_carriers] at carrier ⊢
      rcases carrier with main | mq | drain | tasks | ⟨j, worker⟩
      · exact .inl main
      · exact .inr (.inl mq)
      · exact .inr (.inr (.inl drain))
      · exact .inr (.inr (.inr (.inl tasks)))
      · simp only [List.getElem?_set] at worker
        split_ifs at worker with same inside
        · cases worker
        · exact .inr (.inr (.inr (.inr ⟨j, worker⟩)))
  | evalFlag pc =>
      refine .inl ⟨?_, rfl⟩
      rw [State.mem_carriers] at carrier ⊢
      cases flag : s.mqFlag <;> simpa [pc, flag] using carrier
  | allocate mem pc | reuse mem pc | discard mem pc | release mem pc | leaveLoop pc
  | joinDrain pc | joinWorkers pc | destroyObdPool pc =>
      refine .inl ⟨?_, rfl⟩
      rw [State.mem_carriers] at carrier ⊢
      simpa [pc] using carrier
  | isEmptyTrue pc | isEmptyFalse pc | getNull pc | dropTask pc =>
      refine .inl ⟨?_, rfl⟩
      rw [State.mem_carriers] at carrier ⊢
      simp only [pc] at carrier ⊢
      tauto
  | sigint => exact .inl ⟨carrier, rfl⟩

/-! ## Which blocks a step writes -/

theorem mem_of_not_written (outside : b ∉ writtenBy s l) : (next s l).mem b = s.mem b := by
  cases l with
  | readFuncCb fresh =>
      have other : b ≠ (malloc s.objPool fresh).1 := by simpa [writtenBy] using outside
      exact Function.update_of_ne other _ _
  | recv event =>
      cases main : s.main with
      | initialised obd =>
          have other : b ≠ obd := by simpa [writtenBy, main, MainPc.holds] using outside
          cases event with
          | data bytes =>
              simp only [next, main, State.afterRecv]
              split_ifs <;> exact Function.update_of_ne other _ _
          | evError | recvError | closed => simp only [next, main, State.afterRecv]
      | _ => simp only [next, main]
  | release =>
      cases main : s.main with
      | releasing obd =>
          have other : b ≠ obd := by simpa [writtenBy, main, MainPc.holds] using outside
          simp only [next, main, State.releaseBlock]
          exact Function.update_of_ne other _ _
      | _ => simp only [next, main]
  | decode i fuel =>
      cases worker : s.workers[i]? with
      | none => simp only [next, worker]
      | some pc =>
          cases pc with
          | decoding o =>
              have other : b ≠ o := by
                simpa [writtenBy, State.workerHolds, worker, WorkerPc.holds] using outside
              simp only [next, worker, State.setWorker]
              exact Function.update_of_ne other _ _
          | _ => simp only [next, worker]
  | workerRelease i =>
      cases worker : s.workers[i]? with
      | none => simp only [next, worker]
      | some pc =>
          cases pc with
          | releasing o =>
              have other : b ≠ o := by
                simpa [writtenBy, State.workerHolds, worker, WorkerPc.holds] using outside
              simp only [next, worker, State.setWorker, State.releaseBlock]
              exact Function.update_of_ne other _ _
          | _ => simp only [next, worker]
  | put => cases main : s.main <;> simp only [next, main]
  | get => cases queue : s.obdMq <;> simp only [next, queue]
  | add => cases drain : s.drain <;> simp only [next, drain, State.addTask]
  | _ => rfl

/-- What a step has written carries no message behind it, but the one acknowledged. -/
theorem written_not_carrier (owned : (next s l).Owned) (enabled : enabled s l)
    (written : b ∈ writtenBy s l) (carrier : b ∈ (next s l).carriers) :
    (∃ event, l = .recv event) ∧ (next s l).main = .acknowledged b := by
  cases l with
  | readFuncCb fresh =>
      obtain rfl := List.mem_singleton.mp written
      exact absurd carrier (owned.not_carrier rfl).1
  | recv event =>
      obtain ⟨⟨obd, -, main⟩, -⟩ := enabled
      simp only [writtenBy, main, MainPc.holds, List.mem_singleton] at written
      subst written
      refine ⟨⟨event, rfl⟩, ?_⟩
      have held : (next s (.recv event)).main = .releasing b ∨
          (next s (.recv event)).main = .acknowledged b := by
        simp only [next, main]
        cases event with
        | data bytes =>
            simp only [State.afterRecv]
            split_ifs
            · exact .inl rfl
            · exact .inr rfl
        | evError | recvError | closed => exact .inl rfl
      rcases held with releasing | acknowledged
      · have place := owned.carrier_place carrier (p := .callback)
          (by simp [State.blocksAt, releasing, MainPc.holds])
        simp [releasing] at place
      · exact acknowledged
  | release =>
      obtain ⟨obd, -, main⟩ := enabled
      simp only [writtenBy, main, MainPc.holds, List.mem_singleton] at written
      subst written
      refine absurd carrier (owned.free_not_carrier ?_)
      simp [next, main, State.releaseBlock]
  | decode i fuel =>
      obtain ⟨o, -, worker, -⟩ := enabled
      simp only [writtenBy, State.workerHolds, worker, Option.elim, WorkerPc.holds,
        List.mem_singleton] at written
      subst written
      have inside : i < s.workers.length := (List.getElem?_eq_some_iff.mp worker).1
      have releasing : (next s (.decode i fuel)).workers[i]? = some (.releasing b) := by
        simp only [next, worker, State.setWorker]
        exact List.getElem?_set_self inside
      have place := owned.carrier_place carrier (p := .worker i)
        (by simp [State.blocksAt, State.workerHolds, releasing, WorkerPc.holds])
      simp [releasing] at place
  | workerRelease i =>
      obtain ⟨o, -, worker⟩ := enabled
      simp only [writtenBy, State.workerHolds, worker, Option.elim, WorkerPc.holds,
        List.mem_singleton] at written
      subst written
      refine absurd carrier (owned.free_not_carrier ?_)
      simp [next, worker, State.releaseBlock, State.setWorker]
  | _ => cases written

/-! ## Messages stay intact -/

theorem acknowledgedBy_length (enabled : enabled s l) :
    (next s l).history.acked = s.history.acked + (acknowledgedBy s l).length := by
  have step := step_of_enabled enabled
  cases l with
  | recv event =>
      obtain ⟨⟨obd, -, main⟩, -⟩ := enabled
      cases event with
      | data bytes =>
          simp only [acknowledgedBy, next, main, State.afterRecv]
          split_ifs <;> simp_all
      | evError | recvError | closed =>
          simp only [acknowledgedBy, next, main, State.afterRecv]
          rfl
  | _ =>
      generalize next s _ = t at step ⊢
      cases step <;> rfl

omit [DecidableEq Block] in
theorem State.Intact.initial (mem : Block → Obd) (queue : Nat → Block)
    (queueSize threadCount : Nat) : (State.initial mem queue queueSize threadCount).Intact [] where
  numbered := rfl
  contents b carrier := by
    rw [State.mem_carriers] at carrier
    simp [State.initial, Threadpool.create_tasks, List.getElem?_replicate] at carrier

theorem State.Intact.step {messages : List (List UInt8)} (intact : s.Intact messages)
    (owned : s.Owned) (initialised : s.Initialised) (enabled : enabled s l) :
    (next s l).Intact (messages ++ acknowledgedBy s l) := by
  have step := step_of_enabled enabled
  refine ⟨?_, fun b carrier => ?_⟩
  · rw [List.length_append, intact.numbered, acknowledgedBy_length enabled]
  · rcases carriers_step owned step carrier with ⟨before, message⟩ |
      ⟨⟨event, rfl⟩, main, acknowledged, number⟩
    · obtain ⟨bytes, numbered, small, contents, put⟩ := intact.contents b before
      have unwritten : b ∉ writtenBy s l := by
        intro written
        obtain ⟨⟨event, rfl⟩, -⟩ := written_not_carrier (owned.step step) enabled written carrier
        obtain ⟨⟨obd, -, main⟩, -⟩ := enabled
        simp only [writtenBy, main, MainPc.holds, List.mem_singleton] at written
        exact (owned.not_carrier (written ▸ main)).1 before
      have inside : s.history.message b < messages.length :=
        (List.getElem?_eq_some_iff.mp numbered).1
      rw [message, mem_of_not_written unwritten, List.getElem?_append_left inside]
      exact ⟨bytes, numbered, small, contents, put⟩
    · cases event with
      | data bytes =>
          obtain ⟨old, fresh⟩ := initialised b main
          have small := enabled.2.2
          by_cases empty : (received old bytes).dataLength = 0
          · rw [next_recv_released main fresh empty] at acknowledged
            cases acknowledged
          · have put := next_recv_acknowledged main fresh empty
            have told : acknowledgedBy s (.recv (.data bytes)) = [bytes] := by
              simp [acknowledgedBy, put]
            refine ⟨bytes, ?_, small, ?_, ?_⟩
            · rw [number, told, ← intact.numbered, List.getElem?_concat_length]
            · rw [put]
              exact (Function.update_self _ _ _).trans (received_eq old zeroBlock small)
            · rw [put]
              simpa using empty
      | evError | recvError | closed =>
          simp [next, main, State.afterRecv] at acknowledged

theorem intact_of_run (init : (pipeline Block).init s) (run : Run (pipeline Block) s tr t) :
    t.Intact (acknowledgedBytes tr) := by
  induction run with
  | refl =>
      obtain ⟨mem, queue, queueSize, threadCount, rfl⟩ := init
      exact .initial mem queue queueSize threadCount
  | @tail tr u l earlier enabled ih =>
      simp only [acknowledgedBytes, List.flatMap_append, List.flatMap_singleton]
      exact ih.step (owned_of_run init earlier) (initialised_of_run init earlier) enabled

/-! ## What is dispatched -/

/-- The message a step decodes, and what `OBD_decode` then switches on. -/
def dispatchedBy (s : State Block) (l : Label Block) : List (Nat × UInt8) :=
  match l with
  | .decode i _ => (s.workerHolds i).map fun o =>
      (s.history.message o, obdDecodeCmd ((next s l).mem o))
  | _ => []

/-- The messages decoded in a run, with their commands, oldest first. -/
def dispatchedMessages (tr : List (State Block × Label Block)) : List (Nat × UInt8) :=
  tr.flatMap fun p => dispatchedBy p.1 p.2

theorem dispatchedBy_decoded (enabled : enabled s l) :
    (next s l).history.decoded =
      ((dispatchedBy s l).map Prod.fst).reverse ++ s.history.decoded := by
  have step := step_of_enabled enabled
  cases l with
  | decode i fuel =>
      obtain ⟨o, -, worker, -⟩ := enabled
      simp [dispatchedBy, State.workerHolds, next, worker, WorkerPc.holds, State.setWorker]
  | _ =>
      generalize next s _ = t at step ⊢
      cases step <;> rfl

theorem decoded_of_run (init : (pipeline Block).init s) (run : Run (pipeline Block) s tr t) :
    t.history.decoded = ((dispatchedMessages tr).map Prod.fst).reverse := by
  induction run with
  | refl =>
      obtain ⟨mem, queue, queueSize, threadCount, rfl⟩ := init
      rfl
  | @tail tr u l earlier enabled ih =>
      have taken := dispatchedBy_decoded enabled
      simp only [dispatchedMessages, List.flatMap_append, List.flatMap_singleton, List.map_append,
        List.reverse_append] at ih ⊢
      exact taken.trans (congrArg _ ih)

/-- A worker decodes what the callback received. -/
theorem dispatchedBy_spec {messages : List (List UInt8)} (intact : s.Intact messages)
    (enabled : enabled s l) {m : Nat} {c : UInt8} (told : (m, c) ∈ dispatchedBy s l) :
    ∃ bytes, messages[m]? = some bytes ∧ bytes.length ≤ bufSize ∧
      ∀ old, Dispatches old bytes c := by
  cases l with
  | decode i fuel =>
      obtain ⟨o, -, worker, returns⟩ := enabled
      obtain ⟨result, decoded⟩ := Option.isSome_iff_exists.mp returns
      have carrier : o ∈ s.carriers :=
        State.mem_carriers.mpr (.inr (.inr (.inr (.inr ⟨i, worker⟩))))
      obtain ⟨bytes, numbered, small, contents, put⟩ := intact.contents o carrier
      have shape : dispatchedBy s (.decode i fuel) =
          [(s.history.message o, obdDecodeCmd result)] := by
        simp [dispatchedBy, State.workerHolds, next, worker, WorkerPc.holds, State.setWorker,
          decoded]
      rw [shape, List.mem_singleton] at told
      obtain ⟨rfl, rfl⟩ := Prod.mk.inj told
      refine ⟨bytes, numbered, small, fun old => ?_⟩
      rw [contents] at put decoded
      rw [Dispatches, received_eq old zeroBlock small]
      exact ⟨put, fuel, result, decoded, rfl⟩
  | _ => cases told

theorem dispatched_of_run (init : (pipeline Block).init s) (run : Run (pipeline Block) s tr t)
    {m : Nat} {c : UInt8} (told : (m, c) ∈ dispatchedMessages tr) :
    ∃ bytes, (acknowledgedBytes tr)[m]? = some bytes ∧ bytes.length ≤ bufSize ∧
      ∀ old, Dispatches old bytes c := by
  obtain ⟨⟨u, l⟩, member, here⟩ := List.mem_flatMap.mp told
  obtain ⟨before, after, part, enabled, -, rfl⟩ := run.cut member
  obtain ⟨bytes, numbered, dispatches⟩ := dispatchedBy_spec (intact_of_run init part) enabled here
  refine ⟨bytes, ?_, dispatches⟩
  rw [acknowledgedBytes, List.flatMap_append]
  exact (List.getElem?_append_left (List.getElem?_eq_some_iff.mp numbered).1).trans numbered

/-- Each message is decoded at most once, and only if it was acknowledged. -/
theorem decoded_nodup (init : (pipeline Block).init s) (run : Run (pipeline Block) s tr t) :
    t.history.decoded.Nodup ∧ ∀ m ∈ t.history.decoded, m < t.history.acked := by
  have count := delivered_of_run init run
  constructor
  · rw [List.nodup_iff_count_le_one]
    intro m
    have once := List.nodup_iff_count_le_one.mp (List.nodup_range (n := t.history.acked)) m
    have total := count m
    omega
  · intro m decoded
    have total := count m
    have some := List.count_pos_iff.mpr decoded
    exact List.mem_range.mp (List.count_pos_iff.mp (by omega))

end Pipeline

open Transition Pipeline

variable {Block : Type} [DecidableEq Block] {s t : Pipeline.State Block} {b : Block}
  {tr : List (Pipeline.State Block × Pipeline.Label Block)}

/-- From the callback to the worker, a block holds exactly what receiving its message leaves
    in a fresh block. -/
theorem pipeline_intact (init : (pipeline Block).init s) (run : Run (pipeline Block) s tr t)
    (carrier : b ∈ t.carriers) :
    ∃ bytes, (acknowledgedBytes tr)[t.history.message b]? = some bytes ∧
      t.mem b = received zeroBlock bytes := by
  obtain ⟨bytes, numbered, -, contents, -⟩ := (intact_of_run init run).contents b carrier
  exact ⟨bytes, numbered, contents⟩

/-- Two messages are on their way, one of them in the hands of a worker. -/
def Pipeline.twoMessages : List (Pipeline.Label Nat) := handOver 0 ++ [.grab 0] ++ handOver 1

theorem pipeline_intact_twoMessages :
    ∃ bytes, (acknowledgedBytes (trace (pipeline Nat) mainInitial twoMessages))[
        (exec (pipeline Nat) mainInitial twoMessages).history.message 1]? = some bytes ∧
      (exec (pipeline Nat) mainInitial twoMessages).mem 1 = received zeroBlock bytes :=
  pipeline_intact ⟨_, _, _, _, rfl⟩ (.ofSchedule _ (by decide +kernel)) (by decide +kernel)

/-- No message is decoded twice, and each as the command it has by itself. -/
theorem pipeline_dispatches (init : (pipeline Block).init s) (run : Run (pipeline Block) s tr t) :
    ((dispatchedMessages tr).map Prod.fst).Nodup ∧
      ∀ p ∈ dispatchedMessages tr, ∃ bytes,
        (acknowledgedBytes tr)[p.1]? = some bytes ∧ ∀ old, Dispatches old bytes p.2 := by
  have once := (decoded_nodup init run).1
  rw [decoded_of_run init run, List.nodup_reverse] at once
  refine ⟨once, fun p told => ?_⟩
  obtain ⟨bytes, numbered, -, dispatches⟩ := dispatched_of_run init run told
  exact ⟨bytes, numbered, dispatches⟩

theorem pipeline_dispatches_oneMessage :
    ((dispatchedMessages (trace (pipeline Nat) mainInitial oneMessage)).map Prod.fst).Nodup ∧
      ∀ p ∈ dispatchedMessages (trace (pipeline Nat) mainInitial oneMessage), ∃ bytes,
        (acknowledgedBytes (trace (pipeline Nat) mainInitial oneMessage))[p.1]? = some bytes ∧
          ∀ old, Dispatches old bytes p.2 :=
  pipeline_dispatches ⟨_, _, _, _, rfl⟩ (.ofSchedule oneMessage (by decide +kernel))

/-- When all that was acknowledged is decoded, what the workers have dispatched are, in some
    order, the commands of the texts received. -/
theorem pipeline_sequential (init : (pipeline Block).init s) (run : Run (pipeline Block) s tr t)
    (complete : ∀ m < t.history.acked, m ∈ t.history.decoded) :
    ((dispatchedMessages tr).map Prod.snd).Perm
      ((acknowledgedBytes tr).map fun bytes => commandOf (messageText bytes)) := by
  let command (m : Nat) : UInt8 := commandOf (messageText ((acknowledgedBytes tr).getD m []))
  obtain ⟨once, acked⟩ := decoded_nodup init run
  have alone : (dispatchedMessages tr).map Prod.snd =
      ((dispatchedMessages tr).map Prod.fst).map command := by
    rw [List.map_map]
    apply List.map_congr_left
    intro p told
    obtain ⟨bytes, numbered, small, dispatches⟩ := dispatched_of_run init run told
    obtain ⟨-, -, same⟩ := (dispatches_iff_commandOf zeroBlock small).mp (dispatches zeroBlock)
    simp only [command, Function.comp_apply, List.getD_eq_getElem?_getD, numbered,
      Option.getD_some, same]
  have inOrder : ((acknowledgedBytes tr).map fun bytes => commandOf (messageText bytes)) =
      (List.range t.history.acked).map command := by
    rw [← (intact_of_run init run).numbered]
    apply List.ext_getElem
    · simp
    · intro i here there
      have inside : i < (acknowledgedBytes tr).length := by simpa using here
      simp [command, inside]
  rw [alone, inOrder]
  apply List.Perm.map
  refine (List.reverse_perm _).symm.trans ?_
  rw [← decoded_of_run init run, List.perm_ext_iff_of_nodup once List.nodup_range]
  exact fun m => ⟨fun member => List.mem_range.mpr (acked m member),
    fun member => complete m (List.mem_range.mp member)⟩

theorem pipeline_sequential_oneMessage :
    ((dispatchedMessages (trace (pipeline Nat) mainInitial oneMessage)).map Prod.snd).Perm
      ((acknowledgedBytes (trace (pipeline Nat) mainInitial oneMessage)).map fun bytes =>
        commandOf (messageText bytes)) :=
  pipeline_sequential ⟨_, _, _, _, rfl⟩ (.ofSchedule oneMessage (by decide +kernel))
    (by decide +kernel)

end ObdServer
