import Mathlib.Data.List.Basic
import ObdServer.Lib.CircularList
import ObdServer.Lib.Transition

/-! # The message queue of OBD_mq.h

Messages wait in a circular doubly linked list of the `list_t` nodes embedded in
them. The list is modelled on the heap it lives in, with every load and store of
the source; the two lock calls of `mq_put` and `mq_get` are left to
`MessageQueueLock`. `mq_t.data` is never read or written and has no field here.
-/

namespace ObdServer

open Transition CircularList

/-- `list_t`. -/
structure ListNode (Ptr : Type) where
  prev : Ptr
  next : Ptr
  deriving DecidableEq, Repr

/-- The `list_t` nodes in memory, by address. -/
abbrev NodeHeap (Ptr : Type) := Ptr → ListNode Ptr

/-- `mq_t`; `list` is the address of the head node embedded in it. -/
structure Mq (Ptr : Type) where
  size : UInt32
  list : Ptr
  deriving DecidableEq, Repr

/-- A queue together with the heap its nodes are in. -/
structure QueueState (Ptr : Type) where
  heap : NodeHeap Ptr
  mq : Mq Ptr

variable {Ptr : Type}

namespace NodeHeap

def next (heap : NodeHeap Ptr) (p : Ptr) : Ptr := (heap p).next

def prev (heap : NodeHeap Ptr) (p : Ptr) : Ptr := (heap p).prev

variable [DecidableEq Ptr]

/-- The store `p->next = q`. -/
def setNext (heap : NodeHeap Ptr) (p q : Ptr) : NodeHeap Ptr :=
  Function.update heap p { heap p with next := q }

/-- The store `p->prev = q`. -/
def setPrev (heap : NodeHeap Ptr) (p q : Ptr) : NodeHeap Ptr :=
  Function.update heap p { heap p with prev := q }

@[simp] theorem setNext_next (heap : NodeHeap Ptr) (p q : Ptr) :
    (heap.setNext p q).next = Function.update heap.next p q := by
  funext r
  by_cases same : r = p <;> simp [setNext, next, Function.update, same]

@[simp] theorem setNext_prev (heap : NodeHeap Ptr) (p q : Ptr) :
    (heap.setNext p q).prev = heap.prev := by
  funext r
  by_cases same : r = p <;> simp [setNext, prev, Function.update, same]

@[simp] theorem setPrev_prev (heap : NodeHeap Ptr) (p q : Ptr) :
    (heap.setPrev p q).prev = Function.update heap.prev p q := by
  funext r
  by_cases same : r = p <;> simp [setPrev, prev, Function.update, same]

@[simp] theorem setPrev_next (heap : NodeHeap Ptr) (p q : Ptr) :
    (heap.setPrev p q).next = heap.next := by
  funext r
  by_cases same : r = p <;> simp [setPrev, next, Function.update, same]

theorem setNext_other (heap : NodeHeap Ptr) {p q r : Ptr} (other : r ≠ p) :
    heap.setNext p q r = heap r :=
  Function.update_of_ne other _ _

theorem setPrev_other (heap : NodeHeap Ptr) {p q r : Ptr} (other : r ≠ p) :
    heap.setPrev p q r = heap r :=
  Function.update_of_ne other _ _

end NodeHeap

variable [DecidableEq Ptr]

/-- `list_init`. -/
def listInit (heap : NodeHeap Ptr) (list : Ptr) : NodeHeap Ptr :=
  (heap.setNext list list).setPrev list list

/-- `list_add_front`. -/
def listAddFront (heap : NodeHeap Ptr) (head current : Ptr) : NodeHeap Ptr :=
  let heap := heap.setNext current (heap.next head)
  let heap := heap.setPrev (heap.next head) current
  let heap := heap.setNext head current
  heap.setPrev current head

/-- `list_del`. -/
def listDel (heap : NodeHeap Ptr) (head node : Ptr) : NodeHeap Ptr :=
  let heap := heap.setPrev (heap.next node) (heap.prev node)
  let heap := heap.setNext head (heap.next node)
  listInit heap node

/-- `list_del_back`: the node taken off, or `none` for `NULL`. -/
def listDelBack (heap : NodeHeap Ptr) (head : Ptr) : Option Ptr × NodeHeap Ptr :=
  if heap.prev head = head then
    (none, heap)
  else
    let current := heap.prev head
    let heap := heap.setNext (heap.prev current) head
    let heap := heap.setPrev head (heap.prev current)
    (some current, listInit heap current)

/-- `mq_init` of the queue whose head node is at `list`. -/
def mqInit (heap : NodeHeap Ptr) (list : Ptr) : QueueState Ptr :=
  { heap := listInit heap list, mq := { size := 0, list } }

/-- The test of `mq_is_empty`. -/
def headIsAlone (s : QueueState Ptr) : Bool :=
  s.heap.prev s.mq.list = s.mq.list

/-- `mq_put`. -/
def mqPut (s : QueueState Ptr) (current : Ptr) : QueueState Ptr :=
  { heap := listAddFront s.heap s.mq.list current
    mq := { s.mq with size := s.mq.size + 1 } }

/-- `mq_get`. -/
def mqGet (s : QueueState Ptr) : Option Ptr × QueueState Ptr :=
  match listDelBack s.heap s.mq.list with
  | (some current, heap) => (some current, { heap, mq := { s.mq with size := s.mq.size - 1 } })
  | (none, heap) => (none, { s with heap })

/-! ## The list operations on a represented list -/

section ListOperations

variable {heap : NodeHeap Ptr} {head current node p : Ptr} {l : List Ptr}

theorem listInit_self (heap : NodeHeap Ptr) (p : Ptr) : listInit heap p p = ⟨p, p⟩ := by
  simp [listInit, NodeHeap.setNext, NodeHeap.setPrev]

theorem listInit_other (heap : NodeHeap Ptr) (other : p ≠ current) :
    listInit heap current p = heap p := by
  rw [listInit, NodeHeap.setPrev_other _ other, NodeHeap.setNext_other _ other]

theorem listInit_circular (heap : NodeHeap Ptr) (head : Ptr) :
    Circular (listInit heap head).next (listInit heap head).prev head [] :=
  .nil (by simp [listInit]) (by simp [listInit])

theorem listAddFront_circular (ring : Circular heap.next heap.prev head l)
    (fresh : current ∉ head :: l) :
    Circular (listAddFront heap head current).next (listAddFront heap head current).prev head
      (current :: l) := by
  have other : head ≠ current := fun same => fresh (by simp [same])
  simpa [listAddFront, other] using ring.insertFront fresh

/-- Only the head, the first node and the new node are written. -/
theorem listAddFront_other (ring : Circular heap.next heap.prev head l)
    (outside : p ∉ head :: l) (fresh : current ∉ head :: l) (other : p ≠ current) :
    listAddFront heap head current p = heap p := by
  have notFirst : p ≠ heap.next head := by
    rintro rfl
    exact outside (ring.mem_iff_reaches.mpr ⟨1, rfl⟩)
  have notHead : p ≠ head := List.ne_of_not_mem_cons outside
  have headOther : head ≠ current := (List.ne_of_not_mem_cons fresh).symm
  simp only [listAddFront, NodeHeap.setNext_next, Function.update_of_ne headOther]
  rw [NodeHeap.setPrev_other _ other, NodeHeap.setNext_other _ notHead,
    NodeHeap.setPrev_other _ notFirst, NodeHeap.setNext_other _ other]

/-! `list_del` links the head to what follows the node, whether or not it is the first. -/

theorem listDel_self (heap : NodeHeap Ptr) (head node : Ptr) :
    listDel heap head node node = ⟨node, node⟩ :=
  listInit_self _ _

/-- Forward from the head only the nodes behind the one deleted are left. -/
theorem listDel_forward {front behind : List Ptr}
    (ring : Circular heap.next heap.prev head (front ++ node :: behind)) :
    Path (listDel heap head node).next head behind head := by
  have nodup := (List.nodup_append.mp (List.nodup_cons.mp ring.nodup).2).2.1
  have outside := (List.nodup_cons.mp nodup).1
  have headOutside := ring.head_notMem
  simp only [List.mem_append, List.mem_cons, not_or] at headOutside
  obtain ⟨-, notNode, notBehind⟩ := headOutside
  refine (Path.append_cons.mp ring.forward).2.restart ?_ fun y member => ?_
  · simp [listDel, listInit, notNode]
  · have notHead : y ≠ head := ne_of_mem_of_not_mem member notBehind
    have other : y ≠ node := ne_of_mem_of_not_mem member outside
    simp [listDel, listInit, notHead, other]

theorem listDel_front (ring : Circular heap.next heap.prev head (node :: l)) :
    Circular (listDel heap head node).next (listDel heap head node).prev head l := by
  have outside : node ∉ head :: l := by
    have nodup := List.nodup_cons.mp ring.nodup
    have headOther := List.ne_of_not_mem_cons nodup.1
    exact List.not_mem_cons_of_ne_of_not_mem headOther.symm (List.nodup_cons.mp nodup.2).1
  have first := ring.prev_first
  refine ring.removeFront.congr ?_ ?_ <;>
  · intro y member
    simp [listDel, listInit, first, Function.update_of_ne (ne_of_mem_of_not_mem member outside)]

/-- The list is left without the node, and otherwise as it was, exactly when the node is
    the first one. -/
theorem listDel_removes_iff (ring : Circular heap.next heap.prev head l) (member : node ∈ l) :
    Circular (listDel heap head node).next (listDel heap head node).prev head (l.erase node) ∧
        listDel heap head node node = ⟨node, node⟩ ↔
      l.head? = some node := by
  obtain ⟨front, behind, outside, rfl, erased⟩ := List.exists_erase_eq member
  constructor
  · rintro ⟨left, -⟩
    rw [erased] at left
    have headOutside : head ∉ behind := fun member =>
      left.head_notMem (List.mem_append_right _ member)
    have same := (listDel_forward ring).unique left.forward headOutside left.head_notMem
    obtain rfl := List.self_eq_append_left.mp same
    rfl
  · intro first
    cases front with
    | nil =>
        rw [erased]
        exact ⟨listDel_front ring, listDel_self _ _ _⟩
    | cons x front =>
        obtain rfl : x = node := Option.some.inj first
        exact absurd List.mem_cons_self outside

/-- The nodes 1 and 2 behind the head 0. -/
def twoNodes : NodeHeap Nat := listAddFront (listAddFront (listInit (fun p => ⟨p, p⟩) 0) 0 2) 0 1

theorem twoNodes_circular : Circular twoNodes.next twoNodes.prev 0 [1, 2] :=
  listAddFront_circular
    (listAddFront_circular (listInit_circular (fun p : Nat => ⟨p, p⟩) 0) (by decide)) (by decide)

theorem listDel_removes_iff_twoNodes :
    Circular (listDel twoNodes 0 1).next (listDel twoNodes 0 1).prev 0 ([1, 2].erase 1) ∧
        listDel twoNodes 0 1 1 = ⟨1, 1⟩ ↔
      [1, 2].head? = some 1 :=
  listDel_removes_iff twoNodes_circular (by decide)

/-- With the second node the first one is lost as well. -/
theorem listDel_second_not_circular :
    Circular twoNodes.next twoNodes.prev 0 [1, 2] ∧ 2 ∈ [1, 2] ∧
      ¬ Circular (listDel twoNodes 0 2).next (listDel twoNodes 0 2).prev 0 ([1, 2].erase 2) := by
  refine ⟨twoNodes_circular, by decide, fun left => ?_⟩
  have ring : Circular twoNodes.next twoNodes.prev 0 ([1] ++ 2 :: []) := twoNodes_circular
  have lost : (listDel twoNodes 0 2).next 0 = 0 := listDel_forward ring
  cases lost.symm.trans left.forward.1

theorem listDelBack_nil (ring : Circular heap.next heap.prev head []) :
    listDelBack heap head = (none, heap) := by
  rw [listDelBack, if_pos (ring.prev_head_eq_iff.mpr rfl)]

theorem listDelBack_concat (ring : Circular heap.next heap.prev head (l ++ [current])) :
    listDelBack heap head = (some current,
      listInit ((heap.setNext (heap.prev current) head).setPrev head (heap.prev current))
        current) := by
  have last : heap.prev head = current := by simpa using ring.prev_head
  have notAlone : heap.prev head ≠ head := by simp [ring.prev_head_eq_iff]
  rw [listDelBack, if_neg notAlone]
  simp only [NodeHeap.setNext_prev, last]

theorem listDelBack_circular (ring : Circular heap.next heap.prev head (l ++ [current])) :
    Circular (listDelBack heap head).2.next (listDelBack heap head).2.prev head l := by
  have outside : current ∉ head :: l := by
    have nodup := ring.nodup
    rw [← List.cons_append] at nodup
    exact fun member => (List.nodup_append.mp nodup).2.2 _ member _ (by simp) rfl
  rw [listDelBack_concat ring]
  refine ring.removeBack.congr ?_ ?_ <;>
  · intro y member
    simp [listInit, Function.update_of_ne (ne_of_mem_of_not_mem member outside)]

/-- Only nodes of the list are written. -/
theorem listDelBack_other (ring : Circular heap.next heap.prev head l)
    (outside : p ∉ head :: l) : (listDelBack heap head).2 p = heap p := by
  rcases List.eq_nil_or_concat l with rfl | ⟨m, c, rfl⟩
  · rw [listDelBack_nil ring]
  · rw [List.concat_eq_append] at ring outside
    have notLast : p ≠ c := fun same => outside (by simp [same])
    have notBefore : p ≠ heap.prev c := by
      rintro rfl
      have back := ring.backward
      rw [List.reverse_append, List.reverse_singleton, List.singleton_append] at back
      cases shape : m.reverse with
      | nil =>
          have path := back.2
          rw [shape] at path
          exact outside (by simp [show heap.prev c = head from path])
      | cons y rest =>
          have path := back.2
          rw [shape] at path
          have inside : y ∈ m := by
            rw [← List.mem_reverse, shape]
            exact List.mem_cons_self
          exact outside (by simp [path.1, inside])
    rw [listDelBack_concat ring]
    change listInit _ c p = heap p
    rw [listInit_other _ notLast,
      NodeHeap.setPrev_other _ (List.ne_of_not_mem_cons outside),
      NodeHeap.setNext_other _ notBefore]

end ListOperations

/-! ## The queue as a FIFO -/

/-- The queue holds the nodes `l`, newest first. -/
structure Represents (s : QueueState Ptr) (l : List Ptr) : Prop where
  ring : Circular s.heap.next s.heap.prev s.mq.list l
  size : s.mq.size.toNat = l.length % UInt32.size

/-- `p` can be reached from the head by `next`; the head itself can. -/
def Linked (s : QueueState Ptr) (p : Ptr) : Prop :=
  ∃ k, s.heap.next^[k] s.mq.list = p

inductive QueueCall (Ptr : Type) where
  | put (current : Ptr)
  | get

/-- Sequences of queue calls; only a node that is not linked may be put. -/
def messageQueue (Ptr : Type) [DecidableEq Ptr] : System (QueueState Ptr) (QueueCall Ptr) where
  init s := ∃ heap list, s = mqInit heap list
  enabled s
    | .put current => ¬ Linked s current
    | .get => True
  next s
    | .put current => mqPut s current
    | .get => (mqGet s).2

/-- The nodes put in a run, oldest first. -/
def puts (tr : List (QueueState Ptr × QueueCall Ptr)) : List Ptr :=
  tr.filterMap fun
    | (_, .put current) => some current
    | (_, .get) => none

/-- The nodes returned in a run, oldest first. -/
def gots (tr : List (QueueState Ptr × QueueCall Ptr)) : List Ptr :=
  tr.filterMap fun
    | (_, .put _) => none
    | (s, .get) => (mqGet s).1

section Fifo

variable {s t : QueueState Ptr} {current p : Ptr} {l : List Ptr}
  {tr : List (QueueState Ptr × QueueCall Ptr)}

omit [DecidableEq Ptr] in
theorem Represents.linked_iff (rep : Represents s l) : Linked s p ↔ p ∈ s.mq.list :: l :=
  rep.ring.mem_iff_reaches.symm

theorem Represents.headIsAlone_iff (rep : Represents s l) : headIsAlone s = true ↔ l = [] := by
  simp only [headIsAlone, decide_eq_true_eq, rep.ring.prev_head_eq_iff]

theorem mqInit_represents (heap : NodeHeap Ptr) (list : Ptr) :
    Represents (mqInit heap list) [] where
  ring := listInit_circular heap list
  size := rfl

theorem Represents.put (rep : Represents s l) (fresh : current ∉ s.mq.list :: l) :
    Represents (mqPut s current) (current :: l) where
  ring := listAddFront_circular rep.ring fresh
  size := by
    have size := rep.size
    simp only [mqPut, UInt32.toNat_add, List.length_cons]
    rw [size]
    simp

theorem mqGet_fst (rep : Represents s l) : (mqGet s).1 = l.getLast? := by
  rcases List.eq_nil_or_concat l with rfl | ⟨m, c, rfl⟩
  · simp [mqGet, listDelBack_nil rep.ring]
  · rw [List.concat_eq_append] at rep ⊢
    simp [mqGet, listDelBack_concat rep.ring]

theorem mqGet_heap (s : QueueState Ptr) :
    (mqGet s).2.heap = (listDelBack s.heap s.mq.list).2 := by
  unfold mqGet
  split <;> simp [*]

theorem mqGet_list (s : QueueState Ptr) : (mqGet s).2.mq.list = s.mq.list := by
  unfold mqGet
  split <;> rfl

theorem Represents.get (rep : Represents s l) : Represents (mqGet s).2 l.dropLast := by
  rcases List.eq_nil_or_concat l with rfl | ⟨m, c, rfl⟩
  · simpa [mqGet, listDelBack_nil rep.ring] using rep
  · rw [List.concat_eq_append] at rep
    constructor
    · rw [mqGet_heap, mqGet_list]
      simpa using listDelBack_circular rep.ring
    · have size := rep.size
      simp only [mqGet, listDelBack_concat rep.ring, UInt32.toNat_sub, size]
      have one : UInt32.toNat 1 = 1 := rfl
      simp only [List.concat_eq_append, List.dropLast_concat, List.length_append,
        List.length_singleton, one, UInt32.size]
      omega

/-- The node returned is linked to itself. -/
theorem mqGet_self (rep : Represents s l) (got : (mqGet s).1 = some current) :
    (mqGet s).2.heap current = ⟨current, current⟩ := by
  rw [mqGet_fst rep] at got
  obtain ⟨m, rfl⟩ := List.getLast?_eq_some_iff.mp got
  rw [mqGet_heap, listDelBack_concat rep.ring]
  exact listInit_self _ _

/-- The node returned is not linked any more. -/
theorem mqGet_unlinked (rep : Represents s l) (got : (mqGet s).1 = some current) :
    ¬ Linked (mqGet s).2 current := by
  rw [rep.get.linked_iff, mqGet_list]
  rw [mqGet_fst rep] at got
  obtain ⟨m, rfl⟩ := List.getLast?_eq_some_iff.mp got
  have nodup := rep.ring.nodup
  rw [← List.cons_append] at nodup
  rw [List.dropLast_concat]
  exact fun member => (List.nodup_append.mp nodup).2.2 _ member _ (by simp) rfl

/-- What is put and has not been returned yet is in the queue, in order. -/
theorem puts_eq_gots_append (run : Run (messageQueue Ptr) s tr t) (start : Represents s []) :
    ∃ l, Represents t l ∧ puts tr = gots tr ++ l.reverse := by
  induction run with
  | refl => exact ⟨[], start, rfl⟩
  | @tail tr t call _ enabled ih =>
      obtain ⟨l, rep, history⟩ := ih
      cases call with
      | put current =>
          have fresh : current ∉ t.mq.list :: l := fun member =>
            enabled (rep.linked_iff.mpr member)
          exact ⟨current :: l, rep.put fresh, by simp_all [puts, gots, List.filterMap_append]⟩
      | get =>
          refine ⟨l.dropLast, rep.get, ?_⟩
          have result := mqGet_fst rep
          rcases List.eq_nil_or_concat l with rfl | ⟨m, c, rfl⟩
          · simp_all [puts, gots, List.filterMap_append]
          · simp_all [puts, gots, List.filterMap_append]

/-- What holds of the queue `t` at the end of a run with trace `tr`, `l` being the
    nodes in it, newest first. -/
structure FifoAt (tr : List (QueueState Ptr × QueueCall Ptr)) (t : QueueState Ptr)
    (l : List Ptr) : Prop where
  forward : Path t.heap.next t.mq.list l t.mq.list
  backward : Path t.heap.prev t.mq.list l.reverse t.mq.list
  distinct : (t.mq.list :: l).Nodup
  linked : ∀ p, Linked t p ↔ p ∈ t.mq.list :: l
  size : t.mq.size.toNat = l.length % UInt32.size
  empty : headIsAlone t = true ↔ l = []
  history : puts tr = gots tr ++ l.reverse
  oldest : (mqGet t).1 = l.reverse.head?
  null : (mqGet t).1 = none ↔ l = []
  returned : ∀ current, (mqGet t).1 = some current →
    (mqGet t).2.heap current = ⟨current, current⟩ ∧ ¬ Linked (mqGet t).2 current
  getFrame : ∀ p, ¬ Linked t p → (mqGet t).2.heap p = t.heap p
  putFrame : ∀ current p, ¬ Linked t current → ¬ Linked t p → p ≠ current →
    (mqPut t current).heap p = t.heap p

/-- `mq_put` and `mq_get` implement a FIFO, whatever the heap, the head node and the
    order of the calls. -/
theorem messageQueue_fifo (init : (messageQueue Ptr).init s)
    (run : Run (messageQueue Ptr) s tr t) : ∃ l, FifoAt tr t l := by
  obtain ⟨heap, list, rfl⟩ := init
  obtain ⟨l, rep, history⟩ := puts_eq_gots_append run (mqInit_represents heap list)
  refine ⟨l, ?_⟩
  exact
    { forward := rep.ring.forward
      backward := rep.ring.backward
      distinct := rep.ring.nodup
      linked := fun _ => rep.linked_iff
      size := rep.size
      empty := rep.headIsAlone_iff
      history := history
      oldest := by rw [mqGet_fst rep, List.head?_reverse]
      null := by rw [mqGet_fst rep, List.getLast?_eq_none_iff]
      returned := fun _ got => ⟨mqGet_self rep got, mqGet_unlinked rep got⟩
      getFrame := fun p outside => by
        rw [mqGet_heap]
        exact listDelBack_other rep.ring (rep.linked_iff.not.mp outside)
      putFrame := fun _ _ fresh outside other =>
        listAddFront_other rep.ring (rep.linked_iff.not.mp outside)
          (rep.linked_iff.not.mp fresh) other }

/-- The calls put no node that is in the list at their turn, which begins as `l`. -/
def Fresh (head : Ptr) : List Ptr → List (QueueCall Ptr) → Prop
  | _, [] => True
  | l, .put current :: calls => current ∉ head :: l ∧ Fresh head (current :: l) calls
  | l, .get :: calls => Fresh head l.dropLast calls

instance Fresh.decidable (head : Ptr) : ∀ l calls, Decidable (Fresh head l calls)
  | _, [] => .isTrue trivial
  | l, .put current :: calls =>
      have := Fresh.decidable head (current :: l) calls
      inferInstanceAs (Decidable (current ∉ head :: l ∧ Fresh head (current :: l) calls))
  | l, .get :: calls => Fresh.decidable head l.dropLast calls

/-- Whether a sequence of calls is allowed can be told from the list alone. -/
theorem Represents.admits_iff {calls : List (QueueCall Ptr)} (rep : Represents s l) :
    Admits (messageQueue Ptr) s calls ↔ Fresh s.mq.list l calls := by
  induction calls generalizing s l with
  | nil => exact Iff.rfl
  | cons call calls ih =>
      cases call with
      | put current =>
          have outside : ¬ Linked s current ↔ current ∉ s.mq.list :: l := rep.linked_iff.not
          by_cases fresh : current ∉ s.mq.list :: l
          · exact and_congr outside (ih (rep.put fresh))
          · simp only [Admits, Fresh, messageQueue, outside, fresh, false_and]
      | get =>
          have rest := ih rep.get
          rw [mqGet_list] at rest
          exact (and_iff_right trivial).trans rest

/-- Two nodes are put, one is taken off and put again behind a third; the queue is emptied
    and asked once more. -/
def reusedNode : List (QueueCall Nat) :=
  [.put 1, .put 2, .get, .put 3, .put 1, .get, .get, .get, .get, .put 2]

theorem messageQueue_fifo_reusedNode :
    ∃ l, FifoAt (trace (messageQueue Nat) (mqInit (fun p => ⟨p, p⟩) 0) reusedNode)
      (exec (messageQueue Nat) (mqInit (fun p => ⟨p, p⟩) 0) reusedNode) l :=
  messageQueue_fifo ⟨_, _, rfl⟩
    (.ofSchedule reusedNode ((mqInit_represents _ _).admits_iff.mpr (by decide)))

end Fifo

end ObdServer
