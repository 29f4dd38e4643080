import ObdServer.Lib.LittleEndian
import ObdServer.MemoryPool
import ObdServer.MessageQueue

/-! # The free list inside the blocks

`obd_pool` in the memory of its blocks: the link of a free block is in the first bytes of
its `data`, where its owner and the two `memset` calls write as well. One thread calls
`OBD_init` and `OBD_release` and writes to the blocks it holds.
-/

namespace ObdServer

open LinkedStack Transition WhileLoop

/-- An `OBD_t` in memory. -/
structure ObdBlock where
  obd : Obd
  list : ListNode UInt64

namespace Obd

/-- `pNext` of a block that is looked at as a `Node_t`. -/
def pNext (o : Obd) : UInt64 :=
  UInt64.ofNat (LittleEndian.value ((List.range 8).map o.byteAt))

def setPNext (o : Obd) (p : UInt64) : Obd :=
  { o with data := fun i => (LittleEndian.bytes 8 p.toNat)[i.val]?.getD (o.data i) }

/-- The link is read back from the bytes it has been written to. -/
theorem pNext_setPNext (o : Obd) (p : UInt64) : (o.setPNext p).pNext = p := by
  have word : (List.range 8).map (o.setPNext p).byteAt = LittleEndian.bytes 8 p.toNat := by
    apply List.ext_getElem
    · rw [List.length_map, List.length_range, LittleEndian.bytes_length]
    · intro k small inWord
      rw [LittleEndian.bytes_length] at inWord
      have inside : k < bufSize := Nat.lt_trans inWord (by decide)
      rw [List.getElem_map, List.getElem_range, byteAt, dif_pos inside]
      simp only [setPNext]
      rw [List.getElem?_eq_getElem, Option.getD_some]
  have fits : p.toNat < 256 ^ 8 := p.toNat_lt
  rw [pNext, word, LittleEndian.value_bytes fits, UInt64.ofNat_toNat]

attribute [irreducible] pNext setPNext

end Obd

/-- An address, `none` for `NULL`. -/
def nonNull (p : UInt64) : Option UInt64 := if p = 0 then none else some p

theorem nonNull_of_ne {p : UInt64} (nonzero : p ≠ 0) : nonNull p = some p := if_neg nonzero

theorem nonNull_eq_none_iff {p : UInt64} : nonNull p = none ↔ p = 0 := by
  by_cases null : p = 0 <;> simp [nonNull, null]

theorem nonNull_eq_some_iff {p b : UInt64} : nonNull p = some b ↔ p ≠ 0 ∧ p = b := by
  by_cases null : p = 0 <;> simp [nonNull, null]

namespace PoolMemory

structure State where
  mem : UInt64 → ObdBlock
  pFirstAvailable : UInt64
  /-- The blocks handed out and not released since. -/
  inUse : List UInt64
  /-- The blocks ever obtained from the system. -/
  obtained : List UInt64

inductive Label where
  /-- `fresh` is what `malloc` returns if asked. -/
  | init (fresh : UInt64)
  /-- The owner of a block gives its fields any values. -/
  | write (obd : UInt64) (content : ObdBlock)
  | release (obd : UInt64)

/-- `Malloc`. -/
def malloc (s : State) (fresh : UInt64) : UInt64 × State :=
  if s.pFirstAvailable ≠ 0 then
    (s.pFirstAvailable,
      { s with pFirstAvailable := (s.mem s.pFirstAvailable).obd.pNext })
  else (fresh, { s with obtained := fresh :: s.obtained })

/-- `Free` of a pool that has not been destroyed. -/
def free (s : State) (pFreeNode : UInt64) : State :=
  { s with
    mem := Function.update s.mem pFreeNode
      { s.mem pFreeNode with obd := (s.mem pFreeNode).obd.setPNext s.pFirstAvailable }
    pFirstAvailable := pFreeNode }

/-- `list_init(&obd->list)`; the node is behind the bytes of the block, at an address that
    is a multiple of eight. -/
def selfLinked (obd : UInt64) : ListNode UInt64 := { prev := obd + 520, next := obd + 520 }

/-- `OBD_init`. -/
def obdInit (s : State) (fresh : UInt64) : UInt64 × State :=
  let (obd, s) := malloc s fresh
  (obd, { s with
    mem := Function.update s.mem obd
      { obd := (s.mem obd).obd.init, list := selfLinked obd }
    inUse := obd :: s.inUse })

/-- `OBD_release`. -/
def obdRelease (s : State) (obd : UInt64) : State :=
  if obd = 0 then s
  else
    free { s with
      mem := Function.update s.mem obd
        { obd := (s.mem obd).obd.release, list := selfLinked obd }
      inUse := s.inUse.erase obd } obd

/-! The loop of `DestroyMemoryPool`. Behind it the `Head_t` is freed, which is no block. -/

structure DestroyState where
  mem : UInt64 → ObdBlock
  pNode : UInt64
  /-- What has been passed to `free`, oldest first. -/
  freed : List UInt64

namespace DestroyState

def more (s : DestroyState) : Bool := s.pNode ≠ 0

/-- The loop body; `junk` is what `free` leaves in a block. -/
def step (junk : UInt64 → ObdBlock) (s : DestroyState) : DestroyState :=
  let pPreNode := s.pNode
  let pNode := (s.mem s.pNode).obd.pNext
  { mem := Function.update s.mem pPreNode (junk pPreNode)
    pNode
    freed := s.freed ++ [pPreNode] }

end DestroyState

/-- The blocks `DestroyMemoryPool` passes to `free`, with a bound on its iterations. -/
def destroyMemoryPool (junk : UInt64 → ObdBlock) (fuel : Nat) (s : State) :
    Option (List UInt64) :=
  (run DestroyState.more (DestroyState.step junk) fuel
    { mem := s.mem, pNode := s.pFirstAvailable, freed := [] }).map DestroyState.freed

/-- The released blocks that have not been handed out again, the one released last first,
    when a step is taken. -/
def availableStep (available : List UInt64) : State × Label → List UInt64
  | (s, .init fresh) => available.erase (obdInit s fresh).1
  | (_, .write _ _) => available
  | (_, .release obd) => obd :: available

/-- Those after a run. -/
def available (tr : List (State × Label)) : List UInt64 := tr.foldl availableStep []

end PoolMemory

/-- Sequences of calls and writes of one thread. -/
def poolMemory : System PoolMemory.State PoolMemory.Label where
  init s := ∃ mem, s = { mem, pFirstAvailable := 0, inUse := [], obtained := [] }
  enabled s
    | .init fresh => s.pFirstAvailable = 0 → fresh ≠ 0 ∧ fresh ∉ s.obtained
    | .write obd _ | .release obd => obd ∈ s.inUse
  next s
    | .init fresh => (PoolMemory.obdInit s fresh).2
    | .write obd content => { s with mem := Function.update s.mem obd content }
    | .release obd => PoolMemory.obdRelease s obd

namespace PoolMemory

variable {s t : State} {free : List UInt64} {b fresh : UInt64} {l : Label}

/-- The pool with its links read off the blocks. -/
def State.pool (s : State) : MemoryPool UInt64 where
  pFirstAvailable := nonNull s.pFirstAvailable
  pNext b := nonNull (s.mem b).obd.pNext

/-- The free list consists of the blocks `free`, none of which is in use. -/
structure Intact (s : State) (free : List UInt64) : Prop where
  frees : s.pool.Frees free
  nodup : (free ++ s.inUse).Nodup
  obtained : ∀ b ∈ free ++ s.inUse, b ∈ s.obtained
  nonzero : 0 ∉ s.obtained

/-! ## The functions on bytes and on links -/

theorem malloc_pool (s : State) (fresh : UInt64) :
    (malloc s fresh).1 = (s.pool.malloc fresh).1 ∧
      (malloc s fresh).2.pool = (s.pool.malloc fresh).2 := by
  by_cases empty : s.pFirstAvailable = 0
  · have none : s.pool.pFirstAvailable = none := nonNull_eq_none_iff.mpr empty
    rw [malloc, if_neg (not_not.mpr empty), MemoryPool.malloc, none]
    exact ⟨rfl, rfl⟩
  · have some : s.pool.pFirstAvailable = some s.pFirstAvailable := nonNull_of_ne empty
    rw [malloc, if_pos empty, MemoryPool.malloc, some]
    simp only [State.pool, and_self]

theorem free_pool (s : State) (nonzero : b ≠ 0) :
    (PoolMemory.free s b).pool = s.pool.release b := by
  simp only [State.pool, PoolMemory.free, MemoryPool.release, nonNull_of_ne nonzero,
    MemoryPool.mk.injEq, true_and]
  funext a
  by_cases same : a = b
  · subst same
    simp only [Function.update_self, Obd.pNext_setPNext]
  · rw [Function.update_of_ne same, Function.update_of_ne same]

/-- What is written to other blocks does not matter to the free list. -/
theorem frees_write (frees : s.pool.Frees free) (outside : b ∉ free) (content : ObdBlock) :
    State.pool { s with mem := Function.update s.mem b content } |>.Frees free := by
  apply LinkedStack.Chain.congr frees
  intro a member
  simp only [State.pool]
  rw [Function.update_of_ne (ne_of_mem_of_not_mem member outside)]

/-! ## One step -/

theorem Intact.null_iff (intact : Intact s free) : s.pFirstAvailable = 0 ↔ free = [] := by
  have frees := intact.frees
  cases free with
  | nil => exact iff_true_right rfl |>.mpr (nonNull_eq_none_iff.mp frees)
  | cons b free => simpa using (nonNull_eq_some_iff.mp frees.1).1

/-- `Malloc` takes the block released last, or a fresh one if there is none. -/
theorem Intact.malloc (intact : Intact s free) (fresh : UInt64) :
    (malloc s fresh).1 = free.head?.getD fresh ∧ (malloc s fresh).2.pool.Frees free.tail := by
  obtain ⟨first, rest⟩ := MemoryPool.malloc_frees intact.frees fresh
  obtain ⟨same, pool⟩ := malloc_pool s fresh
  rw [same, pool, first]
  cases free with
  | nil => exact ⟨rfl, rest⟩
  | cons b free => exact ⟨rfl, rest⟩

theorem malloc_inUse (s : State) (fresh : UInt64) : (malloc s fresh).2.inUse = s.inUse := by
  rw [malloc]
  split_ifs <;> rfl

theorem malloc_obtained (s : State) (fresh : UInt64) : (malloc s fresh).2.obtained =
    if s.pFirstAvailable = 0 then fresh :: s.obtained else s.obtained := by
  by_cases null : s.pFirstAvailable = 0
  · rw [malloc, if_neg (not_not.mpr null), if_pos null]
  · rw [malloc, if_pos null, if_neg null]

/-- `OBD_init` returns what `Malloc` does. -/
theorem obdInit_fst (intact : Intact s free) (fresh : UInt64) :
    (obdInit s fresh).1 = free.head?.getD fresh :=
  (intact.malloc fresh).1

theorem Intact.obdInit (intact : Intact s free)
    (unknown : s.pFirstAvailable = 0 → fresh ≠ 0 ∧ fresh ∉ s.obtained) :
    Intact (obdInit s fresh).2 free.tail := by
  obtain ⟨first, frees⟩ := intact.malloc fresh
  have inUse := malloc_inUse s fresh
  have obtained := malloc_obtained s fresh
  cases free with
  | nil =>
      have null := intact.null_iff.mpr rfl
      obtain ⟨nonzero, outside⟩ := unknown null
      have notInUse : fresh ∉ s.inUse := fun inUse => outside (intact.obtained fresh (by simpa))
      rw [if_pos null] at obtained
      constructor
      · exact frees_write frees List.not_mem_nil _
      · simp only [PoolMemory.obdInit, first, inUse]
        exact intact.nodup.cons notInUse
      · simp only [PoolMemory.obdInit, first, inUse, obtained]
        intro b member
        cases List.mem_cons.mp member with
        | inl same => exact same ▸ List.mem_cons_self
        | inr held => exact List.mem_cons_of_mem _ (intact.obtained b held)
      · simp only [PoolMemory.obdInit, obtained]
        exact List.not_mem_cons_of_ne_of_not_mem nonzero.symm intact.nonzero
  | cons b free =>
      have some : s.pFirstAvailable ≠ 0 := fun null => by cases intact.null_iff.mp null
      have nodup := intact.nodup
      rw [List.cons_append, List.nodup_cons, List.mem_append, not_or] at nodup
      obtain ⟨⟨outside, notInUse⟩, rest⟩ := nodup
      rw [if_neg some] at obtained
      have handed : (PoolMemory.malloc s fresh).1 ∉ free := by
        rw [first]
        exact outside
      constructor
      · exact frees_write frees handed _
      · simp only [PoolMemory.obdInit, first, inUse]
        exact List.nodup_middle.mpr (rest.cons (by simp [outside, notInUse]))
      · simp only [PoolMemory.obdInit, first, inUse, obtained]
        intro a member
        apply intact.obtained a
        simpa [or_left_comm] using member
      · simp only [PoolMemory.obdInit, obtained]
        exact intact.nonzero

theorem Intact.outside (intact : Intact s free) (inUse : b ∈ s.inUse) : b ∉ free := fun member =>
  (List.nodup_append.mp intact.nodup).2.2 b member b inUse rfl

theorem Intact.write (intact : Intact s free) (inUse : b ∈ s.inUse) (content : ObdBlock) :
    Intact { s with mem := Function.update s.mem b content } free where
  frees := frees_write intact.frees (intact.outside inUse) content
  nodup := intact.nodup
  obtained := intact.obtained
  nonzero := intact.nonzero

theorem Intact.obdRelease (intact : Intact s free) (inUse : b ∈ s.inUse) :
    Intact (obdRelease s b) (b :: free) := by
  have outside := intact.outside inUse
  have nonzero : b ≠ 0 := by
    rintro rfl
    exact intact.nonzero (intact.obtained 0 (List.mem_append_right _ inUse))
  have moved : (free ++ s.inUse).Perm (b :: free ++ s.inUse.erase b) :=
    ((List.perm_cons_erase inUse).append_left free).trans List.perm_middle
  rw [PoolMemory.obdRelease, if_neg nonzero]
  constructor
  · rw [free_pool _ nonzero]
    apply MemoryPool.release_frees _ outside
    exact frees_write intact.frees outside _
  · exact moved.nodup_iff.mp intact.nodup
  · exact fun a member => intact.obtained a (moved.mem_iff.mpr member)
  · exact intact.nonzero

/-! ## Runs -/

theorem intact_of_run {tr : List (State × Label)} (init : poolMemory.init s)
    (run : Run poolMemory s tr t) : Intact t (available tr) := by
  induction run with
  | refl =>
      obtain ⟨mem, rfl⟩ := init
      refine ⟨rfl, List.nodup_nil, fun b member => ?_, List.not_mem_nil⟩
      cases member
  | @tail tr u l _ enabled ih =>
      rw [available, List.foldl_append]
      cases l with
      | init fresh =>
          have top := obdInit_fst ih fresh
          have rest : (available tr).erase (obdInit u fresh).1 = (available tr).tail := by
            rw [top]
            cases available tr with
            | nil => rfl
            | cons b free => exact List.erase_cons_head b free
          show Intact (obdInit u fresh).2 ((available tr).erase (obdInit u fresh).1)
          rw [rest]
          exact ih.obdInit enabled
      | write obd content => exact ih.write enabled content
      | release obd => exact ih.obdRelease enabled

/-! ## `DestroyMemoryPool` -/

/-- The loop walks down a chain without repetitions and frees each block behind it, although
    `free` may overwrite the link of the block it gets. -/
theorem run_destroy (junk : UInt64 → ObdBlock) {chain : List UInt64} (nodup : chain.Nodup) :
    ∀ {d : DestroyState} {fuel : Nat},
      Chain (fun b => nonNull (d.mem b).obd.pNext) (nonNull d.pNode) chain →
      chain.length ≤ fuel →
      (run DestroyState.more (DestroyState.step junk) fuel d).map DestroyState.freed =
        some (d.freed ++ chain) := by
  induction chain with
  | nil =>
      intro d fuel linked _
      have null : d.pNode = 0 := nonNull_eq_none_iff.mp linked
      have stops : Iterates DestroyState.more (DestroyState.step junk) 0 d :=
        ⟨fun k small => absurd small (Nat.not_lt_zero k), by simp [DestroyState.more, null]⟩
      rw [run_of_iterates stops (Nat.zero_le fuel), List.append_nil]
      rfl
  | cons b chain ih =>
      intro d fuel linked enough
      obtain ⟨first, tail⟩ := linked
      obtain ⟨nonzero, first⟩ := nonNull_eq_some_iff.mp first
      obtain ⟨outside, rest⟩ := List.nodup_cons.mp nodup
      obtain ⟨fuel, rfl⟩ := Nat.exists_eq_add_of_le' (Nat.le_trans (Nat.succ_pos _) enough)
      have again : DestroyState.more d = true := by simp [DestroyState.more, nonzero]
      rw [run, if_pos again, ih rest _ (Nat.le_of_succ_le_succ enough)]
      · simp [DestroyState.step, first]
      · simp only [DestroyState.step, first]
        apply LinkedStack.Chain.congr tail
        intro a member
        rw [Function.update_of_ne (ne_of_mem_of_not_mem member outside)]

/-- What holds of the pool `t` at the end of a run: its free list is the stack of the blocks
    available, which are not in use, `OBD_init` pops it, and `DestroyMemoryPool` frees these
    blocks and no others, each once. -/
structure StackAt (tr : List (State × Label)) (t : State) : Prop where
  chain : Chain (fun b => nonNull (t.mem b).obd.pNext) (nonNull t.pFirstAvailable) (available tr)
  distinct : (available tr).Nodup
  apart : ∀ b ∈ available tr, b ∉ t.inUse
  top : ∀ fresh, (obdInit t fresh).1 = (available tr).head?.getD fresh
  destroyed : ∀ junk, ∀ fuel ≥ (available tr).length,
    destroyMemoryPool junk fuel t = some (available tr)

end PoolMemory

open PoolMemory in
/-- The links in the blocks make a stack, whatever the owners of blocks write. -/
theorem poolMemory_stack {s t : PoolMemory.State}
    {tr : List (PoolMemory.State × PoolMemory.Label)} (init : poolMemory.init s)
    (run : Run poolMemory s tr t) : StackAt tr t := by
  have intact := intact_of_run init run
  have distinct := (List.nodup_append.mp intact.nodup).1
  exact
    { chain := intact.frees
      distinct := distinct
      apart := fun b member inUse => intact.outside inUse member
      top := obdInit_fst intact
      destroyed := fun junk fuel enough => run_destroy junk distinct intact.frees enough }

instance (s : PoolMemory.State) (l : PoolMemory.Label) : Decidable (poolMemory.enabled s l) :=
  match l with
  | .init _ => inferInstanceAs (Decidable (_ → _ ∧ _))
  | .write _ _ | .release _ => inferInstanceAs (Decidable (_ ∈ _))

/-- The pool as `CreateMemoryPool` leaves it. -/
def PoolMemory.created : PoolMemory.State where
  mem _ := { obd := zeroBlock, list := { prev := 0, next := 0 } }
  pFirstAvailable := 0
  inUse := []
  obtained := []

/-- Two blocks are handed out, filled and released, and the second is handed out again. -/
def PoolMemory.twoBlocks : List PoolMemory.Label :=
  [.init 8, .init 1024,
    .write 8 { obd := { zeroBlock with data := fun _ => 0xFF }, list := ⟨8, 8⟩ },
    .release 8, .release 1024, .init 2048]

theorem poolMemory_stack_twoBlocks :
    PoolMemory.StackAt (trace poolMemory PoolMemory.created PoolMemory.twoBlocks)
      (exec poolMemory PoolMemory.created PoolMemory.twoBlocks) :=
  poolMemory_stack ⟨_, rfl⟩ (.ofSchedule _ (by decide +kernel))

end ObdServer
