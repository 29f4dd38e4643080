import ObdServer.Lib.Ledger
import ObdServer.Lib.Transition
import ObdServer.MemoryPool

/-! # The block pool under its threads

`Malloc` and `Free` of `obd_pool` in their separate loads and stores. The event loop calls
both, the workers call `Free`, and no lock is taken. Which thread releases a block, and in
which order, is left open.
-/

namespace ObdServer

namespace PoolRace

/-- The event loop in `Malloc`, behind each of its loads. -/
inductive MallocPc (Block : Type) where
  | idle
  | called
  | notNull
  | ptr (pPtr : Block)
  | head (pPtr first : Block)
  | next (pPtr first : Block) (pNext : Option Block)
  deriving DecidableEq

/-- A thread in `Free`, behind its load and its first store. -/
inductive FreePc (Block : Type) where
  | idle
  | called (pFreeNode : Block)
  | loaded (pFreeNode : Block) (first : Option Block)
  | linked (pFreeNode : Block) (first : Option Block)
  deriving DecidableEq

def FreePc.holds {Block : Type} : FreePc Block → List Block
  | .idle => []
  | .called pFreeNode | .loaded pFreeNode _ | .linked pFreeNode _ => [pFreeNode]

structure State (Block : Type) where
  pool : MemoryPool Block
  malloc : MallocPc Block
  /-- The calls of `Free`, by thread; thread 0 is the event loop. -/
  threads : List (FreePc Block)
  /-- The blocks handed out and not passed to `Free` since. -/
  inUse : List Block
  /-- The blocks ever obtained from the system. -/
  obtained : List Block

inductive Label (Block : Type) where
  | callMalloc
  /-- The next load or store of `Malloc`; `fresh` is what the system returns if asked. -/
  | mallocStep (fresh : Block)
  | callFree (t : Nat) (pFreeNode : Block)
  /-- The next load or store of `Free` in a thread. -/
  | freeStep (t : Nat)
  /-- The owner of a block writes its data over the link. -/
  | write (b : Block) (v : Option Block)
  deriving DecidableEq

variable {Block : Type}

namespace State

def initial (pNext : Block → Option Block) (threadCount : Nat) : State Block where
  pool := { pFirstAvailable := none, pNext }
  malloc := .idle
  threads := List.replicate threadCount .idle
  inUse := []
  obtained := []

def setThread (s : State Block) (t : Nat) (pc : FreePc Block) : State Block :=
  { s with threads := s.threads.set t pc }

end State

variable [DecidableEq Block]

def enabled (s : State Block) : Label Block → Prop
  | .callMalloc => s.malloc = .idle ∧ s.threads[0]? = some .idle
  | .mallocStep fresh =>
      s.malloc ≠ .idle ∧ (s.pool.pFirstAvailable = none → fresh ∉ s.obtained)
  | .callFree t pFreeNode =>
      s.threads[t]? = some .idle ∧ (t = 0 → s.malloc = .idle) ∧ pFreeNode ∈ s.inUse
  | .freeStep t => (s.threads[t]?).any (· ≠ .idle)
  | .write b _ => b ∈ s.inUse

instance (s : State Block) (l : Label Block) : Decidable (enabled s l) := by
  cases l <;> unfold enabled <;> infer_instance

def next (s : State Block) : Label Block → State Block
  | .callMalloc => { s with malloc := .called }
  | .mallocStep fresh => match s.malloc, s.pool.pFirstAvailable with
      | .called, none =>
          { s with
            malloc := .idle
            inUse := fresh :: s.inUse
            obtained := fresh :: s.obtained }
      | .called, some _ => { s with malloc := .notNull }
      | .notNull, some pPtr => { s with malloc := .ptr pPtr }
      | .ptr pPtr, some first => { s with malloc := .head pPtr first }
      | .head pPtr first, _ => { s with malloc := .next pPtr first (s.pool.pNext first) }
      | .next pPtr _ pNext, _ =>
          { s with
            pool.pFirstAvailable := pNext
            malloc := .idle
            inUse := pPtr :: s.inUse }
      -- only `Malloc` makes the pool empty, so that it does not find `NULL` after its test
      | _, _ => s
  | .callFree t pFreeNode =>
      { s with inUse := s.inUse.erase pFreeNode }.setThread t (.called pFreeNode)
  | .freeStep t => match s.threads[t]? with
      | some (.called pFreeNode) => s.setThread t (.loaded pFreeNode s.pool.pFirstAvailable)
      | some (.loaded pFreeNode first) =>
          { s with pool.pNext := Function.update s.pool.pNext pFreeNode first }.setThread t
            (.linked pFreeNode first)
      | some (.linked pFreeNode _) =>
          { s with pool.pFirstAvailable := some pFreeNode }.setThread t .idle
      | _ => s
  | .write b v => { s with pool.pNext := Function.update s.pool.pNext b v }

end PoolRace

open Transition in
/-- The pool under the event loop and any number of workers. -/
def poolRace (Block : Type) [DecidableEq Block] :
    System (PoolRace.State Block) (PoolRace.Label Block) where
  init s := ∃ pNext threadCount, s = PoolRace.State.initial pNext threadCount
  enabled := PoolRace.enabled
  next := PoolRace.next

instance {Block : Type} [DecidableEq Block] (s : PoolRace.State Block)
    (l : PoolRace.Label Block) : Decidable ((poolRace Block).enabled s l) :=
  inferInstanceAs (Decidable (PoolRace.enabled s l))

namespace PoolRace

open Transition LinkedStack

variable {Block : Type} [DecidableEq Block]

/-- Every call has completed. -/
def State.Quiescent (s : State Block) : Prop :=
  s.malloc = .idle ∧ ∀ pc ∈ s.threads, pc = .idle

/-- No block is in use twice, and the free list holds each block obtained and not in use
    once, and no other. -/
def State.Intact (s : State Block) : Prop :=
  s.inUse.Nodup ∧ ∃ free, s.pool.Frees free ∧ free.Nodup ∧
    ∀ b, b ∈ free ↔ b ∈ s.obtained ∧ b ∉ s.inUse

/-- If `Malloc` is about to store `pFirstAvailable`, it finds there what it has loaded. -/
def MallocPc.Undisturbed (pFirstAvailable : Option Block) : MallocPc Block → Prop
  | .next pPtr first _ => pFirstAvailable = some pPtr ∧ pFirstAvailable = some first
  | _ => True

/-- The same for `Free`. -/
def FreePc.Undisturbed (pFirstAvailable : Option Block) : FreePc Block → Prop
  | .linked _ first => pFirstAvailable = first
  | _ => True

/-- A store to `pFirstAvailable` finds in it what its call has loaded from it. -/
def Undisturbed (s : State Block) : Label Block → Prop
  | .mallocStep _ => s.malloc.Undisturbed s.pool.pFirstAvailable
  | .freeStep t => ∀ pc ∈ s.threads[t]?, pc.Undisturbed s.pool.pFirstAvailable
  | _ => True

instance (first : Option Block) (pc : MallocPc Block) : Decidable (pc.Undisturbed first) := by
  cases pc <;> unfold MallocPc.Undisturbed <;> infer_instance

instance (first : Option Block) (pc : FreePc Block) : Decidable (pc.Undisturbed first) := by
  cases pc <;> unfold FreePc.Undisturbed <;> infer_instance

instance (s : State Block) (l : Label Block) : Decidable (Undisturbed s l) := by
  cases l <;> unfold Undisturbed <;> infer_instance

/-! ## The steps -/

inductive Step (s : State Block) : Label Block → State Block → Prop where
  | callMalloc : s.malloc = .idle → Step s .callMalloc { s with malloc := .called }
  | obtain {fresh : Block} :
      s.pool.pFirstAvailable = none → fresh ∉ s.obtained →
      Step s (.mallocStep fresh)
        { s with malloc := .idle, inUse := fresh :: s.inUse, obtained := fresh :: s.obtained }
  | notNull {fresh : Block} : Step s (.mallocStep fresh) { s with malloc := .notNull }
  | loadPtr {fresh pPtr : Block} : Step s (.mallocStep fresh) { s with malloc := .ptr pPtr }
  | loadHead {fresh pPtr first : Block} :
      s.pool.pFirstAvailable = some first →
      Step s (.mallocStep fresh) { s with malloc := .head pPtr first }
  | loadNext {fresh pPtr first : Block} :
      s.malloc = .head pPtr first →
      Step s (.mallocStep fresh) { s with malloc := .next pPtr first (s.pool.pNext first) }
  | storeFirst {fresh pPtr first : Block} {pNext : Option Block} :
      s.malloc = .next pPtr first pNext →
      Step s (.mallocStep fresh)
        { s with pool.pFirstAvailable := pNext, malloc := .idle, inUse := pPtr :: s.inUse }
  | callFree {i : Nat} {pFreeNode : Block} :
      s.threads[i]? = some .idle → pFreeNode ∈ s.inUse →
      Step s (.callFree i pFreeNode)
        { s with
          inUse := s.inUse.erase pFreeNode
          threads := s.threads.set i (.called pFreeNode) }
  | loadFirst {i : Nat} {pFreeNode : Block} :
      s.threads[i]? = some (.called pFreeNode) →
      Step s (.freeStep i)
        { s with threads := s.threads.set i (.loaded pFreeNode s.pool.pFirstAvailable) }
  | storeNext {i : Nat} {pFreeNode : Block} {first : Option Block} :
      s.threads[i]? = some (.loaded pFreeNode first) →
      Step s (.freeStep i)
        { s with
          pool.pNext := Function.update s.pool.pNext pFreeNode first
          threads := s.threads.set i (.linked pFreeNode first) }
  | publish {i : Nat} {pFreeNode : Block} {first : Option Block} :
      s.threads[i]? = some (.linked pFreeNode first) →
      Step s (.freeStep i)
        { s with pool.pFirstAvailable := some pFreeNode, threads := s.threads.set i .idle }
  | write {b : Block} {v : Option Block} :
      b ∈ s.inUse →
      Step s (.write b v) { s with pool.pNext := Function.update s.pool.pNext b v }
  | stay {l : Label Block} : Step s l s

variable {s t : State Block} {l : Label Block} {free : List Block} {b : Block}

theorem step_of_enabled (enabled : enabled s l) : Step s l (next s l) := by
  cases l with
  | callMalloc => exact .callMalloc enabled.1
  | mallocStep fresh =>
      simp only [next]
      split
      · exact .obtain ‹_› (enabled.2 ‹_›)
      · exact .notNull
      · exact .loadPtr
      · exact .loadHead ‹_›
      · exact .loadNext ‹_›
      · exact .storeFirst ‹_›
      · exact .stay
  | callFree i pFreeNode => exact .callFree enabled.1 enabled.2.2
  | freeStep i =>
      simp only [next]
      split
      · exact .loadFirst ‹_›
      · exact .storeNext ‹_›
      · exact .publish ‹_›
      · exact .stay
  | write b v => exact .write enabled

/-! ## Calls that nothing comes between -/

/-- A call of `Malloc` that nothing comes between is `MemoryPool.malloc`. -/
theorem exec_malloc (idle : s.malloc = .idle) (fresh : Block) :
    ∃ steps, exec (poolRace Block) s (.callMalloc :: List.replicate steps (.mallocStep fresh)) =
      { s with
        pool := (s.pool.malloc fresh).2
        inUse := (s.pool.malloc fresh).1 :: s.inUse
        obtained := if s.pool.pFirstAvailable = none then fresh :: s.obtained
          else s.obtained } := by
  cases first : s.pool.pFirstAvailable with
  | none =>
      refine ⟨1, ?_⟩
      simp [exec, poolRace, next, MemoryPool.malloc, first, idle]
  | some pPtr =>
      refine ⟨5, ?_⟩
      simp [exec, poolRace, next, MemoryPool.malloc, first, idle, List.replicate]

/-- A call of `Free` that nothing comes between is `MemoryPool.release`. -/
theorem exec_free {i : Nat} (idle : s.threads[i]? = some .idle) (pFreeNode : Block) :
    exec (poolRace Block) s [.callFree i pFreeNode, .freeStep i, .freeStep i, .freeStep i] =
      { s with pool := s.pool.release pFreeNode, inUse := s.inUse.erase pFreeNode } := by
  obtain ⟨inside, here⟩ := List.getElem?_eq_some_iff.mp idle
  have back : s.threads.set i .idle = s.threads := by rw [← here, List.set_getElem_self]
  simp [exec, poolRace, next, State.setThread, MemoryPool.release, inside, back]

/-! ## The free list as long as the stores are undisturbed -/

/-- What `Malloc` relies on between its loads and its store. -/
def MallocPc.Sound (free : List Block) (pNext : Block → Option Block) : MallocPc Block → Prop
  | .head _ first => first ∈ free
  | .next _ first n => first ∈ free ∧ pNext first = n
  | _ => True

omit [DecidableEq Block] in
theorem MallocPc.Sound.cons {pc : MallocPc Block} {pNext : Block → Option Block}
    (sound : pc.Sound free pNext) (node : Block) : pc.Sound (node :: free) pNext := by
  cases pc with
  | head pPtr first => exact List.mem_cons_of_mem node sound
  | next pPtr first n => exact ⟨List.mem_cons_of_mem node sound.1, sound.2⟩
  | _ => trivial

structure State.Sound (free : List Block) (s : State Block) : Prop where
  frees : s.pool.Frees free
  ledger : ∀ b, free.count b + s.inUse.count b + (s.threads.flatMap FreePc.holds).count b =
    s.obtained.count b
  once : s.obtained.Nodup
  malloc : s.malloc.Sound free s.pool.pNext
  linked : ∀ (i : Nat) (b : Block) (first : Option Block),
    s.threads[i]? = some (.linked b first) → s.pool.pNext b = first

namespace State.Sound

theorem initial (pNext : Block → Option Block) (threadCount : Nat) :
    (State.initial pNext threadCount).Sound [] where
  frees := rfl
  ledger b := by
    have idle : (List.replicate threadCount (.idle : FreePc Block)).flatMap FreePc.holds = [] := by
      simp [FreePc.holds]
    simp [State.initial, idle]
  once := List.nodup_nil
  malloc := trivial
  linked i b first found := by
    simp [State.initial, List.getElem?_replicate] at found

/-- A block is free, in use or being freed, and only one of these. -/
theorem apart (sound : s.Sound free) (b : Block) :
    free.count b + s.inUse.count b + (s.threads.flatMap FreePc.holds).count b ≤ 1 := by
  rw [sound.ledger]
  exact List.nodup_iff_count_le_one.mp sound.once b

theorem inUse_outside (sound : s.Sound free) (used : b ∈ s.inUse) : b ∉ free := by
  intro member
  have total := sound.apart b
  have countFree := List.count_pos_iff.mpr member
  have countUsed := List.count_pos_iff.mpr used
  omega

theorem freeing_count (sound : s.Sound free) {i : Nat} {pc : FreePc Block}
    (found : s.threads[i]? = some pc) (holds : pc.holds = [b]) :
    free.count b + s.inUse.count b = 0 := by
  have total := sound.apart b
  have held := Ledger.count_le_flatMap (f := FreePc.holds) (b := b) found
  rw [holds, List.count_singleton_self] at held
  omega

theorem freeing_outside (sound : s.Sound free) {i : Nat} {pc : FreePc Block}
    (found : s.threads[i]? = some pc) (holds : pc.holds = [b]) : b ∉ free :=
  List.count_eq_zero.mp (Nat.eq_zero_of_add_eq_zero (sound.freeing_count found holds)).1

theorem freeing_unused (sound : s.Sound free) {i : Nat} {pc : FreePc Block}
    (found : s.threads[i]? = some pc) (holds : pc.holds = [b]) : b ∉ s.inUse :=
  List.count_eq_zero.mp (Nat.eq_zero_of_add_eq_zero (sound.freeing_count found holds)).2

/-- The link a thread has stored is not the one of another block being written. -/
theorem linked_other (sound : s.Sound free) {i j : Nat} {pc : FreePc Block} {b' : Block}
    {first : Option Block} (found : s.threads[i]? = some pc) (holds : pc.holds = [b])
    (other : i ≠ j) (linked : s.threads[j]? = some (.linked b' first)) : b' ≠ b := by
  rintro rfl
  have total := sound.apart b'
  have both := Ledger.count_two_le_flatMap (f := FreePc.holds) (b := b') found linked other
  have held : (FreePc.linked b' first).holds = [b'] := rfl
  rw [holds, held, List.count_singleton_self] at both
  omega

/-- A thread goes on with the block it has, or with none. -/
theorem ledger_set (sound : s.Sound free) {i : Nat} {pc : FreePc Block}
    (found : s.threads[i]? = some pc) (pc' : FreePc Block) (b : Block) :
    free.count b + s.inUse.count b + ((s.threads.set i pc').flatMap FreePc.holds).count b +
      pc.holds.count b = s.obtained.count b + pc'.holds.count b := by
  have moved := Ledger.count_flatMap_set (f := FreePc.holds) (b := b) found pc'
  have before := sound.ledger b
  omega

/-- Stores to links that are not on the free list leave it alone. -/
theorem write_link (sound : s.Sound free) (outside : b ∉ free) (v : Option Block) :
    ({ s.pool with pNext := Function.update s.pool.pNext b v } : MemoryPool Block).Frees free ∧
      s.malloc.Sound free (Function.update s.pool.pNext b v) := by
  refine ⟨sound.frees.update outside v, ?_⟩
  have relies := sound.malloc
  cases pc : s.malloc with
  | next pPtr first n =>
      rw [pc] at relies
      refine ⟨relies.1, ?_⟩
      rw [Function.update_of_ne (ne_of_mem_of_not_mem relies.1 outside)]
      exact relies.2
  | head pPtr first =>
      rw [pc] at relies
      exact relies
  | _ => trivial

/-- The steps of `Malloc`. -/
theorem stepMalloc (sound : s.Sound free) {fresh : Block} (step : Step s (.mallocStep fresh) t)
    (ok : Undisturbed s (.mallocStep fresh)) : ∃ free', t.Sound free' := by
  obtain ⟨frees, ledger, once, malloc, linked⟩ := sound
  cases step with
  | obtain empty new =>
      rw [MemoryPool.Frees, empty] at frees
      obtain rfl := frees.nil_of_none
      refine ⟨[], by rw [MemoryPool.Frees, empty]; rfl, fun b => ?_, once.cons new, trivial, linked⟩
      have before := ledger b
      simp only [List.count_cons] at before ⊢
      omega
  | notNull => exact ⟨free, frees, ledger, once, trivial, linked⟩
  | loadPtr => exact ⟨free, frees, ledger, once, trivial, linked⟩
  | loadHead first =>
      have chain := frees
      rw [MemoryPool.Frees, first] at chain
      obtain ⟨rest, rfl, -⟩ := chain.uncons
      exact ⟨_, frees, ledger, once, List.mem_cons_self, linked⟩
  | loadNext pc =>
      rw [pc] at malloc
      exact ⟨free, frees, ledger, once, ⟨malloc, rfl⟩, linked⟩
  | storeFirst pc =>
      simp only [Undisturbed, pc] at ok
      obtain ⟨ptr, head⟩ := ok
      obtain rfl := Option.some.inj (ptr.symm.trans head)
      rw [MemoryPool.Frees, head] at frees
      obtain ⟨rest, rfl, tail⟩ := frees.uncons
      rw [pc] at malloc
      rw [malloc.2] at tail
      refine ⟨rest, tail, fun b => ?_, once, trivial, linked⟩
      have before := ledger b
      simp only [List.count_cons] at before ⊢
      omega
  | stay => exact ⟨free, frees, ledger, once, malloc, linked⟩

/-- After one thread has moved, the links stored by the others are as they were. -/
theorem linked_set (sound : s.Sound free) {i : Nat} {pc' : FreePc Block}
    {pNext : Block → Option Block} (mine : ∀ b first, pc' = .linked b first → pNext b = first)
    (others : ∀ (j : Nat) b first, i ≠ j → s.threads[j]? = some (.linked b first) →
      pNext b = s.pool.pNext b) (j : Nat) (b : Block) (first : Option Block)
    (found : (s.threads.set i pc')[j]? = some (.linked b first)) : pNext b = first := by
  rw [List.getElem?_set] at found
  split_ifs at found with same inside
  · exact mine b first (Option.some.inj found)
  · rw [others j b first same found]
    exact sound.linked j b first found

/-- The steps of `Free`. -/
theorem stepFree (sound : s.Sound free) {i : Nat} (step : Step s (.freeStep i) t)
    (ok : Undisturbed s (.freeStep i)) : ∃ free', t.Sound free' := by
  cases step with
  | loadFirst found =>
      refine ⟨free, sound.frees, fun b => ?_, sound.once, sound.malloc,
        sound.linked_set (fun _ _ other => by cases other) fun _ _ _ _ _ => rfl⟩
      exact Nat.add_right_cancel (sound.ledger_set found _ b)
  | @storeNext _ node first found =>
      have outside := sound.freeing_outside found rfl
      obtain ⟨frees, malloc⟩ := sound.write_link outside first
      refine ⟨free, frees, fun b => ?_, sound.once, malloc, sound.linked_set ?_ ?_⟩
      · exact Nat.add_right_cancel (sound.ledger_set found _ b)
      · intro b v same
        cases same
        exact Function.update_self _ _ _
      · intro j b v other linked
        exact Function.update_of_ne (sound.linked_other found rfl other linked) _ _
  | @publish _ node first found =>
      have outside := sound.freeing_outside found rfl
      have link := sound.linked i node first found
      have undisturbed : s.pool.pFirstAvailable = first := ok _ found
      refine ⟨node :: free, sound.frees.push (link.trans undisturbed.symm),
        fun b => ?_, sound.once, ?_, sound.linked_set (fun _ _ other => by cases other)
          fun _ _ _ _ _ => rfl⟩
      · have moved := sound.ledger_set found .idle b
        simp only [FreePc.holds, List.count_cons, List.count_nil] at moved ⊢
        omega
      · exact sound.malloc.cons node
  | stay => exact ⟨free, sound⟩

theorem step (sound : s.Sound free) (step : Step s l t) (ok : Undisturbed s l) :
    ∃ free', t.Sound free' := by
  cases l with
  | callMalloc =>
      cases step with
      | callMalloc => exact ⟨free, sound.frees, sound.ledger, sound.once, trivial, sound.linked⟩
      | stay => exact ⟨free, sound⟩
  | mallocStep fresh => exact sound.stepMalloc step ok
  | callFree i node =>
      cases step with
      | callFree found used =>
          refine ⟨free, sound.frees, fun b => ?_, sound.once, sound.malloc,
            sound.linked_set (fun _ _ other => by cases other) fun _ _ _ _ _ => rfl⟩
          have moved := sound.ledger_set found (.called node) b
          have taken := (List.perm_cons_erase used).count_eq b
          simp only [FreePc.holds, List.count_cons, List.count_nil] at moved taken ⊢
          omega
      | stay => exact ⟨free, sound⟩
  | freeStep i => exact sound.stepFree step ok
  | write b v =>
      cases step with
      | write used =>
          obtain ⟨frees, malloc⟩ := sound.write_link (sound.inUse_outside used) v
          refine ⟨free, frees, sound.ledger, sound.once, malloc, fun i b' first found => ?_⟩
          have other : b' ≠ b := by
            rintro rfl
            exact sound.freeing_unused (i := i) found rfl used
          rw [← sound.linked i b' first found]
          exact Function.update_of_ne other _ _
      | stay => exact ⟨free, sound⟩

theorem quiescent (sound : s.Sound free) (quiet : ∀ pc ∈ s.threads, pc = .idle) : s.Intact := by
  have none : s.threads.flatMap FreePc.holds = [] :=
    List.flatMap_eq_nil_iff.mpr fun pc member => by rw [quiet pc member]; rfl
  have total := sound.ledger
  simp only [none, List.count_nil, Nat.add_zero] at total
  have atMost := fun b => none ▸ sound.apart b
  refine ⟨List.nodup_iff_count_le_one.mpr fun b => ?_, free, sound.frees,
    List.nodup_iff_count_le_one.mpr fun b => ?_, fun b => ?_⟩
  · have := atMost b
    omega
  · have := atMost b
    omega
  · have := atMost b
    rw [← List.count_pos_iff, ← List.count_pos_iff, ← List.count_eq_zero, ← total b]
    simp only [List.count_nil] at this
    omega

end State.Sound

end PoolRace

open Transition PoolRace

variable {Block : Type} [DecidableEq Block] {s t : PoolRace.State Block}
  {tr : List (PoolRace.State Block × PoolRace.Label Block)}

/-- As long as every store to `pFirstAvailable` finds in it what its call has loaded, the
    pool is intact whenever all calls have completed. -/
theorem poolRace_intact (init : (poolRace Block).init s) (run : Run (poolRace Block) s tr t)
    (undisturbed : ∀ p ∈ tr, Undisturbed p.1 p.2) :
    ∀ u, Visits tr t u → u.Quiescent → u.Intact := by
  obtain ⟨pNext, threadCount, rfl⟩ := init
  intro u visit quiet
  obtain ⟨before, after, left, -, shape⟩ := run.visited visit
  have sound : ∃ free, u.Sound free :=
    left.preservesWhere (fun v => ∃ free, v.Sound free) Undisturbed
      (fun _ _ ⟨_, sound⟩ ok enabled => sound.step (step_of_enabled enabled) ok)
      (fun p member => undisturbed p (shape ▸ List.mem_append_left _ member))
      ⟨[], .initial pNext threadCount⟩
  obtain ⟨free, sound⟩ := sound
  exact sound.quiescent quiet.2

/-- A worker frees a block and the event loop takes it again, one after the other. -/
def PoolRace.oneAfterTheOther : List (PoolRace.Label Nat) :=
  [.callMalloc, .mallocStep 0, .callFree 1 0, .freeStep 1, .freeStep 1, .freeStep 1,
    .callMalloc, .mallocStep 0, .mallocStep 0, .mallocStep 0, .mallocStep 0, .mallocStep 0]

theorem poolRace_intact_oneAfterTheOther :
    (exec (poolRace Nat) (.initial (fun _ => none) 9) oneAfterTheOther).Intact :=
  poolRace_intact ⟨_, _, rfl⟩ (.ofSchedule oneAfterTheOther (by decide +kernel))
    (by decide +kernel) _ (.inl rfl) ⟨by decide +kernel, by decide +kernel⟩

/-- Two workers load the head of the free list before either has stored it. -/
def PoolRace.twoWorkers : List (PoolRace.Label Nat) :=
  [.callMalloc, .mallocStep 0, .callMalloc, .mallocStep 1, .callFree 1 0, .callFree 2 1,
    .freeStep 1, .freeStep 2, .freeStep 1, .freeStep 2, .freeStep 1, .freeStep 2]

theorem poolRace_not_intact : ¬ ∀ (s t : PoolRace.State Nat) tr, (poolRace Nat).init s →
    Run (poolRace Nat) s tr t → t.Quiescent → t.Intact := by
  intro always
  have run : Run (poolRace Nat) (.initial (fun _ => none) 9) _ _ :=
    .ofSchedule twoWorkers (by decide +kernel)
  have quiet : (exec (poolRace Nat) (.initial (fun _ => none) 9) twoWorkers).Quiescent :=
    ⟨by decide +kernel, by decide +kernel⟩
  obtain ⟨-, free, frees, -, exact⟩ := always _ _ _ ⟨_, _, rfl⟩ run quiet
  have onlyLast : free = [1] :=
    frees.unique ⟨by decide +kernel, show (_ : Option Nat) = none by decide +kernel⟩
  have lost := (exact 0).mpr (by decide +kernel)
  simp [onlyLast] at lost

end ObdServer
