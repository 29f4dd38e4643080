import ObdServer.Lib.LinkedStack
import ObdServer.Pipeline

/-! # The memory pool of MemoryPool.h

A pool keeps its free blocks on a stack whose links are in the blocks themselves. Blocks
in use are under the control of their owner, so their `pNext` may be anything.
-/

namespace ObdServer

open LinkedStack

/-- `Head_t`, together with the `pNext` of all blocks. -/
structure MemoryPool (Block : Type) where
  pFirstAvailable : Option Block
  pNext : Block → Option Block

namespace MemoryPool

variable {Block : Type} {pool : MemoryPool Block} {free : List Block} {b fresh : Block}

/-- `Malloc`, where `fresh` is what the system returns if it is asked. -/
def malloc (pool : MemoryPool Block) (fresh : Block) : Block × MemoryPool Block :=
  match pool.pFirstAvailable with
  | some pPtr => (pPtr, { pool with pFirstAvailable := pool.pNext pPtr })
  | none => (fresh, pool)

/-- `Free` of a pool that has not been destroyed. -/
def release [DecidableEq Block] (pool : MemoryPool Block) (pFreeNode : Block) :
    MemoryPool Block where
  pNext := Function.update pool.pNext pFreeNode pool.pFirstAvailable
  pFirstAvailable := some pFreeNode

/-- The free blocks of the pool, newest first. -/
def Frees (pool : MemoryPool Block) (free : List Block) : Prop :=
  Chain pool.pNext pool.pFirstAvailable free

/-- `Malloc` takes the first block of the free list, as the pipeline has it. -/
theorem malloc_frees (frees : pool.Frees free) (fresh : Block) :
    (pool.malloc fresh).1 = (Pipeline.malloc free fresh).1 ∧
      (pool.malloc fresh).2.Frees (Pipeline.malloc free fresh).2 := by
  cases first : pool.pFirstAvailable with
  | none =>
      rw [Frees, first] at frees
      obtain rfl := frees.nil_of_none
      rw [malloc, first]
      exact ⟨rfl, first⟩
  | some pPtr =>
      rw [Frees, first] at frees
      obtain ⟨rest, rfl, tail⟩ := frees.uncons
      rw [malloc, first]
      exact ⟨rfl, tail⟩

/-- `Free` puts a block in front, unless it is there already. -/
theorem release_frees [DecidableEq Block] (frees : pool.Frees free) (outside : b ∉ free) :
    (pool.release b).Frees (b :: free) :=
  (frees.update outside _).push (Function.update_self _ _ _)

end MemoryPool

end ObdServer
