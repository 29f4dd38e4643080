import Mathlib.Data.List.Range
import Mathlib.Data.Nat.ModEq
import Mathlib.Logic.Function.Basic

/-! # Ring buffers

An array used as a ring, with the index of the oldest entry and the number of entries.
Its contents are the entries from the oldest to the newest.
-/

namespace RingBuffer

variable {α : Type*} {slots : Nat → α} {size head count : Nat}

/-- The entries of a ring, oldest first. -/
def contents (slots : Nat → α) (size head count : Nat) : List α :=
  (List.range count).map fun k => slots ((head + k) % size)

@[simp] theorem contents_length : (contents slots size head count).length = count := by
  simp [contents]

/-- The wrap of an index that has been increased by one. -/
theorem wrap_succ (inside : head < size) :
    (if head + 1 = size then 0 else head + 1) = (head + 1) % size := by
  split_ifs with wraps
  · rw [wraps, Nat.mod_self]
  · exact (Nat.mod_eq_of_lt (by omega)).symm

/-- A store behind the newest entry appends, as long as the ring is not full. -/
theorem contents_push (room : count < size) (x : α) :
    contents (Function.update slots ((head + count) % size) x) size head (count + 1) =
      contents slots size head count ++ [x] := by
  have kept : ∀ k < count, (head + k) % size ≠ (head + count) % size := by
    intro k before same
    have congruent : k ≡ count [MOD size] := Nat.ModEq.add_left_cancel' head same
    have equal : k = count := by
      rwa [Nat.ModEq, Nat.mod_eq_of_lt (by omega), Nat.mod_eq_of_lt room] at congruent
    omega
  rw [contents, List.range_succ, List.map_append, List.map_singleton, Function.update_self]
  refine congrArg (· ++ [x]) (List.map_congr_left fun k member => ?_)
  exact Function.update_of_ne (kept k (List.mem_range.mp member)) _ _

/-- The entry at the head is the oldest one. -/
theorem contents_pop (inside : head < size) :
    contents slots size head (count + 1) =
      slots head :: contents slots size ((head + 1) % size) count := by
  rw [contents, List.range_succ_eq_map, List.map_cons, List.map_map, Nat.add_zero,
    Nat.mod_eq_of_lt inside]
  refine congrArg (slots head :: ·) (List.map_congr_left fun k _ => ?_)
  simp only [Function.comp_apply, Nat.mod_add_mod]
  congr 2
  omega

end RingBuffer
