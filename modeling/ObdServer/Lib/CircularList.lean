import Mathlib.Data.List.Nodup
import Mathlib.Logic.Function.Iterate

/-! # Circular doubly linked lists

The cells are the values of a type, and the links are two functions on it. A list
represents the cells linked behind a head cell when following `next` from the head
meets exactly that list and returns, and following `prev` meets its reverse.
-/

namespace CircularList

variable {α : Type*} {succ succ' next prev : α → α} {a a' b head n x : α} {l m : List α}

/-- Following `succ` from `a` one meets exactly `l`, in order, and then `b`. -/
def Path (succ : α → α) : α → List α → α → Prop
  | a, [], b => succ a = b
  | a, x :: l, b => succ a = x ∧ Path succ x l b

theorem Path.append_cons : Path succ a (l ++ x :: m) b ↔ Path succ a l x ∧ Path succ x m b := by
  induction l generalizing a with
  | nil => exact Iff.rfl
  | cons y l ih => simp only [List.cons_append, Path, ih, and_assoc]

theorem Path.concat : Path succ a (l ++ [x]) b ↔ Path succ a l x ∧ succ x = b :=
  Path.append_cons

/-- A path only depends on the links of its first cell and of the cells it meets, so
    another cell with the same link may take the place of the first. -/
theorem Path.restart (path : Path succ a l b) (first : succ' a' = succ a)
    (rest : ∀ y ∈ l, succ' y = succ y) : Path succ' a' l b := by
  induction l generalizing a a' with
  | nil => exact first.trans path
  | cons x l ih =>
      exact ⟨first.trans path.1, ih path.2 (rest x List.mem_cons_self)
        fun y member => rest y (List.mem_cons_of_mem x member)⟩

theorem Path.congr (path : Path succ a l b) (same : ∀ y ∈ a :: l, succ' y = succ y) :
    Path succ' a l b :=
  path.restart (same a List.mem_cons_self) fun y member => same y (List.mem_cons_of_mem a member)

theorem Path.iterate (path : Path succ a l b) : succ^[l.length + 1] a = b := by
  induction l generalizing a with
  | nil => exact path
  | cons x l ih =>
      rw [List.length_cons, Function.iterate_succ_apply, path.1]
      exact ih path.2

/-- Two paths from one cell to another that neither meets on the way are the same. -/
theorem Path.unique (left : Path succ a l b) (right : Path succ a m b)
    (outsideLeft : b ∉ l) (outsideRight : b ∉ m) : l = m := by
  induction l generalizing a m with
  | nil =>
      cases m with
      | nil => rfl
      | cons y m => exact absurd (left.symm.trans right.1) (List.ne_of_not_mem_cons outsideRight)
  | cons x l ih =>
      cases m with
      | nil => exact absurd (right.symm.trans left.1) (List.ne_of_not_mem_cons outsideLeft)
      | cons y m =>
          obtain rfl : x = y := left.1.symm.trans right.1
          rw [ih left.2 right.2 (List.not_mem_of_not_mem_cons outsideLeft)
            (List.not_mem_of_not_mem_cons outsideRight)]

/-- The cells on a path are those its first cell leads to. -/
theorem Path.mem_reaches (path : Path succ a l b) (member : x ∈ l) : ∃ k, succ^[k] a = x := by
  obtain ⟨before, after, rfl⟩ := List.append_of_mem member
  exact ⟨_, (Path.append_cons.mp path).1.iterate⟩

/-- Round a closed path one never leaves its cells. -/
theorem Path.reaches_mem (cycle : Path succ a l a) (k : Nat) : succ^[k] a ∈ a :: l := by
  induction k with
  | zero => exact List.mem_cons_self
  | succ k ih =>
      rw [Function.iterate_succ_apply']
      rcases List.mem_cons.mp ih with same | inside
      · rw [same]
        cases l with
        | nil => exact List.mem_cons.mpr (.inl cycle)
        | cons x l => exact cycle.1 ▸ List.mem_cons_of_mem a List.mem_cons_self
      · obtain ⟨before, after, shape⟩ := List.append_of_mem inside
        have path := (Path.append_cons.mp (shape ▸ cycle)).2
        cases after with
        | nil => exact List.mem_cons.mpr (.inl path)
        | cons y after =>
            rw [path.1, shape]
            exact List.mem_cons_of_mem a (List.mem_append_right _
              (List.mem_cons_of_mem _ List.mem_cons_self))

/-- The cells linked behind `head`, in `next` order. -/
structure Circular (next prev : α → α) (head : α) (l : List α) : Prop where
  forward : Path next head l head
  backward : Path prev head l.reverse head
  nodup : (head :: l).Nodup

namespace Circular

theorem head_notMem (ring : Circular next prev head l) : head ∉ l :=
  (List.nodup_cons.mp ring.nodup).1

theorem nil (forward : next head = head) (backward : prev head = head) :
    Circular next prev head [] where
  forward := forward
  backward := backward
  nodup := List.nodup_singleton head

/-- The links of other cells do not matter. -/
theorem congr {next' prev' : α → α} (ring : Circular next prev head l)
    (sameNext : ∀ y ∈ head :: l, next' y = next y) (samePrev : ∀ y ∈ head :: l, prev' y = prev y) :
    Circular next' prev' head l where
  forward := ring.forward.congr sameNext
  backward := ring.backward.congr fun y member => samePrev y (by simpa using member)
  nodup := ring.nodup

/-- Seen through the other links the list is reversed. -/
theorem symm (ring : Circular next prev head l) : Circular prev next head l.reverse where
  forward := ring.backward
  backward := by
    rw [List.reverse_reverse]
    exact ring.forward
  nodup := by
    have nodup := List.nodup_cons.mp ring.nodup
    exact List.nodup_cons.mpr ⟨by simpa using nodup.1, List.nodup_reverse.mpr nodup.2⟩

/-- The first cell back from the head is the last one forward. -/
theorem prev_head (ring : Circular next prev head l) : prev head = l.getLast?.getD head := by
  rcases List.eq_nil_or_concat l with rfl | ⟨m, c, rfl⟩
  · exact ring.backward
  · have path := ring.backward
    rw [List.concat_eq_append, List.reverse_append] at path
    simpa using path.1

theorem prev_first (ring : Circular next prev head (x :: l)) : prev x = head := by
  have back := ring.backward
  rw [List.reverse_cons, Path.concat] at back
  exact back.2

theorem prev_head_eq_iff (ring : Circular next prev head l) : prev head = head ↔ l = [] := by
  rcases List.eq_nil_or_concat l with rfl | ⟨m, c, rfl⟩
  · simpa using ring.prev_head
  · have last : prev head = c := by simpa using ring.prev_head
    have outside := ring.head_notMem
    simp only [List.concat_eq_append, List.append_eq_nil_iff, reduceCtorEq, and_false, iff_false]
    rintro same
    exact outside (by simp [← last, same])

/-- Being linked is being led to from the head. -/
theorem mem_iff_reaches (ring : Circular next prev head l) :
    x ∈ head :: l ↔ ∃ k, next^[k] head = x := by
  constructor
  · intro member
    rcases List.mem_cons.mp member with rfl | inside
    · exact ⟨0, rfl⟩
    · exact ring.forward.mem_reaches inside
  · rintro ⟨k, rfl⟩
    exact ring.forward.reaches_mem k

variable [DecidableEq α]

/-- Linking a new cell in between the head and the first cell. -/
theorem insertFront (ring : Circular next prev head l) (fresh : n ∉ head :: l) :
    Circular (Function.update (Function.update next n (next head)) head n)
      (Function.update (Function.update prev (next head) n) n head) head (n :: l) := by
  have notHead : n ≠ head := List.ne_of_not_mem_cons fresh
  have outside : n ∉ l := List.not_mem_of_not_mem_cons fresh
  have headOutside := ring.head_notMem
  refine ⟨⟨by simp, ring.forward.restart (by simp [notHead]) ?_⟩, ?_, ?_⟩
  · intro y member
    rw [Function.update_of_ne (ne_of_mem_of_not_mem member headOutside),
      Function.update_of_ne (ne_of_mem_of_not_mem member outside)]
  · rw [List.reverse_cons, Path.concat]
    refine ⟨?_, by simp⟩
    cases l with
    | nil =>
        have empty : next head = head := ring.forward
        simp [Path, empty, notHead.symm]
    | cons x l =>
        have first : next head = x := ring.forward.1
        have back := ring.backward
        rw [List.reverse_cons, Path.concat] at back ⊢
        have xNotHead : x ≠ head := (List.ne_of_not_mem_cons headOutside).symm
        have xNotNew : x ≠ n := (List.ne_of_not_mem_cons outside).symm
        have xOutside : x ∉ l := (List.nodup_cons.mp (List.nodup_cons.mp ring.nodup).2).1
        refine ⟨back.1.congr ?_, by simp [first, xNotNew]⟩
        intro y member
        have notX : y ≠ x := by
          rcases List.mem_cons.mp member with rfl | inside
          · exact xNotHead.symm
          · exact ne_of_mem_of_not_mem (List.mem_reverse.mp inside) xOutside
        have notNew : y ≠ n := by
          rcases List.mem_cons.mp member with rfl | inside
          · exact notHead.symm
          · exact ne_of_mem_of_not_mem (List.mem_cons_of_mem x (List.mem_reverse.mp inside)) outside
        rw [Function.update_of_ne notNew, first, Function.update_of_ne notX]
  · exact List.Nodup.cons (by simp [notHead.symm, headOutside])
      (List.Nodup.cons outside (List.nodup_cons.mp ring.nodup).2)

/-- Unlinking the last cell. -/
theorem removeBack (ring : Circular next prev head (l ++ [x])) :
    Circular (Function.update next (prev x) head) (Function.update prev head (prev x)) head l := by
  have nodup := ring.nodup
  have back := ring.backward
  rw [List.reverse_append, List.reverse_singleton, List.singleton_append] at back
  have forth := Path.concat.mp ring.forward
  have headOutside : head ∉ l := fun member => ring.head_notMem (List.mem_append_left _ member)
  refine ⟨?_, back.2.restart (by simp) ?_, nodup.sublist (by simp)⟩
  · rcases List.eq_nil_or_concat l with rfl | ⟨m, y, rfl⟩
    · have last : prev x = head := back.2
      simp [Path, last]
    · rw [List.concat_eq_append] at *
      have last : prev x = y := by
        have second := back.2
        rw [List.reverse_append] at second
        exact second.1
      rw [last]
      have path := Path.concat.mp forth.1
      refine Path.concat.mpr ⟨path.1.congr ?_, by simp⟩
      intro z member
      have notLast : z ≠ y := by
        rcases List.mem_cons.mp member with rfl | inside
        · exact fun same => headOutside (by simp [same])
        · rintro rfl
          have := List.nodup_append.mp (List.nodup_append.mp (List.nodup_cons.mp nodup).2).1
          exact this.2.2 z inside z (List.mem_singleton.mpr rfl) rfl
      rw [Function.update_of_ne notLast]
  · intro y member
    exact Function.update_of_ne
      (ne_of_mem_of_not_mem (List.mem_reverse.mp member) headOutside) _ _

/-- Unlinking the first cell. -/
theorem removeFront (ring : Circular next prev head (x :: l)) :
    Circular (Function.update next head (next x)) (Function.update prev (next x) head) head l := by
  have back := ring.symm
  rw [List.reverse_cons] at back
  have rest := back.removeBack.symm
  rwa [List.reverse_reverse] at rest

end Circular

end CircularList
