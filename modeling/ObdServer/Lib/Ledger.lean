import Mathlib.Data.List.Count
import Mathlib.Data.List.Nodup

/-! # Ledgers

Items lie at places, and a ledger lists what lies where. If every item is on the ledger
once, it lies at one place only; moving an item is a change at one or two places, which
the counts of the ledger show.
-/

namespace Ledger

variable {Item Place α : Type*} [DecidableEq Item] {b : Item}

/-- An item that is counted once over all places lies at exactly one of them. -/
theorem exclusive {lies : Place → List Item} {total : Nat}
    (cover : 0 < total → ∃ p, b ∈ lies p)
    (two : ∀ p q, p ≠ q → (lies p).count b + (lies q).count b ≤ total) (once : total = 1) :
    ∃! p, b ∈ lies p := by
  obtain ⟨p, here⟩ := cover (once ▸ Nat.one_pos)
  refine ⟨p, here, fun q there => ?_⟩
  by_contra other
  have countHere := List.count_pos_iff.mpr here
  have countThere := List.count_pos_iff.mpr there
  have both := two q p other
  omega

/-! ## What a list of holders holds -/

variable {f : α → List Item} {l : List α} {i j : Nat} {x y : α}

/-- One holder changes what it holds. -/
theorem count_flatMap_set (found : l[i]? = some x) (y : α) :
    ((l.set i y).flatMap f).count b + (f x).count b =
      (l.flatMap f).count b + (f y).count b := by
  induction l generalizing i with
  | nil => cases found
  | cons z l ih =>
      cases i with
      | zero =>
          obtain rfl : z = x := by simpa using found
          simp only [List.set_cons_zero, List.flatMap_cons, List.count_append]
          omega
      | succ i =>
          have rest := ih (i := i) (by simpa using found)
          simp only [List.set_cons_succ, List.flatMap_cons, List.count_append]
          omega

theorem count_le_flatMap (found : l[i]? = some x) : (f x).count b ≤ (l.flatMap f).count b := by
  induction l generalizing i with
  | nil => cases found
  | cons z l ih =>
      rw [List.flatMap_cons, List.count_append]
      cases i with
      | zero =>
          obtain rfl : z = x := by simpa using found
          exact Nat.le_add_right _ _
      | succ i => exact Nat.le_add_left_of_le (ih (i := i) (by simpa using found))

theorem count_two_le_flatMap (first : l[i]? = some x) (second : l[j]? = some y)
    (other : i ≠ j) : (f x).count b + (f y).count b ≤ (l.flatMap f).count b := by
  induction l generalizing i j with
  | nil => cases first
  | cons z l ih =>
      rw [List.flatMap_cons, List.count_append]
      cases i with
      | zero =>
          cases j with
          | zero => exact absurd rfl other
          | succ j =>
              obtain rfl : z = x := by simpa using first
              exact Nat.add_le_add_left (count_le_flatMap (i := j) (by simpa using second)) _
      | succ i =>
          cases j with
          | zero =>
              obtain rfl : z = y := by simpa using second
              rw [Nat.add_comm]
              exact Nat.add_le_add_left (count_le_flatMap (i := i) (by simpa using first)) _
          | succ j =>
              exact Nat.le_add_left_of_le (ih (by simpa using first) (by simpa using second)
                (fun same => other (by rw [same])))

omit [DecidableEq Item] in
theorem mem_flatMap_iff : b ∈ l.flatMap f ↔ ∃ (i : Nat) (x : α), l[i]? = some x ∧ b ∈ f x := by
  rw [List.mem_flatMap]
  constructor
  · rintro ⟨x, member, held⟩
    obtain ⟨i, found⟩ := List.mem_iff_getElem?.mp member
    exact ⟨i, x, found, held⟩
  · rintro ⟨i, x, found, held⟩
    exact ⟨x, List.mem_iff_getElem?.mpr ⟨i, found⟩, held⟩

/-! ## Weights -/

/-- What all in a list weigh together. -/
def weight (w : α → Nat) : List α → Nat
  | [] => 0
  | x :: l => w x + weight w l

theorem weight_set {w : α → Nat} (found : l[i]? = some x) (y : α) :
    weight w (l.set i y) + w x = weight w l + w y := by
  induction l generalizing i with
  | nil => cases found
  | cons z l ih =>
      cases i with
      | zero =>
          obtain rfl : z = x := by simpa using found
          simp only [List.set_cons_zero, weight]
          omega
      | succ i =>
          have rest := ih (i := i) (by simpa using found)
          simp only [List.set_cons_succ, weight]
          omega

theorem weight_congr {w w' : α → Nat} (same : ∀ x ∈ l, w x = w' x) : weight w l = weight w' l := by
  induction l with
  | nil => rfl
  | cons z l ih =>
      rw [List.forall_mem_cons] at same
      rw [weight, weight, same.1, ih same.2]

/-- One that stands in the list once changes its weight. -/
theorem weight_update [DecidableEq α] {w : α → Nat} (nodup : l.Nodup) (member : x ∈ l) (n : Nat) :
    weight (Function.update w x n) l + w x = weight w l + n := by
  induction l with
  | nil => cases member
  | cons z l ih =>
      obtain ⟨outside, nodup⟩ := List.nodup_cons.mp nodup
      by_cases here : x = z
      · subst here
        have others : weight (Function.update w x n) l = weight w l :=
          weight_congr fun y inside =>
            Function.update_of_ne (ne_of_mem_of_not_mem inside outside) _ _
        rw [weight, weight, Function.update_self, others]
        omega
      · have rest := ih nodup ((List.mem_cons.mp member).resolve_left here)
        rw [weight, weight, Function.update_of_ne (Ne.symm here)]
        omega

theorem weight_le {w : α → Nat} {most : Nat} (each : ∀ x, w x ≤ most) (l : List α) :
    weight w l ≤ most * l.length := by
  induction l with
  | nil => exact Nat.zero_le _
  | cons x l ih =>
      have here := each x
      rw [weight, List.length_cons, Nat.mul_succ]
      omega

end Ledger
