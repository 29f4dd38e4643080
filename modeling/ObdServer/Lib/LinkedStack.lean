import Mathlib.Data.List.Basic
import Mathlib.Logic.Function.Basic

/-! # Linked stacks

A stack kept as a chain of links through its own nodes, the newest node first.
-/

namespace LinkedStack

variable {α : Type*} {next next' : α → Option α} {first : Option α} {a b : α} {l m : List α}

/-- From `first` the links lead through the nodes of `l` and then end. -/
def Chain (next : α → Option α) : Option α → List α → Prop
  | first, [] => first = none
  | first, a :: l => first = some a ∧ Chain next (next a) l

namespace Chain

theorem nil_of_none (chain : Chain next none l) : l = [] := by
  cases l with
  | nil => rfl
  | cons a l => cases chain.1

/-- The first node and the chain behind it. -/
theorem uncons (chain : Chain next (some a) l) : ∃ rest, l = a :: rest ∧
    Chain next (next a) rest := by
  cases l with
  | nil => cases chain
  | cons b rest =>
      obtain ⟨same, tail⟩ := chain
      obtain rfl := Option.some.inj same
      exact ⟨rest, rfl, tail⟩

theorem push (chain : Chain next first l) (linked : next a = first) :
    Chain next (some a) (a :: l) :=
  ⟨rfl, linked ▸ chain⟩

/-- Only the links of the stack's own nodes matter. -/
theorem congr (chain : Chain next first l) (same : ∀ a ∈ l, next' a = next a) :
    Chain next' first l := by
  induction l generalizing first with
  | nil => exact chain
  | cons a l ih =>
      obtain ⟨start, tail⟩ := chain
      refine ⟨start, ?_⟩
      rw [same a List.mem_cons_self]
      exact ih tail fun b member => same b (List.mem_cons_of_mem a member)

theorem update [DecidableEq α] (chain : Chain next first l) (outside : b ∉ l) (v : Option α) :
    Chain (Function.update next b v) first l :=
  chain.congr fun _ member => Function.update_of_ne (ne_of_mem_of_not_mem member outside) _ _

theorem unique (left : Chain next first l) (right : Chain next first m) : l = m := by
  induction l generalizing first m with
  | nil =>
      cases left
      exact right.nil_of_none.symm
  | cons a l ih =>
      obtain ⟨rfl, tail⟩ := left
      obtain ⟨rest, rfl, tail'⟩ := right.uncons
      rw [ih tail tail']

end Chain

end LinkedStack
