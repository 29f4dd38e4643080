import Mathlib.Data.List.Basic
import ObdServer.Lib.WhileLoop

/-! # The client's socket

client.c asks for a socket until `network_socket_init` of OBD_network.h returns no negative
number. That function returns the descriptor as an `s8_t`, so that half of all descriptors
look like failures and stay open.
-/

namespace ObdServer

open WhileLoop

/-- `network_t`, whose `socket_init` is `network_socket_init` from `network_init` on. -/
structure Network where
  socket : Int32

/-- `network_socket_init`, where `socket` returns `result`. -/
def networkSocketInit (network : Network) (result : Int32) : Int8 × Network :=
  let network := { network with socket := result }
  (network.socket.toInt8, network)

/-- The loop of `thread_func` behind a call in its condition. -/
structure ConnectState where
  net : Network
  /-- The value of the call. -/
  value : Int8
  /-- What `socket` returns from now on. -/
  results : Nat → Int32
  /-- What `socket` has returned, oldest first. -/
  returned : List Int32

namespace ConnectState

/-- `net->socket_init(net)`. -/
def call (s : ConnectState) : ConnectState :=
  let (value, net) := networkSocketInit s.net (s.results 0)
  { net, value, results := fun k => s.results (k + 1), returned := s.returned ++ [s.results 0] }

/-- The first call, with `net->socket` not initialised. -/
def start (net : Network) (results : Nat → Int32) : ConnectState :=
  call { net, value := 0, results, returned := [] }

def more (s : ConnectState) : Bool := s.value < 0

end ConnectState

/-- `while(net->socket_init(net)< 0)`, with a bound on its iterations. Its body only waits. -/
def connectLoop (fuel : Nat) (net : Network) (results : Nat → Int32) : Option ConnectState :=
  run ConnectState.more ConnectState.call fuel (.start net results)

/-- What `socket` may return one call after the other: -1, or a descriptor that is not open.
    Nothing closes the ones returned before. -/
def SocketResults (isOpen : Int32 → Prop) (results : Nat → Int32) : Prop :=
  ∀ k, results k = -1 ∨
    0 ≤ results k ∧ ¬ isOpen (results k) ∧ ∀ i < k, results i ≠ results k

variable {isOpen : Int32 → Prop} {results : Nat → Int32} {net : Network} {s : ConnectState}
  {fuel n : Nat}

/-- The calls made in `n` iterations. -/
theorem ConnectState.iterate_call (net : Network) (results : Nat → Int32) (n : Nat) :
    call^[n] (start net results) =
      { net := { socket := results n }
        value := (results n).toInt8
        results := fun k => results (k + n + 1)
        returned := (List.range (n + 1)).map results } := by
  induction n with
  | zero => rfl
  | succ n ih =>
      rw [Function.iterate_succ_apply', ih, List.range_succ (n := n + 1), List.map_append]
      simp only [call, networkSocketInit, Nat.zero_add, List.map_singleton, mk.injEq, true_and,
        and_true]
      funext k
      congr 1
      omega

theorem iterates_call (net : Network) (failed : ∀ k < n, (results k).toInt8 < 0)
    (taken : ¬ (results n).toInt8 < 0) :
    Iterates ConnectState.more ConnectState.call n (.start net results) := by
  simpa only [Iterates, ConnectState.iterate_call, ConnectState.more, decide_eq_true_eq] using
    And.intro failed taken

/-- The descriptors taken for failures. -/
theorem toInt8_neg_iff (fd : Int32) : fd.toInt8 < 0 ↔ 128 ≤ fd.toInt % 256 := by
  have zero : (0 : Int8).toInt = 0 := rfl
  rw [Int8.lt_iff_toInt_lt, Int32.toInt_toInt8, zero, Int.bmod]
  split_ifs <;> omega

/-- A call that does not return a negative number has a descriptor. -/
theorem SocketResults.nonneg (possible : SocketResults isOpen results) {k : Nat}
    (taken : ¬ (results k).toInt8 < 0) : 0 ≤ results k := by
  rcases possible k with failed | ⟨positive, -⟩
  · rw [failed] at taken
    exact absurd (by decide) taken
  · exact positive

/-- The loop leaves no descriptor open but the one in `net->socket` exactly when no
    descriptor it gets has its eighth bit set. -/
theorem connectLoop_leaks_none_iff (possible : SocketResults isOpen results)
    (ends : connectLoop fuel net results = some s) :
    s.returned.filter (0 ≤ ·) = [s.net.socket] ↔
      ∀ fd ∈ s.returned, 0 ≤ fd → fd.toInt % 256 < 128 := by
  obtain ⟨n, -, ⟨before, after⟩, rfl⟩ := iterates_of_run ends
  simp only [ConnectState.iterate_call, ConnectState.more, decide_eq_true_eq] at before after ⊢
  have success := possible.nonneg after
  have last : [results n].filter (0 ≤ ·) = [results n] := by simp [success]
  have first : ∀ fd ∈ (List.range n).map results, fd.toInt8 < 0 := by
    intro fd member
    obtain ⟨k, early, rfl⟩ := List.mem_map.mp member
    exact before k (List.mem_range.mp early)
  rw [List.range_succ, List.map_append, List.map_singleton, List.filter_append, last,
    List.append_left_eq_self, List.filter_eq_nil_iff]
  constructor
  · intro failed fd member positive
    rcases List.mem_append.mp member with early | here
    · exact absurd (decide_eq_true positive) (failed fd early)
    · rw [List.mem_singleton] at here
      rw [toInt8_neg_iff] at after
      rw [here]
      omega
  · intro small fd early positive
    have less := small fd (List.mem_append_left _ early) (of_decide_eq_true positive)
    have negative := (toInt8_neg_iff fd).mp (first fd early)
    omega

/-- `socket` fails once and then gives descriptor 3. -/
def secondCall (k : Nat) : Int32 := if k = 1 then 3 else -1

theorem connectLoop_leaks_none_iff_secondCall :
    [-1, 3].filter ((0 : Int32) ≤ ·) = [3] ↔
      ∀ fd ∈ ([-1, 3] : List Int32), 0 ≤ fd → fd.toInt % 256 < 128 := by
  have possible : SocketResults (· < 3) secondCall := by
    intro k
    by_cases second : k = 1
    · subst second
      refine .inr ⟨by decide, by decide, fun i early => ?_⟩
      rw [Nat.lt_one_iff.mp early]
      decide
    · exact .inl (if_neg second)
  have ends : connectLoop 1 { socket := 0 } secondCall =
      some (ConnectState.call (.start { socket := 0 } secondCall)) := rfl
  exact connectLoop_leaks_none_iff possible ends

/-- With the descriptors below 128 open, `socket` gives the next ones in turn. -/
def busyCalls (k : Nat) : Int32 := if k ≤ 128 then Int32.ofNat (128 + k) else -1

theorem busyCalls_possible : SocketResults (· < 128) busyCalls := by
  intro k
  by_cases few : k ≤ 128
  · have all : ∀ k : Fin 129, 0 ≤ busyCalls k.val ∧ ¬ busyCalls k.val < 128 ∧
        (busyCalls k.val).toInt = 128 + k.val := by
      decide +kernel
    obtain ⟨positive, closed, here⟩ := all ⟨k, Nat.lt_succ_of_le few⟩
    refine .inr ⟨positive, closed, fun i early same => ?_⟩
    have there := (all ⟨i, by omega⟩).2.2
    rw [same, here] at there
    simp only at there
    omega
  · exact .inl (if_neg few)

/-- The loop opens 129 sockets and keeps the last one. -/
theorem busyCalls_leaks :
    SocketResults (· < 128) busyCalls ∧
      ∃ s, connectLoop 128 { socket := 0 } busyCalls = some s ∧
        s.returned.filter (0 ≤ ·) ≠ [s.net.socket] := by
  have failed : ∀ k : Fin 128, (busyCalls k.val).toInt8 < 0 := by decide +kernel
  have loop := iterates_call (n := 128) { socket := 0 } (fun k few => failed ⟨k, few⟩)
    (by decide)
  refine ⟨busyCalls_possible, _, run_of_iterates loop (Nat.le_refl _), ?_⟩
  rw [ConnectState.iterate_call]
  decide +kernel

end ObdServer
