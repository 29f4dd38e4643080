import Mathlib.Data.List.GetD
import ObdServer.Message

/-! # What the decoder's loop computes

One iteration reads two bytes, takes them as an escape marker or emits one byte, and
changes nothing of the block but `hex`. As long as a message is at most 254 bytes long
its 8-bit index does not wrap, and the loop makes as many iterations as there are pairs.
-/

namespace ObdServer

open WhileLoop

variable {o o' : Obd} {s : DecodeState} {start n : Nat}

theorem Obd.byteAt_data {n : Nat} (inside : n < bufSize) : o.byteAt n = o.data ⟨n, inside⟩ :=
  dif_pos inside

/-! ## One iteration -/

namespace DecodeState

/-- The pair read is taken as an escape marker. -/
def takesEscape (start : Nat) (s : DecodeState) : Bool :=
  !s.flag &&
    str2hex (s.obd.byteAt (start + s.i.toNat)) (s.obd.byteAt (start + s.i.toNat + 1)) = 0xAA

/-- An iteration takes an escape marker and writes nothing, or it emits a byte. -/
theorem step_cases (start : Nat) (s : DecodeState) :
    (s.takesEscape start = true ∧ step start s = { s with i := s.i + 2, flag := true }) ∨
      (s.takesEscape start = false ∧
        ∃ v, step start s = { s with i := s.i + 2, flag := false }.emit v) := by
  cases flag : s.flag with
  | true =>
      refine .inr ⟨by simp [takesEscape, flag], ?_⟩
      simp only [step, flag, if_true]
      exact ⟨_, rfl⟩
  | false =>
      by_cases escape : str2hex (s.obd.byteAt (start + s.i.toNat))
          (s.obd.byteAt (start + s.i.toNat + 1)) = 0xAA
      · exact .inl ⟨by simp [takesEscape, flag, escape], by simp [step, flag, escape]⟩
      · refine .inr ⟨by simp [takesEscape, escape], ?_⟩
        simp only [step, flag, escape, if_false]
        exact ⟨_, rfl⟩

theorem step_i (start : Nat) (s : DecodeState) : (step start s).i = s.i + 2 := by
  rcases step_cases start s with ⟨-, result⟩ | ⟨-, v, result⟩
  · rw [result]
  · rw [result]
    rfl

theorem step_data (start : Nat) (s : DecodeState) : (step start s).obd.data = s.obd.data := by
  rcases step_cases start s with ⟨-, result⟩ | ⟨-, v, result⟩
  · rw [result]
  · rw [result]
    rfl

theorem step_dataLength (start : Nat) (s : DecodeState) :
    (step start s).obd.dataLength = s.obd.dataLength := by
  rcases step_cases start s with ⟨-, result⟩ | ⟨-, v, result⟩
  · rw [result]
  · rw [result]
    rfl

/-- While it does not wrap, `j` moves with every write. -/
theorem step_j (start : Nat) (s : DecodeState) (room : s.j.toNat < 255) :
    (step start s).j.toNat = s.j.toNat + (!s.takesEscape start).toNat := by
  have one : (1 : UInt8).toNat = 1 := rfl
  rcases step_cases start s with ⟨escape, result⟩ | ⟨plain, v, result⟩
  · rw [escape, result]
    rfl
  · rw [plain, result]
    simp only [emit, UInt8.toNat_add, one, Bool.not_false, Bool.toNat_true]
    omega

/-- What is in `hex` in front of `j` stays. -/
theorem step_hex (start : Nat) (s : DecodeState) (m : Fin bufSize) (below : m.val < s.j.toNat) :
    (step start s).obd.hex m = s.obd.hex m := by
  rcases step_cases start s with ⟨-, result⟩ | ⟨-, v, result⟩
  · rw [result]
  · rw [result]
    apply Function.update_of_ne
    intro same
    cases same
    exact Nat.lt_irrefl _ below

/-! ## The number of iterations -/

theorem iterate_dataLength (start k : Nat) (s : DecodeState) :
    ((step start)^[k] s).obd.dataLength = s.obd.dataLength := by
  induction k generalizing s with
  | zero => rfl
  | succ k ih => rw [Function.iterate_succ_apply, ih, step_dataLength]

/-- What has been emitted stays. -/
theorem iterate_hex {k : Nat} (room : s.j.toNat + k < 256) (start : Nat) {m : Fin bufSize}
    (below : m.val < s.j.toNat) : ((step start)^[k] s).obd.hex m = s.obd.hex m := by
  induction k generalizing s with
  | zero => rfl
  | succ k ih =>
      have next := step_j start s (by omega)
      have slow : (!s.takesEscape start).toNat ≤ 1 := Bool.toNat_le _
      rw [Function.iterate_succ_apply, ih (by omega) (by omega), step_hex start s m below]

theorem step_i_toNat (small : s.i.toNat + 2 < 256) (start : Nat) :
    (step start s).i.toNat = s.i.toNat + 2 := by
  have two : (2 : UInt8).toNat = 2 := rfl
  rw [step_i, UInt8.toNat_add, two]
  omega

theorem iterate_i {k : Nat} (small : s.i.toNat + 2 * k < 256) :
    ((step start)^[k] s).i.toNat = s.i.toNat + 2 * k := by
  induction k generalizing s with
  | zero => rfl
  | succ k ih =>
      have next := step_i_toNat (s := s) (by omega) start
      rw [Function.iterate_succ_apply, ih (by omega), next]
      omega

theorem more_iff (s : DecodeState) : s.more = true ↔ s.i.toNat < s.obd.dataLength.toNat := by
  simp only [more, decide_eq_true_eq, UInt8.lt_iff_toNat_lt]

/-- Two bytes an iteration, the last one possibly alone. -/
theorem iterates (short : o.dataLength.toNat ≤ 254) (start : Nat) :
    Iterates more (step start) ((o.dataLength.toNat + 1) / 2) (.start o) := by
  have zero : (DecodeState.start o).i.toNat = 0 := rfl
  have length : ∀ k, ((step start)^[k] (.start o)).obd.dataLength = o.dataLength :=
    fun k => iterate_dataLength start k _
  constructor
  · intro k early
    rw [more_iff, length, iterate_i (by omega), zero]
    omega
  · rw [more_iff, length, iterate_i (by omega), zero]
    omega

end DecodeState

/-- With both markers in order the decoder runs its loop and returns `TRUE`. -/
theorem filter_of_ordered {stop : Nat} (first : strstr o.cstr beginMark = some start)
    (last : strstr o.cstr endMark = some stop) (ordered : start ≤ stop) (fuel : Nat) :
    obdFilterEscapeAndTransferToHex fuel o =
      (run DecodeState.more (DecodeState.step start) fuel (.start o)).map
        fun s => (true, s.obd) := by
  unfold obdFilterEscapeAndTransferToHex
  rw [first, last]
  exact if_neg (Nat.not_lt.mpr ordered)

/-- Otherwise it returns `FALSE` and leaves the block as it was. -/
theorem filter_of_unordered (bad : ∀ start stop, strstr o.cstr beginMark = some start →
    strstr o.cstr endMark = some stop → stop < start) (fuel : Nat) :
    obdFilterEscapeAndTransferToHex fuel o = some (false, o) := by
  unfold obdFilterEscapeAndTransferToHex
  cases first : strstr o.cstr beginMark with
  | none => rfl
  | some start =>
      cases last : strstr o.cstr endMark with
      | none => rfl
      | some stop => exact if_pos (bad start stop first last)

theorem filter_unique {fuel fuel' : Nat} {r r' : Bool × Obd}
    (left : obdFilterEscapeAndTransferToHex fuel o = some r)
    (right : obdFilterEscapeAndTransferToHex fuel' o = some r') : r = r' := by
  by_cases ordered : ∃ start stop, strstr o.cstr beginMark = some start ∧
      strstr o.cstr endMark = some stop ∧ start ≤ stop
  · obtain ⟨start, stop, first, last, inOrder⟩ := ordered
    rw [filter_of_ordered first last inOrder, Option.map_eq_some_iff] at left right
    obtain ⟨s, ends, rfl⟩ := left
    obtain ⟨t, ends', rfl⟩ := right
    rw [run_unique ends ends']
  · have bad : ∀ start stop, strstr o.cstr beginMark = some start →
        strstr o.cstr endMark = some stop → stop < start := fun start stop first last =>
      Nat.not_le.mp fun inOrder => ordered ⟨start, stop, first, last, inOrder⟩
    rw [filter_of_unordered bad, Option.some_inj] at left right
    exact left.symm.trans right

/-- On a message of at most 254 bytes its loop makes one iteration a pair. -/
theorem filter_of_markers {stop fuel : Nat} (short : o.dataLength.toNat ≤ 254)
    (first : strstr o.cstr beginMark = some start) (last : strstr o.cstr endMark = some stop)
    (ordered : start ≤ stop) (enough : (o.dataLength.toNat + 1) / 2 ≤ fuel) :
    obdFilterEscapeAndTransferToHex fuel o = some (true,
      ((DecodeState.step start)^[(o.dataLength.toNat + 1) / 2] (.start o)).obd) := by
  have loop := run_of_iterates (DecodeState.iterates short start) enough
  exact (filter_of_ordered first last ordered fuel).trans
    (congrArg (Option.map fun s => (true, s.obd)) loop)

/-! ## The bytes emitted -/

/-- The output array after the bytes `out` have been emitted from position `j` on. -/
def writeFrom (hex : Fin bufSize → UInt8) : UInt8 → List UInt8 → Fin bufSize → UInt8
  | _, [] => hex
  | j, v :: out => writeFrom (Function.update hex ⟨j.toNat, j.toNat_lt⟩ v) (j + 1) out

/-- The bytes emitted for a text of pairs, and whether an escape is still pending. -/
def decodePairs : Bool → List UInt8 → List UInt8 × Bool
  | true, _ :: second :: text =>
      let (out, flag) := decodePairs false text
      (str2hex second second :: out, flag)
  | false, first :: second :: text =>
      if str2hex first second = 0xAA then decodePairs true text
      else
        let (out, flag) := decodePairs false text
        (str2hex first second :: out, flag)
  | flag, _ => ([], flag)

/-- At most one byte is emitted a pair. -/
theorem decodePairs_length (flag : Bool) (text : List UInt8) :
    2 * (decodePairs flag text).1.length ≤ text.length := by
  induction flag, text using decodePairs.induct with
  | case1 first second text out flag _ ih =>
      simp only [decodePairs, List.length_cons]
      omega
  | case2 first second text escape ih =>
      simp only [decodePairs, if_pos escape, List.length_cons]
      omega
  | case3 first second text plain out flag _ ih =>
      simp only [decodePairs, if_neg plain, List.length_cons]
      omega
  | case4 text flag =>
      match flag, text with
      | true, [] | true, [_] | false, [] | false, [_] => exact Nat.zero_le _
      | true, _ :: _ :: _ | false, _ :: _ :: _ => simp at *

/-- A text of whole pairs leaves its escape flag to what follows it. -/
theorem decodePairs_append (flag : Bool) {front : List UInt8} (even : front.length % 2 = 0)
    (rest : List UInt8) :
    decodePairs flag (front ++ rest) =
      ((decodePairs flag front).1 ++ (decodePairs (decodePairs flag front).2 rest).1,
        (decodePairs (decodePairs flag front).2 rest).2) := by
  induction flag, front using decodePairs.induct with
  | case1 first second text out flag _ ih =>
      simp [decodePairs, ih (by simp only [List.length_cons] at even; omega)]
  | case2 first second text escape ih =>
      simp [decodePairs, escape, ih (by simp only [List.length_cons] at even; omega)]
  | case3 first second text plain out flag _ ih =>
      simp [decodePairs, plain, ih (by simp only [List.length_cons] at even; omega)]
  | case4 text flag =>
      match flag, text with
      | true, [] | false, [] => rfl
      | true, [_] | false, [_] => simp at even
      | true, _ :: _ :: _ | false, _ :: _ :: _ => simp at *

/-- The text stands in `data` from position `pos` on. -/
def Window (o : Obd) : Nat → List UInt8 → Prop
  | _, [] => True
  | pos, c :: text => pos < bufSize ∧ o.byteAt pos = c ∧ Window o (pos + 1) text

theorem Window.congr {pos : Nat} {text : List UInt8} (window : Window o pos text)
    (same : o'.data = o.data) : Window o' pos text := by
  induction text generalizing pos with
  | nil => trivial
  | cons c text ih =>
      obtain ⟨inside, byte, rest⟩ := window
      refine ⟨inside, ?_, ih rest⟩
      rw [Obd.byteAt_data inside, same, ← byte, Obd.byteAt_data inside]

theorem writeFrom_apply {hex : Fin bufSize → UInt8} {j : UInt8} {out : List UInt8}
    (room : j.toNat + out.length ≤ 256) (m : Fin bufSize) :
    writeFrom hex j out m =
      if j.toNat ≤ m.val then out.getD (m.val - j.toNat) (hex m) else hex m := by
  induction out generalizing hex j with
  | nil => simp [writeFrom]
  | cons v out ih =>
      have one : (1 : UInt8).toNat = 1 := rfl
      rw [List.length_cons] at room
      rw [writeFrom]
      rcases Nat.lt_or_ge (j.toNat + 1) 256 with inside | full
      · have next : (j + 1).toNat = j.toNat + 1 := by
          rw [UInt8.toNat_add, one]
          omega
        rw [ih (by omega), next]
        rcases Nat.lt_trichotomy m.val j.toNat with below | same | above
        · have other : m ≠ ⟨j.toNat, j.toNat_lt⟩ := fun h => by simp [h] at below
          rw [if_neg (by omega), if_neg (by omega), Function.update_of_ne other]
        · have hit : m = ⟨j.toNat, j.toNat_lt⟩ := Fin.ext same
          simp [hit, show ¬ j.toNat + 1 ≤ j.toNat by omega]
        · have other : m ≠ ⟨j.toNat, j.toNat_lt⟩ := fun h => by simp [h] at above
          obtain ⟨d, gap⟩ : ∃ d, m.val - j.toNat = d + 1 := ⟨m.val - j.toNat - 1, by omega⟩
          have shifted : m.val - (j.toNat + 1) = d := by omega
          rw [if_pos (by omega), if_pos (by omega), Function.update_of_ne other, gap, shifted,
            List.getD_cons_succ]
      · obtain rfl : out = [] := List.length_eq_zero_iff.mp (by omega)
        have bound : m.val < 256 := m.isLt
        by_cases same : m.val = j.toNat
        · have hit : m = ⟨j.toNat, j.toNat_lt⟩ := Fin.ext same
          simp [writeFrom, hit]
        · have other : m ≠ ⟨j.toNat, j.toNat_lt⟩ := fun h => same (by simp [h])
          rw [writeFrom, Function.update_of_ne other, if_neg (by omega)]

namespace DecodeState

/-- While all its reads stay inside `data`, the loop decodes the text it reads. -/
theorem iterate_window {text : List UInt8} (even : text.length = 2 * n)
    (room : s.i.toNat + 2 * n < 256) (window : Window s.obd (start + s.i.toNat) text) :
    (step start)^[n] s =
      { i := s.i + UInt8.ofNat (2 * n)
        j := s.j + UInt8.ofNat (decodePairs s.flag text).1.length
        flag := (decodePairs s.flag text).2
        obd := { s.obd with hex := writeFrom s.obd.hex s.j (decodePairs s.flag text).1 } } := by
  induction n generalizing s text with
  | zero =>
      obtain rfl : text = [] := List.length_eq_zero_iff.mp even
      cases s with
      | mk i j flag obd => cases flag <;> simp [decodePairs, writeFrom]
  | succ n ih =>
      match text with
      | [] => simp at even
      | [_] => simp at even; omega
      | first :: second :: text =>
          obtain ⟨-, byte₀, -, byte₁, rest⟩ := window
          have next := step_i_toNat (s := s) (by omega) start
          have evenRest : text.length = 2 * n := by
            simp only [List.length_cons] at even
            omega
          have windowRest : Window (step start s).obd (start + (step start s).i.toNat) text := by
            rw [next]
            exact rest.congr (step_data start s)
          rw [Function.iterate_succ_apply, ih evenRest (by omega) windowRest]
          have index : s.i + 2 + UInt8.ofNat (2 * n) = s.i + UInt8.ofNat (2 * (n + 1)) := by
            rw [Nat.mul_add, UInt8.ofNat_add, UInt8.add_assoc, UInt8.add_comm 2]
            rfl
          have count : ∀ k, s.j + 1 + UInt8.ofNat k = s.j + UInt8.ofNat (k + 1) := by
            intro k
            rw [UInt8.ofNat_add, UInt8.add_assoc, UInt8.add_comm 1]
            rfl
          rw [step_i, index]
          cases flag : s.flag with
          | true =>
              simp [step, flag, byte₁, decodePairs, emit, writeFrom, count]
          | false =>
              by_cases escape : str2hex first second = 0xAA
              · simp [step, flag, byte₀, byte₁, decodePairs, escape]
              · simp [step, flag, byte₀, byte₁, decodePairs, escape, emit, writeFrom, count]

/-- What the first pairs emit is in `hex` however many iterations follow. -/
theorem iterate_emitted {text : List UInt8} {k : Nat} (even : text.length = 2 * n)
    (window : Window o start text) (enough : n ≤ k) (few : k ≤ 127) {m : Fin bufSize}
    (emitted : m.val < (decodePairs false text).1.length) :
    ((step start)^[k] (.start o)).obd.hex m = (decodePairs false text).1[m.val] := by
  have zero : (DecodeState.start o).i.toNat = 0 := rfl
  have first : (0 : UInt8).toNat = 0 := rfl
  have room := decodePairs_length false text
  obtain ⟨more, rfl⟩ := Nat.exists_eq_add_of_le enough
  have pairs := iterate_window (s := .start o) even (by omega) window
  have written : (step start)^[n] (.start o) =
      { i := 0 + UInt8.ofNat (2 * n)
        j := 0 + UInt8.ofNat (decodePairs false text).1.length
        flag := (decodePairs false text).2
        obd := { o with hex := writeFrom o.hex 0 (decodePairs false text).1 } } := pairs
  have index : (0 + UInt8.ofNat (decodePairs false text).1.length).toNat =
      (decodePairs false text).1.length := by
    rw [UInt8.zero_add, UInt8.toNat_ofNat']
    omega
  rw [Nat.add_comm, Function.iterate_add_apply, written, iterate_hex]
  · simp only
    rw [writeFrom_apply (by omega), first, if_pos (Nat.zero_le _), Nat.sub_zero,
      List.getD_eq_getElem _ _ emitted]
  · rw [index]
    omega
  · rw [index]
    exact emitted

end DecodeState

end ObdServer
