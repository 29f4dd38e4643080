import Mathlib.Data.Nat.Digits.Defs

/-! # Words in memory

A number as the bytes of a word, the least significant first.
-/

namespace LittleEndian

/-- The bytes of a word. -/
def bytes : Nat → Nat → List UInt8
  | 0, _ => []
  | width + 1, v => UInt8.ofNat v :: bytes width (v / 256)

/-- The number a word holds. -/
def value (word : List UInt8) : Nat := Nat.ofDigits 256 (word.map UInt8.toNat)

theorem bytes_length (width v : Nat) : (bytes width v).length = width := by
  induction width generalizing v with
  | zero => rfl
  | succ width ih => rw [bytes, List.length_cons, ih]

/-- A number that fits is what is read after it has been written. -/
theorem value_bytes {width v : Nat} (fits : v < 256 ^ width) : value (bytes width v) = v := by
  induction width generalizing v with
  | zero =>
      rw [Nat.pow_zero, Nat.lt_one_iff] at fits
      rw [fits]
      rfl
  | succ width ih =>
      have rest : v / 256 < 256 ^ width := by
        rw [Nat.pow_succ] at fits
        exact Nat.div_lt_of_lt_mul (by omega)
      have tail := ih rest
      rw [value] at tail
      rw [value, bytes, List.map_cons, Nat.ofDigits_cons, tail, UInt8.toNat_ofNat']
      exact Nat.mod_add_div v 256

end LittleEndian
