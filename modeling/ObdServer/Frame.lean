import Mathlib.Data.Fin.Basic
import ObdServer.Message

/-! # The frame format

What a frame says, independently of how the decoder reads it: bytes are written as two
hex digits in either case, a reserved byte is preceded by the pair AA, and the text
stands between the markers BB and EE.
-/

namespace ObdServer

/-- The value of a hex digit, in upper or lower case. -/
def hexValue (c : UInt8) : Option (Fin 16) :=
  if digit : '0'.toNat ≤ c.toNat ∧ c.toNat ≤ '9'.toNat then
    some ⟨c.toNat - 48, by simp only [Char.reduceToNat] at digit; omega⟩
  else if upper : 'A'.toNat ≤ c.toNat ∧ c.toNat ≤ 'F'.toNat then
    some ⟨c.toNat - 55, by simp only [Char.reduceToNat] at upper; omega⟩
  else if lower : 'a'.toNat ≤ c.toNat ∧ c.toNat ≤ 'f'.toNat then
    some ⟨c.toNat - 87, by simp only [Char.reduceToNat] at lower; omega⟩
  else none

/-- The digits `x` and `y` write the byte `b`. -/
def SpellsByte (b x y : UInt8) : Prop :=
  ∃ u v, hexValue x = some u ∧ hexValue y = some v ∧ b.toNat = 16 * u.val + v.val

instance (b x y : UInt8) : Decidable (SpellsByte b x y) :=
  inferInstanceAs (Decidable (∃ u v : Fin 16, hexValue x = some u ∧ hexValue y = some v ∧
    b.toNat = 16 * u.val + v.val))

/-- The bytes written with an escape. -/
def reserved : List UInt8 := [0xAA, 0xBB, 0xEE]

/-- The text writes the payload, reserved bytes with the escape AA in front. -/
inductive Spells : List UInt8 → List UInt8 → Prop where
  | nil : Spells [] []
  | plain {b x y : UInt8} {payload text : List UInt8} :
      b ∉ reserved → SpellsByte b x y → Spells payload text →
      Spells (b :: payload) (x :: y :: text)
  | escaped {b a a' x y : UInt8} {payload text : List UInt8} :
      b ∈ reserved → SpellsByte 0xAA a a' → SpellsByte b x y → Spells payload text →
      Spells (b :: payload) (a :: a' :: x :: y :: text)

/-- The text of a frame with the given payload text. -/
def frameText (body : List UInt8) : List UInt8 := beginMark ++ body ++ endMark

/-! ## Where a frame stands in a text -/

/-- `n` is the position of the first occurrence. -/
def FirstAt (needle text : List UInt8) (n : Nat) : Prop :=
  needle <+: text.drop n ∧ ∀ m < n, ¬ needle <+: text.drop m

instance (needle text : List UInt8) (n : Nat) : Decidable (FirstAt needle text n) :=
  inferInstanceAs (Decidable (_ ∧ _))

/-- What may follow the command of a frame: bytes as pairs of digits, or as the pair AA and
    another pair, then the end marker. Behind it may stand anything. -/
inductive FrameRest : List UInt8 → Prop where
  | done (text : List UInt8) : FrameRest (endMark ++ text)
  | plain {b x y : UInt8} {text : List UInt8} :
      b ≠ 0xAA → SpellsByte b x y → FrameRest text → FrameRest (x :: y :: text)
  | escaped {b a a' x y : UInt8} {text : List UInt8} :
      SpellsByte 0xAA a a' → SpellsByte b x y → FrameRest text →
      FrameRest (a :: a' :: x :: y :: text)

/-- A frame with the command `c` stands at the first begin marker of the text. -/
def HasFrame (text : List UInt8) (c : UInt8) : Prop :=
  ∃ n x y rest, FirstAt beginMark text n ∧ text.drop n = beginMark ++ x :: y :: rest ∧
    c ∉ reserved ∧ SpellsByte c x y ∧ FrameRest rest

theorem FrameRest.end_infix {text : List UInt8} (frame : FrameRest text) : endMark <:+: text := by
  induction frame with
  | done text => exact (List.prefix_append endMark text).isInfix
  | plain _ _ _ ih => exact ih.trans (List.suffix_append [_, _] _).isInfix
  | escaped _ _ _ ih => exact ih.trans (List.suffix_append [_, _, _, _] _).isInfix

/-! ## The digits and the decoder's arithmetic -/

theorem forall_byte {p : UInt8 → Prop} (all : ∀ v : Fin 256, p (UInt8.ofNat v.val)) (c : UInt8) :
    p c := by
  have value := all ⟨c.toNat, c.toNat_lt⟩
  rwa [UInt8.ofNat_toNat] at value

theorem asc2hex_toNat (c : UInt8) : (asc2hex c).toNat =
    if 65 ≤ c.toNat ∧ c.toNat < 90 then c.toNat - 55
    else if 97 ≤ c.toNat ∧ c.toNat < 122 then c.toNat - 87
    else (c.toNat + 208) % 256 := by
  have small := c.toNat_lt
  have upperA : 'A'.toUInt8.toNat = 65 := rfl
  have upperZ : 'Z'.toUInt8.toNat = 90 := rfl
  have lowerA : 'a'.toUInt8.toNat = 97 := rfl
  have lowerZ : 'z'.toUInt8.toNat = 122 := rfl
  have zero : '0'.toUInt8.toNat = 48 := rfl
  have ten : (10 : UInt8).toNat = 10 := rfl
  simp only [asc2hex, UInt8.le_iff_toNat_le, UInt8.lt_iff_toNat_lt, upperA, upperZ, lowerA, lowerZ]
  split_ifs <;> simp only [UInt8.toNat_add, UInt8.toNat_sub, upperA, lowerA, zero, ten] <;> omega

theorem hexValue_asc2hex {c : UInt8} {v : Fin 16} (value : hexValue c = some v) :
    (asc2hex c).toNat = v.val := by
  simp only [hexValue, Char.reduceToNat] at value
  rw [asc2hex_toNat]
  split_ifs at value <;> cases value <;> simp only <;> split_ifs <;> omega

private theorem shift_or_digits : ∀ u v : Fin 16,
    (UInt8.ofNat u.val <<< 4 ||| UInt8.ofNat v.val).toNat = 16 * u.val + v.val := by
  decide

theorem str2hex_toNat {x y : UInt8} {u v : Fin 16} (first : hexValue x = some u)
    (second : hexValue y = some v) : (str2hex x y).toNat = 16 * u.val + v.val := by
  have left : asc2hex x = UInt8.ofNat u.val :=
    UInt8.toNat_inj.mp (by simp [hexValue_asc2hex first, UInt8.toNat_ofNat']; omega)
  have right : asc2hex y = UInt8.ofNat v.val :=
    UInt8.toNat_inj.mp (by simp [hexValue_asc2hex second, UInt8.toNat_ofNat']; omega)
  rw [str2hex, left, right, shift_or_digits]

/-- The decoder reads two digits as the byte they write. -/
theorem SpellsByte.str2hex {b x y : UInt8} (spells : SpellsByte b x y) : str2hex x y = b := by
  obtain ⟨u, v, first, second, value⟩ := spells
  exact UInt8.toNat_inj.mp ((str2hex_toNat first second).trans value.symm)

/-- A reserved byte has two equal digits, so that its second digit alone gives it. -/
theorem SpellsByte.str2hex_second {b x y : UInt8} (spells : SpellsByte b x y)
    (special : b ∈ reserved) : ObdServer.str2hex y y = b := by
  obtain ⟨u, v, -, second, value⟩ := spells
  have equal : u.val = v.val := by
    simp only [reserved, List.mem_cons, List.not_mem_nil, or_false] at special
    rcases special with rfl | rfl | rfl <;> simp at value <;> omega
  apply UInt8.toNat_inj.mp
  rw [str2hex_toNat second second, value, equal]

theorem hexValue_ne_zero {c : UInt8} {v : Fin 16} (value : hexValue c = some v) : c ≠ 0 := by
  rintro rfl
  simp [hexValue] at value

theorem SpellsByte.ne_zero {b x y : UInt8} (spells : SpellsByte b x y) : x ≠ 0 ∧ y ≠ 0 := by
  obtain ⟨u, v, first, second, -⟩ := spells
  exact ⟨hexValue_ne_zero first, hexValue_ne_zero second⟩

namespace Spells

variable {payload text : List UInt8}

/-- A payload text holds no NUL. -/
theorem ne_zero (spells : Spells payload text) : ∀ c ∈ text, c ≠ 0 := by
  induction spells with
  | nil => simp
  | plain _ byte _ ih => simpa [byte.ne_zero] using ih
  | escaped _ escape byte _ ih => simpa [escape.ne_zero, byte.ne_zero] using ih

/-- A payload text has an even number of characters, at least two a byte. -/
theorem length (spells : Spells payload text) :
    ∃ n, text.length = 2 * n ∧ payload.length ≤ n := by
  induction spells with
  | nil => exact ⟨0, rfl, Nat.le_refl 0⟩
  | plain _ _ _ ih =>
      obtain ⟨n, even, enough⟩ := ih
      exact ⟨n + 1, by simp [even]; omega, by simpa using enough⟩
  | escaped _ _ _ _ ih =>
      obtain ⟨n, even, enough⟩ := ih
      exact ⟨n + 2, by simp [even]; omega, by simp; omega⟩

end Spells

/-! ## An encoder

Every payload has a text: the one with upper case digits.
-/

def hexDigit (v : Fin 16) : UInt8 :=
  if v.val < 10 then '0'.toUInt8 + UInt8.ofNat v.val else 'A'.toUInt8 + UInt8.ofNat (v.val - 10)

def byteText (b : UInt8) : List UInt8 :=
  have small : b.toNat / 16 < 16 := by
    have := b.toNat_lt
    omega
  [hexDigit ⟨b.toNat / 16, small⟩, hexDigit ⟨b.toNat % 16, Nat.mod_lt _ (by decide)⟩]

def encode : List UInt8 → List UInt8
  | [] => []
  | b :: payload =>
      if b ∈ reserved then byteText 0xAA ++ byteText b ++ encode payload
      else byteText b ++ encode payload

theorem hexValue_hexDigit : ∀ v, hexValue (hexDigit v) = some v := by decide

theorem spellsByte_byteText (b : UInt8) :
    ∃ x y, byteText b = [x, y] ∧ SpellsByte b x y :=
  ⟨_, _, rfl, _, _, hexValue_hexDigit _, hexValue_hexDigit _, (Nat.div_add_mod b.toNat 16).symm⟩

theorem spells_encode (payload : List UInt8) : Spells payload (encode payload) := by
  induction payload with
  | nil => exact .nil
  | cons b payload ih =>
      obtain ⟨a, a', escapeText, escape⟩ := spellsByte_byteText 0xAA
      obtain ⟨x, y, text, byte⟩ := spellsByte_byteText b
      rw [encode, text, escapeText]
      by_cases special : b ∈ reserved
      · rw [if_pos special]
        exact .escaped special escape byte ih
      · rw [if_neg special]
        exact .plain special byte ih

end ObdServer
