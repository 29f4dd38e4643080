import Mathlib.Data.List.Forall2
import ObdServer.DecoderLoop

/-! # What unescaping keeps

An escape may stand in front of any pair of digits, and then means the byte they write. The
decoder reads the second digit of such a pair twice, which gives that byte only where its
two digits are the same.
-/

namespace ObdServer

/-- What a frame text is made of: a pair of digits that is not the escape, or the escape and
    any pair. -/
inductive Item where
  | plain (b : UInt8) (ordinary : b ≠ 0xAA)
  | escaped (b : UInt8)

namespace Item

/-- What an item means. -/
def byte : Item → UInt8
  | plain b _ => b
  | escaped b => b

def text : Item → List UInt8
  | plain b _ => byteText b
  | escaped b => byteText 0xAA ++ byteText b

/-- What the decoder reads: behind an escape, the second digit in both places. -/
def read : Item → UInt8
  | plain b _ => b
  | escaped b => 17 * (b % 16)

/-- Two items the decoder cannot tell apart: equal ones, escaped pairs with the same second
    digit, and an escaped pair beside that digit twice without an escape. -/
inductive ReadAlike : Item → Item → Prop where
  | plain (b : UInt8) (ordinary : b ≠ 0xAA) : ReadAlike (plain b ordinary) (plain b ordinary)
  | escaped {b c : UInt8} : b % 16 = c % 16 → ReadAlike (escaped b) (escaped c)
  | doubled {b c : UInt8} (ordinary : c ≠ 0xAA) :
      c = 17 * (b % 16) → ReadAlike (escaped b) (plain c ordinary)
  | doubled' {b c : UInt8} (ordinary : b ≠ 0xAA) :
      b = 17 * (c % 16) → ReadAlike (plain b ordinary) (escaped c)

end Item

/-- The bytes a list of items means. -/
def meaning (items : List Item) : List UInt8 := items.map Item.byte

def itemsText (items : List Item) : List UInt8 := items.flatMap Item.text

/-! ## What is emitted for items -/

theorem seventeen_mul_toNat (b : UInt8) : (17 * (b % 16)).toNat = 17 * (b.toNat % 16) := by
  have seventeen : (17 : UInt8).toNat = 17 := rfl
  have sixteen : (16 : UInt8).toNat = 16 := rfl
  rw [UInt8.toNat_mul, UInt8.toNat_mod, seventeen, sixteen]
  omega

theorem seventeen_mul_inj {b c : UInt8} : 17 * (b % 16) = 17 * (c % 16) ↔ b % 16 = c % 16 := by
  have sixteen : (16 : UInt8).toNat = 16 := rfl
  rw [← UInt8.toNat_inj, ← UInt8.toNat_inj, seventeen_mul_toNat, seventeen_mul_toNat,
    UInt8.toNat_mod, UInt8.toNat_mod, sixteen]
  omega

/-- The digits of a byte read singly. -/
theorem str2hex_second_digit (b x y : UInt8) (digits : byteText b = [x, y]) :
    str2hex y y = 17 * (b % 16) := by
  have each : ∀ b : UInt8, str2hex ((byteText b).getD 1 0) ((byteText b).getD 1 0) =
      17 * (b % 16) := forall_byte (by decide +kernel)
  have here := each b
  rwa [digits] at here

theorem decodePairs_item (item : Item) (rest : List UInt8) :
    decodePairs false (item.text ++ rest) =
      (item.read :: (decodePairs false rest).1, (decodePairs false rest).2) := by
  cases item with
  | plain b ordinary =>
      obtain ⟨x, y, digits, byte⟩ := spellsByte_byteText b
      simp [Item.text, Item.read, digits, decodePairs, byte.str2hex, ordinary]
  | escaped b =>
      obtain ⟨a, a', escapeText, escape⟩ := spellsByte_byteText 0xAA
      obtain ⟨x, y, digits, byte⟩ := spellsByte_byteText b
      simp [Item.text, Item.read, escapeText, digits, decodePairs, escape.str2hex,
        str2hex_second_digit b x y digits]

theorem decodePairs_items (items : List Item) (rest : List UInt8) :
    decodePairs false (itemsText items ++ rest) =
      (items.map Item.read ++ (decodePairs false rest).1, (decodePairs false rest).2) := by
  induction items with
  | nil => rfl
  | cons item items ih =>
      rw [itemsText, List.flatMap_cons, List.append_assoc, decodePairs_item]
      simp only [itemsText] at ih
      rw [ih]
      rfl

/-! ## Which items are told apart -/

theorem Item.readAlike_iff (i j : Item) : ReadAlike i j ↔ i.read = j.read := by
  constructor
  · intro alike
    cases alike with
    | plain b ordinary => rfl
    | escaped same => exact seventeen_mul_inj.mpr same
    | doubled ordinary same => exact same.symm
    | doubled' ordinary same => exact same
  · intro same
    cases i with
    | plain b ordinary =>
        cases j with
        | plain c ordinary' =>
            cases same
            exact .plain b ordinary
        | escaped c => exact .doubled' ordinary same
    | escaped b =>
        cases j with
        | plain c ordinary' => exact .doubled ordinary' same.symm
        | escaped c => exact .escaped (seventeen_mul_inj.mp same)

theorem forall₂_readAlike_iff (left right : List Item) :
    List.Forall₂ Item.ReadAlike left right ↔ left.map Item.read = right.map Item.read := by
  have relation : Item.ReadAlike = fun i j => i.read = j.read := by
    funext i j
    exact propext (Item.readAlike_iff i j)
  rw [relation, ← List.forall₂_eq_eq_eq, List.forall₂_map_left_iff, List.forall₂_map_right_iff]

/-- The last byte of a list that is not zero is not in the zeros behind a shorter one. -/
theorem length_lt_of_padded_eq {xs ys : List UInt8} {v : UInt8} (nonzero : v ≠ 0)
    (inside : xs.length < bufSize) (same : padded (xs ++ [v]) = padded ys) :
    xs.length < ys.length := by
  by_contra long
  have here := congrFun same ⟨xs.length, inside⟩
  rw [padded, padded, List.getD_append_right _ _ _ _ (Nat.le_refl _), Nat.sub_self,
    List.getD_eq_default ys _ (Nat.not_lt.mp long)] at here
  exact nonzero here

/-- Lists that end in a byte other than zero are told apart by the arrays they fill. -/
theorem padded_concat_inj {xs ys : List UInt8} {v : UInt8} (nonzero : v ≠ 0)
    (left : xs.length < bufSize) (right : ys.length < bufSize) :
    padded (xs ++ [v]) = padded (ys ++ [v]) ↔ xs = ys := by
  constructor
  · intro same
    have less := length_lt_of_padded_eq nonzero left same
    have more := length_lt_of_padded_eq nonzero right same.symm
    simp only [List.length_append, List.length_singleton] at less more
    apply List.ext_getElem (by omega)
    intro i inLeft inRight
    have here := congrFun same ⟨i, by omega⟩
    rwa [padded, padded, List.getD_append _ _ _ _ inLeft, List.getD_append _ _ _ _ inRight,
      List.getD_eq_getElem _ _ inLeft, List.getD_eq_getElem _ _ inRight] at here
  · rintro rfl
    rfl

/-! ## Frames -/

theorem Item.text_length (item : Item) : ∃ n, item.text.length = 2 * n ∧ 1 ≤ n := by
  cases item with
  | plain b ordinary => exact ⟨1, rfl, Nat.le_refl 1⟩
  | escaped b => exact ⟨2, rfl, by decide⟩

theorem itemsText_length (items : List Item) :
    ∃ n, (itemsText items).length = 2 * n ∧ items.length ≤ n := by
  induction items with
  | nil => exact ⟨0, rfl, Nat.le_refl 0⟩
  | cons item items ih =>
      obtain ⟨n, even, enough⟩ := ih
      obtain ⟨m, even', enough'⟩ := item.text_length
      simp only [itemsText] at even
      refine ⟨m + n, ?_, ?_⟩
      · rw [itemsText, List.flatMap_cons, List.length_append, even, even']
        omega
      · rw [List.length_cons]
        omega

theorem itemsText_ne_zero (items : List Item) : ∀ c ∈ itemsText items, c ≠ 0 := by
  have digits : ∀ b, ∀ c ∈ byteText b, c ≠ 0 := by
    intro b c member
    obtain ⟨x, y, text, byte⟩ := spellsByte_byteText b
    rw [text] at member
    simp only [List.mem_cons, List.not_mem_nil, or_false] at member
    rcases member with rfl | rfl
    · exact byte.ne_zero.1
    · exact byte.ne_zero.2
  intro c member
  obtain ⟨item, -, inItem⟩ := List.mem_flatMap.mp member
  cases item with
  | plain b ordinary => exact digits b c inItem
  | escaped b =>
      rcases List.mem_append.mp inItem with inEscape | inByte
      · exact digits 0xAA c inEscape
      · exact digits b c inByte

/-- The decoder leaves the bytes it reads between the marker bytes. -/
theorem filter_items (old : Obd) (items : List Item)
    (short : (frameText (itemsText items)).length ≤ 254) :
    ∀ fuel ≥ 127, ∃ o,
      obdFilterEscapeAndTransferToHex fuel (received old (frameText (itemsText items))) =
        some (true, o) ∧ o.hex = padded (0xBB :: items.map Item.read ++ [0xEE]) := by
  intro fuel many
  obtain ⟨n, even, -⟩ := itemsText_length items
  have whole : (frameText (itemsText items)).length = 2 * (n + 2) := by
    simp only [frameText, beginMark, endMark, List.length_append, List.length_cons,
      List.length_nil, even]
    omega
  have result := filter_received_whole old whole short (itemsText_ne_zero items) fuel (by omega)
  rw [frameText, List.append_assoc, decodePairs_beginMark, decodePairs_items] at result
  exact result

/-- Two texts are told apart by what the decoder leaves, if they mean different bytes,
    exactly when they do mean the same or some of their items are told apart. -/
theorem told_apart_iff (old old' : Obd) (left right : List Item)
    (shortLeft : (frameText (itemsText left)).length ≤ 254)
    (shortRight : (frameText (itemsText right)).length ≤ 254) :
    ∃ fuel o o',
      obdFilterEscapeAndTransferToHex fuel (received old (frameText (itemsText left))) =
        some (true, o) ∧
      obdFilterEscapeAndTransferToHex fuel (received old' (frameText (itemsText right))) =
        some (true, o') ∧
      ((meaning left ≠ meaning right → o.hex ≠ o'.hex) ↔
        meaning left = meaning right ∨ ¬ List.Forall₂ Item.ReadAlike left right) := by
  obtain ⟨o, accepted, hex⟩ := filter_items old left shortLeft 127 (Nat.le_refl _)
  obtain ⟨o', accepted', hex'⟩ := filter_items old' right shortRight 127 (Nat.le_refl _)
  refine ⟨127, o, o', accepted, accepted', ?_⟩
  have small : ∀ items, (frameText (itemsText items)).length ≤ 254 →
      (0xBB :: items.map Item.read).length < bufSize := by
    intro items short
    obtain ⟨n, even, enough⟩ := itemsText_length items
    simp only [frameText, List.length_append, even] at short
    rw [List.length_cons, List.length_map]
    show _ < 256
    omega
  have alike : o.hex = o'.hex ↔ List.Forall₂ Item.ReadAlike left right := by
    rw [hex, hex', padded_concat_inj (by decide) (small left shortLeft) (small right shortRight),
      List.cons_inj_right, forall₂_readAlike_iff]
  rw [ne_eq, ne_eq, alike, imp_iff_not_or, not_not]

theorem told_apart_iff_sample :
    ∃ fuel o o',
      obdFilterEscapeAndTransferToHex fuel
        (received zeroBlock (frameText (itemsText [.plain 0x02 (by decide), .escaped 0xBB]))) =
          some (true, o) ∧
      obdFilterEscapeAndTransferToHex fuel
        (received zeroBlock (frameText (itemsText [.plain 0x02 (by decide), .escaped 0xEE]))) =
          some (true, o') ∧
      ((meaning [.plain 0x02 (by decide), .escaped 0xBB] ≠
          meaning [.plain 0x02 (by decide), .escaped 0xEE] → o.hex ≠ o'.hex) ↔
        meaning [.plain 0x02 (by decide), .escaped 0xBB] =
            meaning [.plain 0x02 (by decide), .escaped 0xEE] ∨
          ¬ List.Forall₂ Item.ReadAlike [.plain 0x02 (by decide), .escaped 0xBB]
            [.plain 0x02 (by decide), .escaped 0xEE]) :=
  told_apart_iff zeroBlock zeroBlock _ _ (by decide) (by decide)

/-- The escaped pairs 12 and 32 are both decoded as 22. -/
theorem escaped_not_told_apart :
    meaning [.escaped 0x12] ≠ meaning [.escaped 0x32] ∧
      ∃ fuel o o',
        obdFilterEscapeAndTransferToHex fuel
          (received zeroBlock (frameText (itemsText [.escaped 0x12]))) = some (true, o) ∧
        obdFilterEscapeAndTransferToHex fuel
          (received zeroBlock (frameText (itemsText [.escaped 0x32]))) = some (true, o') ∧
        o.hex = o'.hex := by
  obtain ⟨o, accepted, hex⟩ :=
    filter_items zeroBlock [.escaped 0x12] (by decide) 127 (Nat.le_refl _)
  obtain ⟨o', accepted', hex'⟩ :=
    filter_items zeroBlock [.escaped 0x32] (by decide) 127 (Nat.le_refl _)
  have same : [Item.escaped 0x12].map Item.read = [Item.escaped 0x32].map Item.read := by decide
  refine ⟨by decide, 127, o, o', accepted, accepted', ?_⟩
  rw [hex, hex', same]

end ObdServer
