import Mathlib.Data.List.GetD
import Mathlib.Data.List.TakeWhile
import ObdServer.Decoder
import ObdServer.Frame

/-! # Decoding undoes encoding

The markers of a frame are found whatever its payload is: the first match of BB is at
the front, and EE occurs somewhere behind it. The loop then reads the whole text from
the front and emits the payload between the two marker bytes.
-/

namespace ObdServer

variable {o : Obd} {text payload body : List UInt8}

/-- An array that holds a text and zeros behind it. -/
def padded (text : List UInt8) : Fin bufSize → UInt8 := fun i => text.getD i.val 0

/-! ## The text of a block -/

/-- The C string in `data` ends at the first NUL of the bytes that stand there. -/
theorem Obd.cstr_takeWhile {bytes : List UInt8} (inside : bytes.length < obdBytes)
    (stored : ∀ k (small : k < bytes.length), o.byteAt k = bytes[k])
    (terminator : o.byteAt bytes.length = 0) : o.cstr = bytes.takeWhile (· ≠ 0) := by
  obtain ⟨rest, size⟩ : ∃ rest, obdBytes = bytes.length + (1 + rest) :=
    ⟨obdBytes - bytes.length - 1, by omega⟩
  have front : (List.range bytes.length).map o.byteAt = bytes := by
    apply List.ext_getElem (by simp)
    intro k small inBytes
    rw [List.getElem_map, List.getElem_range]
    exact stored k inBytes
  rw [Obd.cstr, size, List.range_add, List.map_append, front, Nat.add_comm 1,
    List.range_succ_eq_map]
  have stops : ∀ rest : List UInt8, (bytes ++ 0 :: rest).takeWhile (· ≠ 0) =
      bytes.takeWhile (· ≠ 0) := by
    intro rest
    rw [List.takeWhile_append]
    split_ifs with all
    · have whole : bytes.takeWhile (· ≠ 0) = bytes :=
        (List.takeWhile_prefix _).eq_of_length all
      rw [whole]
      simp
    · rfl
  simpa [terminator] using stops _

/-- The C string in `data` is the text that stands there before the first NUL. -/
theorem Obd.cstr_eq (inside : text.length < obdBytes) (nonNul : ∀ c ∈ text, c ≠ 0)
    (bytes : ∀ k (small : k < text.length), o.byteAt k = text[k])
    (terminator : o.byteAt text.length = 0) : o.cstr = text := by
  rw [Obd.cstr_takeWhile inside bytes terminator]
  exact List.takeWhile_eq_self_iff.mpr (by simpa using nonNul)

theorem Obd.byteAt_padded (data : o.data = padded text) {k : Nat} (inside : k < bufSize) :
    o.byteAt k = text.getD k 0 := by
  rw [Obd.byteAt_data inside, data, padded]

theorem Obd.cstr_padded (data : o.data = padded text) (inside : text.length < bufSize)
    (nonNul : ∀ c ∈ text, c ≠ 0) : o.cstr = text := by
  have small : text.length < obdBytes := Nat.lt_trans inside (by decide)
  refine Obd.cstr_eq small nonNul (fun k inText => ?_) ?_
  · rw [Obd.byteAt_padded data (by omega), List.getD_eq_getElem _ _ inText]
  · rw [Obd.byteAt_padded data inside, List.getD_eq_default _ _ (Nat.le_refl _)]

theorem window_of_bytes (pos : Nat) (inside : pos + text.length ≤ bufSize)
    (bytes : ∀ k (small : k < text.length), o.byteAt (pos + k) = text[k]) :
    Window o pos text := by
  induction text generalizing pos with
  | nil => trivial
  | cons c text ih =>
      rw [List.length_cons] at inside
      refine ⟨by omega, bytes 0 (Nat.succ_pos _), ih (pos + 1) (by omega) fun k small => ?_⟩
      rw [Nat.add_assoc, Nat.add_comm 1]
      exact bytes (k + 1) (Nat.succ_lt_succ small)

theorem window_of_drop {front rest : List UInt8} {n : Nat} (data : o.data = padded text)
    (shape : text.drop n = front ++ rest) (inside : text.length ≤ bufSize) : Window o n front := by
  have size : text.length - n = front.length + rest.length := by
    rw [← List.length_drop, shape, List.length_append]
  cases front with
  | nil => trivial
  | cons c front =>
      rw [List.length_cons] at size
      apply window_of_bytes n
      · rw [List.length_cons]
        omega
      · intro k small
        have here : text[n + k]? = (c :: front)[k]? := by
          rw [← List.getElem?_drop, shape, List.getElem?_append_left small]
        rw [List.length_cons] at small
        rw [Obd.byteAt_padded data (by omega), List.getD_eq_getElem?_getD, here,
          List.getElem?_eq_getElem]
        rfl

/-! ## The markers -/

theorem strstr_of_prefix {needle hay : List UInt8} (front : needle <+: hay) :
    strstr hay needle = some 0 := by
  cases hay with
  | nil => rw [strstr, if_pos (List.prefix_nil.mp front)]
  | cons c hay => rw [strstr, if_pos front]

theorem strstr_of_infix {needle hay : List UInt8} (occurs : needle <:+: hay) :
    ∃ n, strstr hay needle = some n := by
  induction hay with
  | nil => exact ⟨0, strstr_of_prefix (List.infix_nil.mp occurs ▸ List.prefix_refl [])⟩
  | cons c hay ih =>
      by_cases front : needle <+: c :: hay
      · exact ⟨0, strstr_of_prefix front⟩
      · obtain ⟨n, found⟩ := ih ((List.infix_cons_iff.mp occurs).resolve_left front)
        exact ⟨n + 1, by rw [strstr, if_neg front, found]; rfl⟩

theorem frameText_begin (body : List UInt8) : strstr (frameText body) beginMark = some 0 :=
  strstr_of_prefix ⟨body ++ endMark, (List.append_assoc _ _ _).symm⟩

theorem frameText_end (body : List UInt8) : ∃ n, strstr (frameText body) endMark = some n :=
  strstr_of_infix ⟨beginMark ++ body, [], List.append_nil _⟩

theorem frameText_nonNul (nonNul : ∀ c ∈ body, c ≠ 0) : ∀ c ∈ frameText body, c ≠ 0 := by
  intro c member
  simp only [frameText, List.mem_append] at member
  rcases member with (mark | inBody) | mark
  · rintro rfl
    exact absurd mark (by decide)
  · exact nonNul c inBody
  · rintro rfl
    exact absurd mark (by decide)

theorem frameText_ne_zero (spells : Spells payload body) : ∀ c ∈ frameText body, c ≠ 0 :=
  frameText_nonNul spells.ne_zero

/-! ## The bytes emitted for a frame -/

/-- The loop turns a payload text back into the payload and is then ready for a next
    pair, whatever follows. -/
theorem decodePairs_spells (spells : Spells payload body) (rest : List UInt8) :
    decodePairs false (body ++ rest) =
      (payload ++ (decodePairs false rest).1, (decodePairs false rest).2) := by
  induction spells with
  | nil => rfl
  | @plain b _ _ _ _ ordinary byte _ ih =>
      have noEscape : ¬ b = 0xAA := by
        rintro rfl
        exact ordinary List.mem_cons_self
      simp only [List.cons_append, decodePairs, byte.str2hex, if_neg noEscape, ih]
  | escaped special escape byte _ ih =>
      simp only [List.cons_append, decodePairs, escape.str2hex, if_true,
        byte.str2hex_second special, ih]

theorem decodePairs_frameText (spells : Spells payload body) :
    decodePairs false (frameText body) = (0xBB :: payload ++ [0xEE], false) := by
  have begins : decodePairs false (frameText body) =
      (0xBB :: (decodePairs false (body ++ endMark)).1,
        (decodePairs false (body ++ endMark)).2) := by
    rw [frameText, List.append_assoc]
    rfl
  have ends : decodePairs false endMark = ([0xEE], false) := by decide
  rw [begins, decodePairs_spells spells, ends]
  rfl

/-! ## The round trip -/

theorem writeFrom_zeros {out : List UInt8} (room : out.length ≤ bufSize) :
    writeFrom (fun _ => 0) 0 out = padded out := by
  funext m
  have zero : (0 : UInt8).toNat = 0 := rfl
  rw [writeFrom_apply (by simpa using room), zero, if_pos (Nat.zero_le _)]
  rfl

/-- A text of whole pairs, read from its front, leaves the bytes emitted and zeros. -/
theorem iterate_whole {n : Nat} (even : text.length = 2 * n) (short : text.length ≤ 254)
    (data : o.data = padded text) (hex : o.hex = fun _ => 0) :
    ((DecodeState.step 0)^[n] (.start o)).obd =
      { o with hex := padded (decodePairs false text).1 } := by
  have few := decodePairs_length false text
  have window : Window o (0 + (DecodeState.start o).i.toNat) text :=
    window_of_drop data (List.append_nil text).symm (Nat.le_trans short (by decide))
  rw [DecodeState.iterate_window even (by show 0 + _ < _; omega) window]
  simp only [DecodeState.start, hex]
  rw [writeFrom_zeros (by show _ ≤ 256; omega)]

theorem frameText_length (spells : Spells payload body) :
    ∃ n, (frameText body).length = 2 * n ∧ payload.length + 2 ≤ n := by
  obtain ⟨n, even, enough⟩ := spells.length
  have marks : beginMark.length = 2 ∧ endMark.length = 2 := ⟨rfl, rfl⟩
  refine ⟨n + 2, ?_, Nat.add_le_add_right enough 2⟩
  rw [frameText, List.length_append, List.length_append, even, marks.1, marks.2]
  omega

theorem Cmd02.ofHex_padded (id seed : Fin 4 → UInt8) (checksum : UInt8) :
    Cmd02.ofHex (padded (0xBB :: (0x02 :: (List.ofFn id ++ List.ofFn seed ++ [checksum])) ++
        [0xEE])) =
      { head := { head := 0xBB, cmd := 0x02, id := id }
        seed := seed
        end_ := { checksum := checksum, end_ := 0xEE } } := by
  simp only [Cmd02.ofHex, Cmd02.mk.injEq, Head.mk.injEq, End.mk.injEq]
  refine ⟨⟨rfl, rfl, ?_⟩, ?_, rfl, rfl⟩
  · funext i
    match i with
    | 0 | 1 | 2 | 3 => rfl
  · funext i
    match i with
    | 0 | 1 | 2 | 3 => rfl

/-- Between markers, a text of whole pairs is decoded from its front to its end. -/
theorem filter_whole {n : Nat} (even : (frameText body).length = 2 * n)
    (short : (frameText body).length ≤ 254) (nonNul : ∀ c ∈ body, c ≠ 0)
    (data : o.data = padded (frameText body))
    (length : o.dataLength = UInt8.ofNat (frameText body).length)
    (hex : o.hex = fun _ => 0) : ∀ fuel ≥ n, obdFilterEscapeAndTransferToHex fuel o =
      some (true, { o with hex := padded (decodePairs false (frameText body)).1 }) := by
  intro fuel many
  obtain ⟨stop, last⟩ := frameText_end body
  have inside : (frameText body).length < bufSize := Nat.lt_of_le_of_lt short (by decide)
  have text : o.cstr = frameText body := Obd.cstr_padded data inside (frameText_nonNul nonNul)
  have size : o.dataLength.toNat = 2 * n := by
    rw [length, UInt8.toNat_ofNat']
    omega
  have pairs : (o.dataLength.toNat + 1) / 2 = n := by omega
  have opens : strstr o.cstr beginMark = some 0 := text ▸ frameText_begin body
  have closes : strstr o.cstr endMark = some stop := text ▸ last
  rw [filter_of_markers (by omega) opens closes (Nat.zero_le _) (by omega), pairs,
    iterate_whole even short data hex]

theorem filter_frameText (spells : Spells payload body) (short : (frameText body).length ≤ 254)
    (data : o.data = padded (frameText body))
    (length : o.dataLength = UInt8.ofNat (frameText body).length)
    (hex : o.hex = fun _ => 0) :
    ∃ iterations, ∀ fuel ≥ iterations, obdFilterEscapeAndTransferToHex fuel o =
      some (true, { o with hex := padded (0xBB :: payload ++ [0xEE]) }) := by
  obtain ⟨n, even, -⟩ := frameText_length spells
  have result := filter_whole even short spells.ne_zero data length hex
  rw [decodePairs_frameText spells] at result
  exact ⟨n, result⟩

/-- The decoder gives the payload of every frame of at most 254 characters back, between
    the two marker bytes and followed by zeros. The payload of a 02 command can then be
    read through `cmd02_t`. -/
theorem decode_frameText (spells : Spells payload body) (short : (frameText body).length ≤ 254)
    (data : o.data = padded (frameText body))
    (length : o.dataLength = UInt8.ofNat (frameText body).length)
    (hex : o.hex = fun _ => 0) :
    ∃ iterations o', (∀ fuel ≥ iterations,
        obdFilterEscapeAndTransferToHex fuel o = some (true, o')) ∧
      o'.hex = padded (0xBB :: payload ++ [0xEE]) ∧
      ∀ (id seed : Fin 4 → UInt8) (checksum : UInt8),
        payload = 0x02 :: (List.ofFn id ++ List.ofFn seed ++ [checksum]) →
        Cmd02.ofHex o'.hex =
          { head := { head := 0xBB, cmd := 0x02, id := id }
            seed := seed
            end_ := { checksum := checksum, end_ := 0xEE } } := by
  obtain ⟨iterations, result⟩ := filter_frameText spells short data length hex
  refine ⟨iterations, _, result, rfl, ?_⟩
  rintro id seed checksum rfl
  exact Cmd02.ofHex_padded id seed checksum

/-- The payload of the sample frame of client.c. -/
def samplePayload : List UInt8 := [0x02, 0x12, 0x34, 0x56, 0x78, 0x01, 0x02, 0x03, 0x04, 0x20]

example : frameText (encode samplePayload) =
    "BB02123456780102030420EE".toList.map Char.toUInt8 := by decide

/-- A payload with all reserved bytes, and a spelling of it in both cases. -/
def reservedPayload : List UInt8 :=
  [0x02, 0xAA, 0x3C, 0xBB, 0xEE, 0x01, 0x02, 0x03, 0x04, 0x20]

def reservedBody : List UInt8 :=
  ['0', '2', 'a', 'A', 'A', 'a', '3', 'c', 'A', 'A', 'b', 'B', 'a', 'a', 'E', 'e', '0', '1', '0',
    '2', '0', '3', '0', '4', '2', '0'].map Char.toUInt8

theorem reservedBody_spells : Spells reservedPayload reservedBody :=
  .plain (by decide) (by decide) <| .escaped (by decide) (by decide) (by decide) <|
    .plain (by decide) (by decide) <| .escaped (by decide) (by decide) (by decide) <|
    .escaped (by decide) (by decide) (by decide) <| .plain (by decide) (by decide) <|
    .plain (by decide) (by decide) <| .plain (by decide) (by decide) <|
    .plain (by decide) (by decide) <| .plain (by decide) (by decide) .nil

theorem decode_frameText_reserved :
    ∃ iterations o', (∀ fuel ≥ iterations,
        obdFilterEscapeAndTransferToHex fuel
          { data := padded (frameText reservedBody)
            dataLength := UInt8.ofNat (frameText reservedBody).length
            hex := fun _ => 0
            id := 0 } = some (true, o')) ∧
      o'.hex = padded (0xBB :: reservedPayload ++ [0xEE]) ∧
      ∀ (id seed : Fin 4 → UInt8) (checksum : UInt8),
        reservedPayload = 0x02 :: (List.ofFn id ++ List.ofFn seed ++ [checksum]) →
        Cmd02.ofHex o'.hex =
          { head := { head := 0xBB, cmd := 0x02, id := id }
            seed := seed
            end_ := { checksum := checksum, end_ := 0xEE } } :=
  decode_frameText reservedBody_spells (by decide) rfl rfl rfl

end ObdServer
