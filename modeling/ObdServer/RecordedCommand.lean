import ObdServer.DecoderLoop

/-! # The command recorded and the command decoded

`OBD_get_cmd` reads the characters 2 and 3 of a message, wherever its begin marker is and
whether or not they are an escape. The decoder reads the pair behind the first begin marker.
-/

namespace ObdServer

variable {old o : Obd} {bytes text : List UInt8} {start stop fuel : Nat}

/-- The pair of characters at a position, as `str2hex` reads it. -/
def pairAt (text : List UInt8) (n : Nat) : UInt8 :=
  str2hex (text.getD n 0) (text.getD (n + 1) 0)

/-- The item behind a begin marker at `start`: the pair there or, where that is the escape,
    the second character of the next pair in both places. -/
def itemBehind (text : List UInt8) (start : Nat) : UInt8 :=
  if pairAt text (start + 2) = 0xAA then
    str2hex (text.getD (start + 5) 0) (text.getD (start + 5) 0)
  else pairAt text (start + 2)

theorem getD_drop (text : List UInt8) (n k : Nat) :
    text.getD (n + k) 0 = (text.drop n).getD k 0 := by
  rw [List.getD_eq_getElem?_getD, List.getD_eq_getElem?_getD, List.getElem?_drop]

/-- No pair with the second character E is the escape. -/
theorem str2hex_endMark (x : UInt8) : str2hex x 'E'.toUInt8 ≠ 0xAA := by
  have digit : asc2hex 'E'.toUInt8 = 14 := by decide
  have odd : ∀ c : UInt8, c <<< 4 ||| 14 ≠ 0xAA := forall_byte (by decide +kernel)
  rw [str2hex, digit]
  exact odd _

/-- What stands from the first begin marker on, with an end marker behind it: at least a
    pair between them, and two if the first is the escape. -/
theorem shape_between (first : FirstAt beginMark text start) (last : FirstAt endMark text stop)
    (ordered : start ≤ stop) :
    ∃ x y rest, text.drop start = beginMark ++ x :: y :: rest ∧
      (str2hex x y = 0xAA → ∃ z w tail, rest = z :: w :: tail) := by
  obtain ⟨behind, opens⟩ := first.1
  obtain ⟨closing, closes⟩ := last.1
  obtain ⟨d, rfl⟩ := Nat.exists_eq_add_of_le ordered
  have tail : (text.drop start).drop d = endMark ++ closing := by
    rw [List.drop_drop, closes]
  rw [← opens] at tail ⊢
  match d, behind with
  | 0, _ => cases tail
  | 1, _ => cases tail
  | 2, x :: y :: rest =>
      refine ⟨x, y, rest, rfl, fun escape => ?_⟩
      obtain ⟨rfl, same⟩ := List.cons.inj tail
      obtain ⟨rfl, -⟩ := List.cons.inj same
      exact absurd escape (by decide)
  | 3, x :: y :: rest =>
      refine ⟨x, y, rest, rfl, fun escape => ?_⟩
      obtain ⟨rfl, -⟩ := List.cons.inj tail
      exact absurd escape (str2hex_endMark x)
  | d + 4, x :: y :: z :: w :: rest => exact ⟨x, y, z :: w :: rest, rfl, fun _ => ⟨z, w, rest, rfl⟩⟩
  | 2, [] | 2, [_] | 3, [] | 3, [_] | d + 4, [] | d + 4, [_] | d + 4, [_, _] | d + 4, [_, _, _] =>
      -- the end marker would stand behind the end of the text
      have short := congrArg List.length tail
      simp [beginMark, endMark] at short <;> omega

theorem pairAt_of_drop {x y : UInt8} {rest : List UInt8} {n : Nat}
    (shape : text.drop n = x :: y :: rest) : pairAt text n = str2hex x y := by
  have here := getD_drop text n 0
  have next := getD_drop text n 1
  rw [shape] at here next
  rw [pairAt, next]
  exact congrArg (str2hex · y) here

theorem pairAt_messageText {n : Nat} (inText : n + 2 ≤ (messageText bytes).length) :
    pairAt bytes n = pairAt (messageText bytes) n := by
  rw [pairAt, pairAt, getD_messageText (by omega), getD_messageText (by omega),
    List.getD_eq_getElem, List.getD_eq_getElem]

/-- What the decoder leaves behind the begin marker in `hex`. -/
theorem iterate_itemBehind_text (data : o.data = padded bytes) (small : bytes.length ≤ bufSize)
    (within : (messageText bytes).length ≤ 254)
    (first : FirstAt beginMark (messageText bytes) start)
    (last : FirstAt endMark (messageText bytes) stop) (ordered : start ≤ stop) :
    ((DecodeState.step start)^[((messageText bytes).length + 1) / 2] (.start o)).obd.hex 1 =
      itemBehind (messageText bytes) start := by
  obtain ⟨x, y, rest, shape, escaped⟩ := shape_between first last ordered
  obtain ⟨tail, whole⟩ := List.takeWhile_prefix (p := fun c : UInt8 => decide (c ≠ 0)) (l := bytes)
  have length := congrArg List.length shape
  simp only [List.length_drop, beginMark, List.length_append, List.length_cons] at length
  have inBytes : bytes.drop start = beginMark ++ x :: y :: (rest ++ tail) := by
    have front : (messageText bytes ++ tail).drop start = (messageText bytes).drop start ++ tail :=
      List.drop_append_of_le_length (by omega)
    rw [messageText, whole] at front
    rw [front, ← messageText, shape]
    simp
  have pair : pairAt (messageText bytes) (start + 2) = str2hex x y := by
    have behind : (messageText bytes).drop (start + 2) = x :: y :: rest := by
      rw [← List.drop_drop, shape]
      rfl
    exact pairAt_of_drop behind
  rw [itemBehind, pair]
  by_cases escape : str2hex x y = 0xAA
  · obtain ⟨z, w, tail', rfl⟩ := escaped escape
    simp only [List.length_cons] at length
    have fifth : (messageText bytes).getD (start + 5) 0 = w := by
      rw [getD_drop, shape]
      rfl
    rw [if_pos escape, fifth]
    exact iterate_cmd_escaped small data inBytes escape (by omega) (by omega)
  · rw [if_neg escape]
    exact iterate_cmd small data inBytes escape (by omega) (by omega)

theorem iterate_itemBehind (data : o.data = padded bytes) (short : bytes.length ≤ 254)
    (first : FirstAt beginMark (messageText bytes) start)
    (last : FirstAt endMark (messageText bytes) stop) (ordered : start ≤ stop) :
    ((DecodeState.step start)^[((messageText bytes).length + 1) / 2] (.start o)).obd.hex 1 =
      itemBehind (messageText bytes) start := by
  obtain ⟨small, within, -⟩ := messageText_short short
  exact iterate_itemBehind_text data small within first last ordered

/-- On a message of at most 254 bytes that the decoder accepts, the command recorded is the
    one decoded exactly when the characters 2 and 3 read as the item behind the first begin
    marker does. -/
theorem recorded_eq_decoded_iff (old : Obd) (short : bytes.length ≤ 254)
    (first : FirstAt beginMark (messageText bytes) start)
    (accepted : obdFilterEscapeAndTransferToHex fuel (received old bytes) = some (true, o)) :
    (received old bytes).id = obdDecodeCmd o ↔
      pairAt (messageText bytes) 2 = itemBehind (messageText bytes) start := by
  obtain ⟨small, within, room⟩ := messageText_short short
  by_cases decodable : Decodable (messageText bytes)
  · obtain ⟨start', stop, first', last, ordered⟩ := decodable
    obtain rfl := first'.unique first
    have result := filter_received old small within first last ordered (Nat.le_refl _)
    obtain ⟨-, rfl⟩ := Prod.mk.inj (filter_unique accepted result)
    obtain ⟨x, y, rest, shape, -⟩ := shape_between first last ordered
    have reach := congrArg List.length shape
    simp only [List.length_drop, beginMark, List.length_append, List.length_cons] at reach
    rw [obdDecodeCmd, iterate_itemBehind (received_data old bytes) short first last ordered,
      received_id, ← pairAt_messageText (by omega)]
    rfl
  · rw [filter_refused old room decodable] at accepted
    cases accepted

theorem recorded_eq_decoded_iff_sample :
    ∃ o, obdFilterEscapeAndTransferToHex 13
        (received zeroBlock (frameText (encode samplePayload))) = some (true, o) ∧
      ((received zeroBlock (frameText (encode samplePayload))).id = obdDecodeCmd o ↔
        pairAt (messageText (frameText (encode samplePayload))) 2 =
          itemBehind (messageText (frameText (encode samplePayload))) 0) := by
  have first : FirstAt beginMark (messageText (frameText (encode samplePayload))) 0 := by
    decide +kernel
  have last : FirstAt endMark (messageText (frameText (encode samplePayload))) 22 := by
    decide +kernel
  have accepted := filter_received zeroBlock (by decide) (by decide) first last (by decide)
    (show _ ≤ 13 by decide)
  exact ⟨_, accepted, recorded_eq_decoded_iff zeroBlock (by decide) first accepted⟩

/-- The frame of a reserved command is recorded as its escape. -/
theorem reserved_recorded_ne_decoded :
    (frameText (encode [0xBB])).length ≤ 254 ∧
      ∃ fuel o, obdFilterEscapeAndTransferToHex fuel
          (received zeroBlock (frameText (encode [0xBB]))) = some (true, o) ∧
        (received zeroBlock (frameText (encode [0xBB]))).id = 0xAA ∧ obdDecodeCmd o = 0xBB := by
  have first : FirstAt beginMark (messageText (frameText (encode [0xBB]))) 0 := by
    decide +kernel
  have last : FirstAt endMark (messageText (frameText (encode [0xBB]))) 6 := by
    decide +kernel
  have accepted := filter_received zeroBlock (by decide) (by decide) first last (by decide)
    (Nat.le_refl _)
  have behind := iterate_itemBehind
    (received_data zeroBlock (frameText (encode [0xBB]))) (by decide) first last (by decide)
  refine ⟨by decide, _, _, accepted, ?_, ?_⟩
  · rw [received_id]
    decide +kernel
  · rw [obdDecodeCmd, behind]
    decide +kernel

end ObdServer
