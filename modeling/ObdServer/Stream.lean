import ObdServer.RecordedCommand

/-! # A stream in pieces

Nothing is kept of a connection between two calls of `recv`: what one call delivers is one
message, whatever it holds of one frame or of several. Frames are told apart only by
arriving one by one.
-/

namespace ObdServer

variable {text : List UInt8} {pieces : List (List UInt8)}
  {commands : List UInt8} {c : UInt8}

/-- What `OBD_decode` switches on while a connection delivers one piece after the other,
    each into a block in any state. -/
inductive Dispatched : List (List UInt8) → List UInt8 → Prop where
  | nil : Dispatched [] []
  | put {old : Obd} {bytes : List UInt8} {c : UInt8} {pieces : List (List UInt8)}
      {commands : List UInt8} :
      Dispatches old bytes c → Dispatched pieces commands →
      Dispatched (bytes :: pieces) (c :: commands)
  | released {old : Obd} {bytes : List UInt8} {pieces : List (List UInt8)}
      {commands : List UInt8} :
      (received old bytes).dataLength = 0 → Dispatched pieces commands →
      Dispatched (bytes :: pieces) commands

/-- The command of a text by itself: the item behind its first begin marker, or 00 when the
    markers are not there in order. -/
def commandOf (text : List UInt8) : UInt8 :=
  match strstr text beginMark, strstr text endMark with
  | some start, some stop => if stop < start then 0 else itemBehind text start
  | _, _ => 0

/-- The text of a frame with a command byte and data bytes. -/
def commandText (frame : UInt8 × List UInt8) : List UInt8 :=
  frameText (encode (frame.1 :: frame.2))

/-! ## One piece -/

theorem commandOf_of_ordered {start stop : Nat} (first : FirstAt beginMark text start)
    (last : FirstAt endMark text stop) (ordered : start ≤ stop) :
    commandOf text = itemBehind text start := by
  unfold commandOf
  rw [(strstr_eq_some_iff beginMark_ne_nil).mpr first,
    (strstr_eq_some_iff endMark_ne_nil).mpr last]
  exact if_neg (Nat.not_lt.mpr ordered)

theorem commandOf_of_not_decodable (bad : ¬ Decodable text) : commandOf text = 0 := by
  unfold commandOf
  cases begins : strstr text beginMark with
  | none => rfl
  | some start =>
      cases ends : strstr text endMark with
      | none => rfl
      | some stop => exact if_pos (lt_of_not_decodable bad begins ends)

/-- A text that begins with a frame has its command, a reserved one included. -/
theorem commandOf_frame (c : UInt8) (data rest : List UInt8) :
    commandOf (commandText (c, data) ++ rest) = c := by
  have shape : commandText (c, data) ++ rest =
      beginMark ++ (encode (c :: data) ++ endMark ++ rest) := by
    simp [commandText, frameText]
  have first : FirstAt beginMark (commandText (c, data) ++ rest) 0 := by
    rw [shape]
    exact ⟨List.prefix_append _ _, fun m small => absurd small (Nat.not_lt_zero m)⟩
  have occurs : endMark <:+: commandText (c, data) ++ rest :=
    ⟨beginMark ++ encode (c :: data), rest, by simp [commandText, frameText]⟩
  obtain ⟨stop, last⟩ := exists_firstAt endMark_ne_nil occurs
  rw [commandOf_of_ordered first last (Nat.zero_le stop), shape]
  obtain ⟨x, y, digits, byte⟩ := spellsByte_byteText c
  obtain ⟨a, a', escapeDigits, escape⟩ := spellsByte_byteText 0xAA
  by_cases special : c ∈ reserved
  · have text : encode (c :: data) = a :: a' :: x :: y :: encode data := by
      rw [encode, if_pos special, escapeDigits, digits]
      rfl
    have pair : itemBehind (beginMark ++ (encode (c :: data) ++ endMark ++ rest)) 0 =
        if str2hex a a' = 0xAA then str2hex y y else str2hex a a' := by
      rw [text]
      rfl
    rw [pair, if_pos escape.str2hex, byte.str2hex_second special]
  · have text : encode (c :: data) = x :: y :: encode data := by
      rw [encode, if_neg special, digits]
      rfl
    have notEscape : str2hex x y ≠ 0xAA := by
      rw [byte.str2hex]
      rintro rfl
      exact special List.mem_cons_self
    have pair : pairAt (beginMark ++ (encode (c :: data) ++ endMark ++ rest)) (0 + 2) =
        str2hex x y := by
      rw [text]
      rfl
    rw [itemBehind, pair, if_neg notEscape, byte.str2hex]

/-! ## All pieces -/

end ObdServer
