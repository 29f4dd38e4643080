import ObdServer.DecoderLoop

/-! # What stands around a frame

The decoder's loop starts at the first begin marker and makes as many iterations as the
whole text has pairs. With anything in front of the frame, or with half a pair behind it,
the last of them read the zeros behind the text, and two zeros are read as D0. What they
leave at the start of `hex` are the bytes of the frame all the same.
-/

namespace ObdServer

variable {old old' o : Obd} {front body behind payload text : List UInt8} {n : Nat}

/-- Pairs that are all read as 00, with or without an escape, and possibly an escape with
    nothing behind it. -/
inductive Blank : List UInt8 → Prop where
  | nil : Blank []
  | pending {a a' : UInt8} : str2hex a a' = 0xAA → Blank [a, a']
  | zero {x y : UInt8} {text : List UInt8} :
      str2hex x y = 0 → Blank text → Blank (x :: y :: text)
  | escaped {a a' x y : UInt8} {text : List UInt8} :
      str2hex a a' = 0xAA → str2hex y y = 0 → Blank text → Blank (a :: a' :: x :: y :: text)

/-- The decoder accepts both blocks and leaves the same bytes in `hex`. -/
def DecodeAlike (left right : Obd) : Prop :=
  ∃ fuel o o', obdFilterEscapeAndTransferToHex fuel left = some (true, o) ∧
    obdFilterEscapeAndTransferToHex fuel right = some (true, o') ∧ o.hex = o'.hex

/-! ## Blank texts -/

theorem Blank.even (blank : Blank text) : text.length % 2 = 0 := by
  induction blank with
  | nil => rfl
  | pending _ => simp
  | zero _ _ ih | escaped _ _ _ ih =>
      simp only [List.length_cons]
      omega

theorem Blank.emits_zero (blank : Blank text) : ∀ v ∈ (decodePairs false text).1, v = 0 := by
  induction blank with
  | nil => simp [decodePairs]
  | pending escape => simp [decodePairs, escape]
  | zero value _ ih => simpa [decodePairs, value] using ih
  | escaped escape value _ ih => simpa [decodePairs, escape, value] using ih

theorem blank_of_emits_zero : ∀ {text : List UInt8}, text.length % 2 = 0 →
    (∀ v ∈ (decodePairs false text).1, v = 0) → Blank text
  | [], _, _ => .nil
  | [_], even, _ => by simp at even
  | [x, y], _, zeros => by
      by_cases escape : str2hex x y = 0xAA
      · exact .pending escape
      · simp only [decodePairs, if_neg escape] at zeros
        exact .zero (zeros _ List.mem_cons_self) .nil
  | [x, y, z], even, _ => by simp at even
  | x :: y :: z :: w :: text, even, zeros => by
      simp only [List.length_cons] at even
      by_cases escape : str2hex x y = 0xAA
      · simp only [decodePairs, if_pos escape, List.forall_mem_cons] at zeros
        exact .escaped escape zeros.1 (blank_of_emits_zero (by omega) zeros.2)
      · simp only [decodePairs, if_neg escape, List.forall_mem_cons] at zeros
        have rest : ∀ v ∈ (decodePairs false (z :: w :: text)).1, v = 0 := by
          simpa only [decodePairs] using zeros.2
        exact .zero zeros.1
          (blank_of_emits_zero (by simp only [List.length_cons]; omega) rest)

/-- A text of whole pairs is blank exactly when only zeros are emitted for it. -/
theorem blank_iff (even : text.length % 2 = 0) :
    Blank text ↔ ∀ v ∈ (decodePairs false text).1, v = 0 :=
  ⟨Blank.emits_zero, blank_of_emits_zero even⟩

/-- A pair with a NUL behind is read neither as 00 nor as the escape. -/
theorem str2hex_nul (x : UInt8) : str2hex x 0 ≠ 0 ∧ str2hex x 0 ≠ 0xAA := by
  have digit : asc2hex 0 = 0xD0 := by decide
  have sixth : ∀ c : UInt8, c <<< 4 ||| 0xD0 ≠ 0 ∧ c <<< 4 ||| 0xD0 ≠ 0xAA :=
    forall_byte (by decide +kernel)
  rw [str2hex, digit]
  exact sixth _

/-- Pairs the last of which has a NUL behind do not emit zeros only. -/
theorem decodePairs_nul (flag : Bool) (even : text.length % 2 = 0) (x : UInt8) :
    ∃ v ∈ (decodePairs flag (text ++ [x, 0])).1, v ≠ 0 := by
  rw [decodePairs_append flag even]
  cases (decodePairs flag text).2 with
  | true => exact ⟨str2hex 0 0, by simp [decodePairs], (str2hex_nul 0).1⟩
  | false => exact ⟨str2hex x 0, by simp [decodePairs, (str2hex_nul x).2], (str2hex_nul x).1⟩

/-! ## The markers -/

theorem drop_front (front body behind : List UInt8) :
    (front ++ frameText body ++ behind).drop front.length = frameText body ++ behind := by
  rw [List.append_assoc, List.drop_left]

theorem firstAt_begin (body behind : List UInt8) (noBegin : 'B'.toUInt8 ∉ front) :
    FirstAt beginMark (front ++ frameText body ++ behind) front.length := by
  constructor
  · rw [drop_front]
    exact ⟨body ++ endMark ++ behind, by simp [frameText]⟩
  · intro m before here
    rw [List.append_assoc, List.drop_append_of_le_length (Nat.le_of_lt before),
      List.drop_eq_getElem_cons before] at here
    have head := (List.cons_prefix_cons.mp here).1
    exact noBegin (head ▸ List.getElem_mem before)

/-- The first end marker is not in front of the frame, and does not reach into it: the frame
    begins with a B. -/
theorem firstAt_end (body behind : List UInt8) (noEnd : ¬ endMark <:+: front) :
    ∃ stop, FirstAt endMark (front ++ frameText body ++ behind) stop ∧ front.length ≤ stop := by
  have occurs : endMark <:+: front ++ frameText body ++ behind :=
    ⟨front ++ beginMark ++ body, behind, by simp [frameText]⟩
  obtain ⟨stop, last⟩ := exists_firstAt endMark_ne_nil occurs
  refine ⟨stop, last, ?_⟩
  by_contra before
  have here := last.1
  rw [List.append_assoc, List.drop_append_of_le_length (by omega)] at here
  have length : (front.drop stop).length = front.length - stop := List.length_drop
  have suffix : front.drop stop <:+ front := List.drop_suffix stop front
  cases rest : front.drop stop with
  | nil =>
      rw [rest, List.length_nil] at length
      omega
  | cons c tail =>
      rw [rest] at here suffix
      cases tail with
      | nil =>
          have second := (List.cons_prefix_cons.mp (List.cons_prefix_cons.mp here).2).1
          exact absurd second (by decide)
      | cons d tail =>
          obtain ⟨rfl, later⟩ := List.cons_prefix_cons.mp here
          obtain ⟨rfl, -⟩ := List.cons_prefix_cons.mp later
          exact noEnd (List.IsInfix.trans ⟨[], tail, rfl⟩ suffix.isInfix)

/-- With a NUL in front, the text ends before the frame and has no begin marker. -/
theorem not_decodable_of_nul (noBegin : 'B'.toUInt8 ∉ front) (nul : 0 ∈ front) (rest : List UInt8) :
    ¬ Decodable (messageText (front ++ rest)) := by
  rintro ⟨start, -, first, -⟩
  have stops : messageText (front ++ rest) = messageText front := by
    rw [messageText, List.takeWhile_append, if_neg]
    · rfl
    · intro all
      have whole := (List.takeWhile_prefix _).eq_of_length all
      exact messageText_ne_zero 0 (whole.symm ▸ nul) rfl
  rw [stops] at first
  have inFront := (List.drop_suffix start _).subset (first.1.subset List.mem_cons_self)
  exact noBegin ((List.takeWhile_prefix _).subset inFront)

/-! ## The bytes left -/

/-- For the frame alone they are its payload between the marker bytes. -/
theorem filter_alone (old : Obd) (payload : List UInt8)
    (short : (frameText (encode payload)).length ≤ 254) :
    ∃ iterations, ∀ fuel ≥ iterations, ∃ o,
      obdFilterEscapeAndTransferToHex fuel (received old (frameText (encode payload))) =
        some (true, o) ∧ o.hex = padded (0xBB :: payload ++ [0xEE]) := by
  have spells := spells_encode payload
  obtain ⟨n, even, -⟩ := frameText_length spells
  refine ⟨n, fun fuel many => ?_⟩
  have result := filter_received_whole old even short spells.ne_zero fuel many
  rwa [decodePairs_frameText spells] at result

/-- The decoder does as with the frame alone exactly when its loop leaves the same bytes. -/
theorem decodeAlike_iff (old old' : Obd) (noBegin : 'B'.toUInt8 ∉ front)
    (noEnd : ¬ endMark <:+: front)
    (nonNul : ∀ c ∈ front ++ frameText (encode payload) ++ behind, c ≠ 0)
    (short : (front ++ frameText (encode payload) ++ behind).length ≤ 254) :
    DecodeAlike (received old (front ++ frameText (encode payload) ++ behind))
        (received old' (frameText (encode payload))) ↔
      ((DecodeState.step front.length)^[((front ++ frameText (encode payload) ++
          behind).length + 1) / 2] (.start (received old (front ++ frameText (encode payload) ++
            behind)))).obd.hex = padded (0xBB :: payload ++ [0xEE]) := by
  have small : (front ++ frameText (encode payload) ++ behind).length ≤ bufSize :=
    Nat.le_trans short (by decide)
  have whole := messageText_of_ne_zero nonNul
  have first : FirstAt beginMark _ front.length :=
    firstAt_begin (encode payload) behind noBegin
  obtain ⟨stop, last, ordered⟩ := firstAt_end (encode payload) behind noEnd
  have around := fun fuel (enough : _ ≤ fuel) => filter_received old small (whole.symm ▸ short)
    (whole.symm ▸ first) (whole.symm ▸ last) ordered enough
  rw [whole] at around
  have shortAlone : (frameText (encode payload)).length ≤ 254 := by
    simp only [List.length_append] at short
    omega
  obtain ⟨iterations, alone⟩ := filter_alone old' payload shortAlone
  constructor
  · rintro ⟨fuel, o, o', left, right, same⟩
    obtain ⟨expected, result, hex⟩ := alone iterations (Nat.le_refl _)
    obtain ⟨-, rfl⟩ := Prod.mk.inj (filter_unique left (around _ (Nat.le_refl _)))
    obtain ⟨-, rfl⟩ := Prod.mk.inj (filter_unique right result)
    exact same.trans hex
  · intro same
    obtain ⟨expected, result, hex⟩ := alone (max iterations _) (Nat.le_max_left _ _)
    exact ⟨_, _, expected, around _ (Nat.le_max_right iterations _), result, same.trans hex.symm⟩

theorem decodePairs_frameText_append (payload rest : List UInt8) :
    (decodePairs false (frameText (encode payload) ++ rest)).1 =
      (0xBB :: payload ++ [0xEE]) ++ (decodePairs false rest).1 := by
  have spells := spells_encode payload
  obtain ⟨n, even, -⟩ := frameText_length spells
  rw [decodePairs_append false (by omega), decodePairs_frameText spells]

/-- Behind a frame, pairs the last of which has a NUL behind leave something that the frame
    alone does not. -/
theorem iterate_hex_ne {x : UInt8} {k : Nat} (even : text.length % 2 = 0)
    (window : Window o n (frameText (encode payload) ++ (text ++ [x, 0])))
    (enough : (frameText (encode payload)).length + text.length + 2 ≤ 2 * k) (few : k ≤ 127) :
    ((DecodeState.step n)^[k] (.start o)).obd.hex ≠ padded (0xBB :: payload ++ [0xEE]) := by
  intro same
  obtain ⟨pairs, size, -⟩ := frameText_length (spells_encode payload)
  obtain ⟨v, emitted, nonzero⟩ := decodePairs_nul false even x
  obtain ⟨i, small, rfl⟩ := List.getElem_of_mem emitted
  have all := decodePairs_frameText_append payload (text ++ [x, 0])
  have length := congrArg List.length all
  have count := decodePairs_length false (frameText (encode payload) ++ (text ++ [x, 0]))
  simp only [List.length_append, List.length_cons, List.length_nil] at length count
  have inside : payload.length + 2 + i < bufSize := by
    show _ < 256
    omega
  have here := DecodeState.iterate_emitted (n := pairs + (text.length + 2) / 2)
    (m := ⟨payload.length + 2 + i, inside⟩)
    (by simp only [List.length_append, List.length_cons, List.length_nil]; omega) window
    (by omega) few (by simp only; omega)
  rw [same] at here
  simp only [all] at here
  rw [List.getElem_append_right (by simp), padded, List.getD_eq_default _ _ (by simp)] at here
  have index : payload.length + 2 + i - (0xBB :: payload ++ [0xEE]).length = i := by simp
  simp only [index] at here
  exact nonzero here.symm

theorem padded_append_eq_iff {front rest : List UInt8}
    (small : front.length + rest.length ≤ bufSize) :
    padded (front ++ rest) = padded front ↔ ∀ v ∈ rest, v = 0 := by
  constructor
  · intro same v member
    obtain ⟨i, inRest, rfl⟩ := List.getElem_of_mem member
    have here := congrFun same ⟨front.length + i, by omega⟩
    rw [padded, padded, List.getD_append_right _ _ _ _ (Nat.le_add_right _ _),
      Nat.add_sub_cancel_left, List.getD_eq_getElem _ _ inRest,
      List.getD_eq_default _ _ (Nat.le_add_right _ _)] at here
    exact here
  · intro zeros
    funext i
    rw [padded, padded]
    rcases Nat.lt_or_ge i.val front.length with inFront | outside
    · rw [List.getD_append _ _ _ _ inFront]
    · rw [List.getD_append_right _ _ _ _ outside, List.getD_eq_default _ _ outside]
      rcases Nat.lt_or_ge (i.val - front.length) rest.length with inRest | behindRest
      · rw [List.getD_eq_getElem _ _ inRest]
        exact zeros _ (List.getElem_mem inRest)
      · exact List.getD_eq_default _ _ behindRest

/-! ## Which texts decode like their frame -/

/-- Two bytes more than the text are still zeros of the array. -/
theorem padded_append_zeros (text : List UInt8) : padded (text ++ [0, 0]) = padded text := by
  funext i
  rw [padded, padded]
  rcases Nat.lt_or_ge i.val text.length with inText | outside
  · rw [List.getD_append _ _ _ _ inText]
  · rw [List.getD_append_right _ _ _ _ outside, List.getD_eq_default _ _ outside]
    cases i.val - text.length with
    | zero => rfl
    | succ k =>
        cases k with
        | zero => rfl
        | succ k => rfl

/-- With anything in front of the frame, or half a pair behind it, the loop reads a NUL. -/
theorem iterate_around_ne (data : o.data = padded (front ++ frameText (encode payload) ++ behind))
    (short : (front ++ frameText (encode payload) ++ behind).length ≤ 254)
    (unlike : front ≠ [] ∨ behind.length % 2 = 1) :
    ((DecodeState.step front.length)^[((front ++ frameText (encode payload) ++
        behind).length + 1) / 2] (.start o)).obd.hex ≠ padded (0xBB :: payload ++ [0xEE]) := by
  obtain ⟨pairs, size, -⟩ := frameText_length (spells_encode payload)
  have zeros := data.trans (padded_append_zeros _).symm
  have inside : (front ++ frameText (encode payload) ++ behind ++ [0, 0]).length ≤ bufSize := by
    simp only [List.length_append, List.length_cons, List.length_nil] at short ⊢
    show _ ≤ 256
    omega
  have start : (front ++ frameText (encode payload) ++ behind ++ [0, 0]).drop front.length =
      frameText (encode payload) ++ (behind ++ [0, 0]) := by
    rw [List.drop_append_of_le_length (by simp), drop_front, List.append_assoc]
  simp only [List.length_append] at short ⊢
  rcases Nat.mod_two_eq_zero_or_one behind.length with even | odd
  · have before : 0 < front.length :=
      List.length_pos_iff.mpr (unlike.resolve_right (by omega))
    have window := window_of_drop zeros (start.trans (List.append_nil _).symm) inside
    exact iterate_hex_ne even window (by omega) (by omega)
  · obtain ⟨text, x, rfl⟩ := List.eq_nil_or_concat' behind |>.resolve_left
      (by rintro rfl; cases odd)
    have shape := start.trans
      (show _ = frameText (encode payload) ++ (text ++ [x, 0]) ++ [0] by simp)
    have window := window_of_drop zeros shape inside
    simp only [List.length_append, List.length_cons, List.length_nil] at odd short ⊢
    exact iterate_hex_ne (by omega) window (by omega) (by omega)

theorem iterate_behind_iff (data : o.data = padded (frameText (encode payload) ++ behind))
    (hex : o.hex = fun _ => 0) (short : (frameText (encode payload) ++ behind).length ≤ 254)
    (even : behind.length % 2 = 0) :
    ((DecodeState.step 0)^[((frameText (encode payload) ++ behind).length + 1) / 2]
        (.start o)).obd.hex = padded (0xBB :: payload ++ [0xEE]) ↔ Blank behind := by
  obtain ⟨pairs, size, enough⟩ := frameText_length (spells_encode payload)
  have length : (frameText (encode payload) ++ behind).length =
      2 * (((frameText (encode payload) ++ behind).length + 1) / 2) := by
    simp only [List.length_append]
    omega
  have few := decodePairs_length false behind
  rw [iterate_whole length short data hex, decodePairs_frameText_append, blank_iff even]
  apply padded_append_eq_iff
  simp only [List.length_append, List.length_cons, List.length_nil] at short ⊢
  show _ ≤ 256
  omega

/-- A text decodes as the frame in it alone does exactly when nothing stands in front of the
    frame and only blank pairs behind it. -/
theorem decodes_like_frame_iff (old old' : Obd) (payload : List UInt8)
    (noBegin : 'B'.toUInt8 ∉ front) (noEnd : ¬ endMark <:+: front)
    (nonNul : ∀ c ∈ behind, c ≠ 0)
    (short : (front ++ frameText (encode payload) ++ behind).length ≤ 254) :
    DecodeAlike (received old (front ++ frameText (encode payload) ++ behind))
        (received old' (frameText (encode payload))) ↔
      front = [] ∧ Blank behind := by
  by_cases nul : 0 ∈ front
  · have refused := not_decodable_of_nul noBegin nul (frameText (encode payload) ++ behind)
    rw [← List.append_assoc] at refused
    have within := messageText_length_le (front ++ frameText (encode payload) ++ behind)
    have room : (messageText (front ++ frameText (encode payload) ++ behind)).length < bufSize :=
      Nat.lt_of_le_of_lt (Nat.le_trans within short) (by decide)
    constructor
    · rintro ⟨fuel, o, o', accepted, -⟩
      rw [filter_refused old room refused] at accepted
      cases accepted
    · rintro ⟨rfl, -⟩
      cases nul
  · have allNonNul : ∀ c ∈ front ++ frameText (encode payload) ++ behind, c ≠ 0 := by
      intro c member
      simp only [List.mem_append] at member
      rcases member with (inFront | inFrame) | inBehind
      · rintro rfl
        exact nul inFront
      · exact frameText_ne_zero (spells_encode payload) c inFrame
      · exact nonNul c inBehind
    rw [decodeAlike_iff old old' noBegin noEnd allNonNul short]
    have data := received_data old (front ++ frameText (encode payload) ++ behind)
    by_cases unlike : front ≠ [] ∨ behind.length % 2 = 1
    · constructor
      · intro same
        exact absurd same (iterate_around_ne data short unlike)
      · rintro ⟨empty, blank⟩
        have even := blank.even
        exact absurd unlike (by simp [empty, even])
    · obtain ⟨empty, even⟩ := not_or.mp unlike
      obtain rfl := not_not.mp empty
      have alone := iterate_behind_iff data (received_hex old _) short (by omega)
      simpa using alone

theorem decodes_like_frame_iff_sample :
    DecodeAlike (received zeroBlock ([] ++ frameText (encode samplePayload) ++ byteText 0x00))
        (received zeroBlock (frameText (encode samplePayload))) ↔
      ([] : List UInt8) = [] ∧ Blank (byteText 0x00) :=
  decodes_like_frame_iff zeroBlock zeroBlock samplePayload List.not_mem_nil (by decide)
    (by decide +kernel) (by decide)

/-- A pair of digits behind the sample frame is decoded into `hex`. -/
theorem frame_with_pair_not_decodeAlike :
    (∀ c ∈ byteText 0x12, c ≠ 0) ∧
      (frameText (encode samplePayload) ++ byteText 0x12).length ≤ 254 ∧
      ¬ DecodeAlike (received zeroBlock (frameText (encode samplePayload) ++ byteText 0x12))
        (received zeroBlock (frameText (encode samplePayload))) := by
  have nonNul : ∀ c ∈ [] ++ frameText (encode samplePayload) ++ byteText 0x12, c ≠ 0 := by
    decide +kernel
  have short : ([] ++ frameText (encode samplePayload) ++ byteText 0x12).length ≤ 254 := by decide
  refine ⟨by decide +kernel, short, fun alike => ?_⟩
  have same := (decodeAlike_iff zeroBlock zeroBlock List.not_mem_nil (by decide) nonNul short).mp
    alike
  have blank := (iterate_behind_iff (received_data zeroBlock _) (received_hex zeroBlock _) short
    (by decide)).mp same
  have zero := blank.emits_zero 0x12 (by decide)
  exact absurd zero (by decide)

/-! ## The frame found -/

/-- The loop leaves the bytes of the frame at the start of `hex`. -/
theorem iterate_frame_prefix (spells : Spells payload body)
    (data : o.data = padded (front ++ frameText body ++ behind))
    (short : (front ++ frameText body ++ behind).length ≤ 254) :
    0xBB :: payload ++ [0xEE] <+: List.ofFn ((DecodeState.step front.length)^[((front ++
      frameText body ++ behind).length + 1) / 2] (.start o)).obd.hex := by
  obtain ⟨pairs, even, enough⟩ := frameText_length spells
  have all := decodePairs_frameText spells
  simp only [List.length_append] at short
  have inside : (front ++ frameText body ++ behind).length ≤ bufSize := by
    simp only [List.length_append]
    exact Nat.le_trans short (by decide)
  have window := window_of_drop data (drop_front front body behind) inside
  have fits : (0xBB :: payload ++ [0xEE]).length ≤ bufSize := by
    simp only [List.length_append, List.length_cons, List.length_nil]
    show _ ≤ 256
    omega
  refine List.prefix_iff_getElem.mpr ⟨by rwa [List.length_ofFn], fun i small => ?_⟩
  rw [List.getElem_ofFn]
  have here := DecodeState.iterate_emitted
    (k := ((front ++ frameText body ++ behind).length + 1) / 2)
    (m := ⟨i, Nat.lt_of_lt_of_le small fits⟩) even window
    (by simp only [List.length_append]; omega) (by simp only [List.length_append]; omega)
    (by rw [all]; exact small)
  simp only [all] at here
  exact here.symm

/-- An end marker in front of the frame is the first one. -/
theorem not_decodable_of_end (first : FirstAt beginMark (front ++ text) front.length)
    (ends : endMark <:+: front) : ¬ Decodable (front ++ text) := by
  rintro ⟨start, stop, first', last, ordered⟩
  obtain rfl := first'.unique first
  obtain ⟨ahead, rest, shape⟩ := ends
  have before : ahead.length < front.length := by
    have length := congrArg List.length shape
    simp only [List.length_append] at length
    have mark : endMark.length = 2 := rfl
    omega
  refine last.2 ahead.length (by omega) ?_
  rw [← shape, List.append_assoc, List.append_assoc, List.drop_left]
  exact List.prefix_append _ _

/-- Whatever stands around a frame whose begin marker is the first of the text, the decoder
    finds the bytes of the frame exactly when no end marker stands in front of it. -/
theorem frame_found_iff (old : Obd) (spells : Spells payload body)
    (first : FirstAt beginMark (front ++ frameText body ++ behind) front.length)
    (nonNul : ∀ c ∈ front ++ behind, c ≠ 0)
    (short : (front ++ frameText body ++ behind).length ≤ 254) :
    (∃ iterations, ∀ fuel ≥ iterations, ∃ o,
        obdFilterEscapeAndTransferToHex fuel (received old (front ++ frameText body ++ behind)) =
          some (true, o) ∧ 0xBB :: payload ++ [0xEE] <+: List.ofFn o.hex) ↔
      ¬ endMark <:+: front := by
  have small : (front ++ frameText body ++ behind).length ≤ bufSize :=
    Nat.le_trans short (by decide)
  have allNonNul : ∀ c ∈ front ++ frameText body ++ behind, c ≠ 0 := by
    intro c member
    simp only [List.mem_append] at member nonNul
    rcases member with (inFront | inFrame) | inBehind
    · exact nonNul c (.inl inFront)
    · exact frameText_ne_zero spells c inFrame
    · exact nonNul c (.inr inBehind)
  have whole := messageText_of_ne_zero allNonNul
  constructor
  · rintro ⟨iterations, found⟩ ends
    obtain ⟨o, accepts, -⟩ := found iterations (Nat.le_refl _)
    have refused : ¬ Decodable (messageText (front ++ frameText body ++ behind)) := by
      rw [whole, List.append_assoc]
      rw [List.append_assoc] at first
      exact not_decodable_of_end first ends
    rw [filter_refused old (by rw [whole]; exact Nat.lt_of_le_of_lt short (by decide)) refused]
      at accepts
    cases accepts
  · intro noEnd
    obtain ⟨stop, last, ordered⟩ := firstAt_end body behind noEnd
    refine ⟨((front ++ frameText body ++ behind).length + 1) / 2, fun fuel enough => ⟨_, ?_,
      iterate_frame_prefix spells (received_data old _) short⟩⟩
    have accepted := filter_received old small (whole.symm ▸ short) (whole.symm ▸ first)
      (whole.symm ▸ last) ordered (whole.symm ▸ enough)
    rwa [whole] at accepted

/-- Noise on either side of the sample frame. -/
theorem frame_found_iff_sample :
    (∃ iterations, ∀ fuel ≥ iterations, ∃ o,
        obdFilterEscapeAndTransferToHex fuel (received zeroBlock (byteText 0x0E ++
          frameText (encode samplePayload) ++ byteText 0x12)) = some (true, o) ∧
        0xBB :: samplePayload ++ [0xEE] <+: List.ofFn o.hex) ↔
      ¬ endMark <:+: byteText 0x0E :=
  frame_found_iff zeroBlock (spells_encode samplePayload) (by decide +kernel)
    (by decide +kernel) (by decide)

end ObdServer
