import ObdServer.CommandDispatch

/-! # When the decoder's loop ends, and where it reads

The loop counts to `data_length` in eight bits and in steps of two, and it reads from the
first begin marker on. It never reaches a length of 255, and with a marker far behind the
front it leaves `data`.
-/

namespace ObdServer

open WhileLoop

variable {o old : Obd} {bytes : List UInt8} {s : DecodeState} {start stop : Nat}

/-- The decoder runs its loop: both markers are there, and in order. -/
def Decodable (text : List UInt8) : Prop :=
  ∃ start stop, FirstAt beginMark text start ∧ FirstAt endMark text stop ∧ start ≤ stop

theorem lt_of_not_decodable {text : List UInt8} (bad : ¬ Decodable text)
    (begins : strstr text beginMark = some start) (ends : strstr text endMark = some stop) :
    stop < start := by
  by_contra ordered
  exact bad ⟨start, stop, (strstr_eq_some_iff beginMark_ne_nil).mp begins,
    (strstr_eq_some_iff endMark_ne_nil).mp ends, Nat.not_lt.mp ordered⟩

/-- The decoder returns. -/
def Terminates (o : Obd) : Prop :=
  ∃ fuel result, obdFilterEscapeAndTransferToHex fuel o = some result

/-! ## Termination -/

/-- An even index below 255 stays one. -/
theorem run_full_eq_none (full : o.dataLength = 255) (start fuel : Nat) :
    run DecodeState.more (DecodeState.step start) fuel (.start o) = none := by
  have below : (255 : UInt8).toNat = 255 := rfl
  have two : (2 : UInt8).toNat = 2 := rfl
  apply run_eq_none fun s => s.i.toNat % 2 = 0 ∧ s.obd.dataLength = 255
  · rintro s ⟨even, length⟩
    have small := s.i.toNat_lt
    rw [DecodeState.more_iff, length, below]
    omega
  · rintro s ⟨even, length⟩
    refine ⟨?_, (DecodeState.step_dataLength start s).trans length⟩
    rw [DecodeState.step_i, UInt8.toNat_add, two]
    omega
  · exact ⟨rfl, full⟩

theorem strstr_cstr_iff (old : Obd) (room : (messageText bytes).length < bufSize)
    {needle : List UInt8} (nonempty : needle ≠ []) {n : Nat} :
    strstr (received old bytes).cstr needle = some n ↔ FirstAt needle (messageText bytes) n := by
  rw [received_cstr_messageText old room, strstr_eq_some_iff nonempty]

/-- The decoder accepts a text of at most 254 bytes with its markers in order. -/
theorem filter_received (old : Obd) (small : bytes.length ≤ bufSize)
    (short : (messageText bytes).length ≤ 254) (first : FirstAt beginMark (messageText bytes) start)
    (last : FirstAt endMark (messageText bytes) stop) (ordered : start ≤ stop) {fuel : Nat}
    (enough : ((messageText bytes).length + 1) / 2 ≤ fuel) :
    obdFilterEscapeAndTransferToHex fuel (received old bytes) = some (true,
      ((DecodeState.step start)^[((messageText bytes).length + 1) / 2]
        (.start (received old bytes))).obd) := by
  have room : (messageText bytes).length < bufSize := Nat.lt_of_le_of_lt short (by decide)
  have length := received_toNat old small room
  have begins := (strstr_cstr_iff old room beginMark_ne_nil).mpr first
  have ends := (strstr_cstr_iff old room endMark_ne_nil).mpr last
  have result := filter_of_markers (by omega) begins ends ordered (show _ ≤ fuel by omega)
  rwa [length] at result

/-- Without its markers in order it refuses any text. -/
theorem filter_refused (old : Obd) (room : (messageText bytes).length < bufSize)
    (bad : ¬ Decodable (messageText bytes)) (fuel : Nat) :
    obdFilterEscapeAndTransferToHex fuel (received old bytes) =
      some (false, received old bytes) := by
  apply filter_of_unordered
  intro start stop begins ends
  rw [received_cstr_messageText old room] at begins ends
  exact lt_of_not_decodable bad begins ends

/-- Either way its result on a short message does not depend on what the block held. -/
theorem filter_short (short : bytes.length ≤ 254) :
    ∃ r, ∀ old, ∀ fuel ≥ 127,
      obdFilterEscapeAndTransferToHex fuel (received old bytes) = some r := by
  obtain ⟨small, within, room⟩ := messageText_short short
  by_cases decodable : Decodable (messageText bytes)
  · obtain ⟨start, stop, first, last, ordered⟩ := decodable
    refine ⟨(true, ((DecodeState.step start)^[((messageText bytes).length + 1) / 2]
      (.start (received zeroBlock bytes))).obd), fun old fuel enough => ?_⟩
    rw [received_eq old zeroBlock small]
    exact filter_received zeroBlock small within first last ordered (by omega)
  · refine ⟨(false, received zeroBlock bytes), fun old fuel _ => ?_⟩
    rw [received_eq old zeroBlock small]
    exact filter_refused zeroBlock room decodable fuel

theorem not_terminates (old : Obd) (small : bytes.length ≤ bufSize)
    (full : (messageText bytes).length = 255) (decodable : Decodable (messageText bytes)) :
    ¬ Terminates (received old bytes) := by
  have room : (messageText bytes).length < bufSize := by
    rw [full]
    decide
  obtain ⟨start, stop, begins, ends, ordered⟩ := decodable
  have first := (strstr_cstr_iff old room beginMark_ne_nil).mpr begins
  have last := (strstr_cstr_iff old room endMark_ne_nil).mpr ends
  have whole : (received old bytes).dataLength = 255 :=
    UInt8.toNat_inj.mp ((received_toNat old small room).trans full)
  rintro ⟨fuel, result, returns⟩
  rw [filter_of_ordered first last ordered, run_full_eq_none whole] at returns
  cases returns

theorem terminates (old : Obd) (small : bytes.length ≤ bufSize)
    (room : (messageText bytes).length < bufSize)
    (fine : (messageText bytes).length ≠ 255 ∨ ¬ Decodable (messageText bytes)) :
    Terminates (received old bytes) := by
  have size : bufSize = 256 := rfl
  by_cases decodable : Decodable (messageText bytes)
  · have short := fine.resolve_right (not_not.mpr decodable)
    obtain ⟨start, stop, first, last, ordered⟩ := decodable
    exact ⟨_, _, filter_received old small (by omega) first last ordered (Nat.le_refl _)⟩
  · exact ⟨0, _, filter_refused old room decodable 0⟩

/-- The decoder returns on a message that is put exactly when its text is not 255 bytes
    long or the markers are not there in order. -/
theorem terminates_iff (old : Obd) (small : bytes.length ≤ bufSize)
    (queued : (received old bytes).dataLength ≠ 0) :
    Terminates (received old bytes) ↔
      (messageText bytes).length ≠ 255 ∨ ¬ Decodable (messageText bytes) := by
  constructor
  · intro returns
    by_contra both
    obtain ⟨full, decodable⟩ := not_or.mp both
    exact not_terminates old small (not_not.mp full) (not_not.mp decodable) returns
  · exact terminates old small ((received_queued_iff old small).mp queued).2

theorem terminates_iff_sample :
    Terminates (received zeroBlock (frameText (encode samplePayload))) ↔
      (messageText (frameText (encode samplePayload))).length ≠ 255 ∨
        ¬ Decodable (messageText (frameText (encode samplePayload))) :=
  terminates_iff zeroBlock (by decide) ((received_queued_iff zeroBlock (by decide)).mpr (by decide))

/-- A text of 255 bytes with both markers. -/
def longText : List UInt8 := frameText (List.replicate 251 '0'.toUInt8)

theorem longText_not_terminates :
    longText.length ≤ bufSize ∧ (received zeroBlock longText).dataLength ≠ 0 ∧
      ¬ Terminates (received zeroBlock longText) := by
  have small : longText.length ≤ bufSize := by decide +kernel
  have markers : Decodable (messageText longText) :=
    ⟨0, 253, by decide +kernel, by decide +kernel, by decide⟩
  exact ⟨small, (received_queued_iff zeroBlock small).mpr (by decide +kernel),
    not_terminates zeroBlock small (by decide +kernel) markers⟩

/-! ## The positions read -/

/-- The positions an iteration reads: two of them, and behind an escape only the second. -/
def DecodeState.reads (start : Nat) (s : DecodeState) : List Nat :=
  if s.flag then [start + s.i.toNat + 1] else [start + s.i.toNat, start + s.i.toNat + 1]

/-- Every iteration of the decoder on the block reads inside `data`. -/
def ReadsInside (o : Obd) : Prop :=
  ∀ start stop, strstr o.cstr beginMark = some start → strstr o.cstr endMark = some stop →
    start ≤ stop → ∀ k, (∀ m ≤ k, ((DecodeState.step start)^[m] (.start o)).more = true) →
      ∀ n ∈ ((DecodeState.step start)^[k] (.start o)).reads start, n < bufSize

theorem DecodeState.reads_inside_iff (s : DecodeState) (start : Nat) :
    (∀ n ∈ s.reads start, n < bufSize) ↔ start + s.i.toNat + 1 < bufSize := by
  rw [reads]
  split_ifs
  · simp
  · simp only [List.mem_cons, List.not_mem_nil, or_false, forall_eq_or_imp, forall_eq]
    omega

/-- With `n` bytes to read from `start` on, the last iteration reads furthest. -/
theorem iterations_inside_iff {n : Nat} (length : o.dataLength.toNat = n) (short : n ≤ 254)
    (nonempty : 0 < n) (start : Nat) :
    (∀ k, (∀ m ≤ k, ((DecodeState.step start)^[m] (.start o)).more = true) →
      ∀ p ∈ ((DecodeState.step start)^[k] (.start o)).reads start, p < bufSize) ↔
        start + 2 * ((n + 1) / 2) ≤ bufSize := by
  have iterates := DecodeState.iterates (o := o) (by omega) start
  rw [length] at iterates
  have zero : (DecodeState.start o).i.toNat = 0 := rfl
  constructor
  · intro inside
    have last := inside ((n + 1) / 2 - 1) fun m early => iterates.1 m (by omega)
    rw [DecodeState.reads_inside_iff, DecodeState.iterate_i (by omega), zero] at last
    omega
  · intro room k more
    have early : k < (n + 1) / 2 := by
      by_contra late
      exact iterates.2 (more _ (Nat.not_lt.mp late))
    rw [DecodeState.reads_inside_iff, DecodeState.iterate_i (by omega), zero]
    omega

/-- On a message of at most 254 bytes the decoder stays inside the buffer exactly when the
    text, counted from its first begin marker on and rounded up to pairs, would. -/
theorem readsInside_iff (old : Obd) (short : bytes.length ≤ 254)
    (queued : (received old bytes).dataLength ≠ 0) :
    ReadsInside (received old bytes) ↔
      ∀ start stop, FirstAt beginMark (messageText bytes) start →
        FirstAt endMark (messageText bytes) stop → start ≤ stop →
          start + 2 * (((messageText bytes).length + 1) / 2) ≤ bufSize := by
  obtain ⟨small, within, room⟩ := messageText_short short
  have nonempty := ((received_queued_iff old small).mp queued).1
  have length := received_toNat old small room
  simp only [ReadsInside, strstr_cstr_iff old room beginMark_ne_nil,
    strstr_cstr_iff old room endMark_ne_nil,
    iterations_inside_iff length within nonempty]

theorem readsInside_iff_sample :
    ReadsInside (received zeroBlock (frameText (encode samplePayload))) ↔
      ∀ start stop, FirstAt beginMark (messageText (frameText (encode samplePayload))) start →
        FirstAt endMark (messageText (frameText (encode samplePayload))) stop → start ≤ stop →
          start + 2 * (((messageText (frameText (encode samplePayload))).length + 1) / 2) ≤
            bufSize :=
  readsInside_iff zeroBlock (by decide)
    ((received_queued_iff zeroBlock (by decide)).mpr (by decide))

/-- A text with its begin marker behind the middle of the buffer. -/
def lateMarker : List UInt8 := List.replicate 128 '0'.toUInt8 ++ frameText []

theorem lateMarker_not_readsInside :
    lateMarker.length ≤ 254 ∧ (received zeroBlock lateMarker).dataLength ≠ 0 ∧
      ¬ ReadsInside (received zeroBlock lateMarker) := by
  have short : lateMarker.length ≤ 254 := by decide +kernel
  have small : lateMarker.length ≤ bufSize := Nat.le_trans short (by decide)
  have size : (messageText lateMarker).length = 132 := by decide +kernel
  have room : (messageText lateMarker).length < bufSize := by
    rw [size]
    decide
  have first := (strstr_cstr_iff zeroBlock room beginMark_ne_nil).mpr
    (show FirstAt beginMark (messageText lateMarker) 128 by decide +kernel)
  have last := (strstr_cstr_iff zeroBlock room endMark_ne_nil).mpr
    (show FirstAt endMark (messageText lateMarker) 130 by decide +kernel)
  refine ⟨short, (received_queued_iff zeroBlock small).mpr (by decide +kernel), fun inside => ?_⟩
  have length := (received_toNat zeroBlock small room).trans size
  have tooFar := (iterations_inside_iff length (by decide) (by decide) 128).mp
    (inside 128 130 first last (by decide))
  exact absurd tooFar (by decide)

/-! ## The positions written -/

namespace DecodeState

end DecodeState

end ObdServer
