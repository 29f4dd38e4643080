import ObdServer.Reception

/-! # Which command a received text is dispatched as

The worker switches on the second byte of `hex` whatever the decoder returned. A text
without markers, or with EE in front of BB, leaves `hex` as it was initialised and is
dispatched as command 00; any other is dispatched as whatever its second pair of
characters decodes to.
-/

namespace ObdServer

variable {old o : Obd} {text : List UInt8} {c d : UInt8} {n m : Nat}

/-- A block in any state receives the text, and `OBD_decode` then switches on `c`. The
    message is put only when its length is not zero. -/
def Dispatches (old : Obd) (text : List UInt8) (c : UInt8) : Prop :=
  (received old text).dataLength ≠ 0 ∧
    ∃ fuel o, obdDecodeThread fuel (received old text) = some o ∧ obdDecodeCmd o = c

/-- No end marker stands in front of the first begin marker. -/
def MarkersOrdered (text : List UInt8) : Prop :=
  ∀ m n, FirstAt endMark text m → FirstAt beginMark text n → n ≤ m

/-! ## The search for a marker -/

theorem beginMark_ne_nil : beginMark ≠ [] :=
  List.cons_ne_nil _ _

theorem endMark_ne_nil : endMark ≠ [] :=
  List.cons_ne_nil _ _

theorem strstr_eq_some_iff {needle hay : List UInt8} (nonempty : needle ≠ []) :
    strstr hay needle = some n ↔ FirstAt needle hay n := by
  induction hay generalizing n with
  | nil => simp [strstr, FirstAt, nonempty]
  | cons c hay ih =>
      by_cases front : needle <+: c :: hay
      · rw [strstr, if_pos front, Option.some_inj]
        constructor
        · rintro rfl
          exact ⟨front, fun m small => absurd small (Nat.not_lt_zero m)⟩
        · rintro ⟨-, first⟩
          by_contra later
          exact first 0 (Nat.pos_of_ne_zero (Ne.symm later)) front
      · rw [strstr, if_neg front, Option.map_eq_some_iff]
        constructor
        · rintro ⟨k, found, rfl⟩
          obtain ⟨here, first⟩ := ih.mp found
          refine ⟨here, fun m small => ?_⟩
          cases m with
          | zero => exact front
          | succ m => exact first m (Nat.lt_of_succ_lt_succ small)
        · rintro ⟨here, first⟩
          cases n with
          | zero => exact absurd here front
          | succ k =>
              exact ⟨k, ih.mpr ⟨here, fun m small => first (m + 1) (Nat.succ_lt_succ small)⟩, rfl⟩

theorem strstr_within {needle hay : List UInt8} (nonempty : needle ≠ [])
    (found : strstr hay needle = some n) : n + needle.length ≤ hay.length := by
  have here := ((strstr_eq_some_iff nonempty).mp found).1.length_le
  rw [List.length_drop] at here
  have positive := List.length_pos_iff.mpr nonempty
  omega

theorem infix_of_strstr {needle hay : List UInt8} (nonempty : needle ≠ [])
    (found : strstr hay needle = some n) : needle <:+: hay :=
  ((strstr_eq_some_iff nonempty).mp found).1.isInfix.trans (List.drop_suffix n hay).isInfix

theorem FirstAt.unique {needle : List UInt8} (left : FirstAt needle text m)
    (right : FirstAt needle text n) : m = n := by
  rcases Nat.lt_trichotomy m n with before | same | after
  · exact absurd left.1 (right.2 m before)
  · exact same
  · exact absurd right.1 (left.2 n after)

/-! ## The block put -/

/-- The block put holds the text and zeros behind it, its length and an output of zeros. -/
theorem received_spec (old : Obd) (short : text.length ≤ 254) (nonNul : ∀ c ∈ text, c ≠ 0) :
    (received old text).data = padded text ∧
      (received old text).dataLength.toNat = text.length ∧
      (received old text).hex = fun _ => 0 := by
  have small : text.length ≤ bufSize := Nat.le_trans short (by decide)
  refine ⟨received_data old text, ?_, received_hex old text⟩
  rw [received_dataLength old small, messageText_of_ne_zero nonNul, UInt8.toNat_ofNat']
  omega

theorem received_cstr (old : Obd) (short : text.length ≤ 254) (nonNul : ∀ c ∈ text, c ≠ 0) :
    (received old text).cstr = text := by
  have whole := messageText_of_ne_zero nonNul
  have room : (messageText text).length < bufSize := by
    rw [whole]
    exact Nat.lt_of_le_of_lt short (by decide)
  rw [received_cstr_messageText old room, whole]

/-! ## The command dispatched -/

theorem decodePairs_beginMark (text : List UInt8) :
    decodePairs false (beginMark ++ text) =
      (0xBB :: (decodePairs false text).1, (decodePairs false text).2) := rfl

/-- The pair behind the begin marker, when it is not an escape, is dispatched. -/
theorem iterate_cmd {x y : UInt8} {rest : List UInt8} {k : Nat}
    (small : text.length ≤ bufSize) (data : o.data = padded text)
    (frame : text.drop n = beginMark ++ x :: y :: rest)
    (noEscape : str2hex x y ≠ 0xAA) (enough : 2 ≤ k) (few : k ≤ 127) :
    ((DecodeState.step n)^[k] (.start o)).obd.hex 1 = str2hex x y := by
  have window : Window o n (beginMark ++ [x, y]) :=
    window_of_drop data (by simpa using frame) small
  have pairs : (decodePairs false (beginMark ++ [x, y])).1 = [0xBB, str2hex x y] := by
    rw [decodePairs_beginMark]
    simp [decodePairs, noEscape]
  have second := DecodeState.iterate_emitted (n := 2) (m := 1) rfl window enough few
    (by rw [pairs]; exact Nat.lt_succ_self 1)
  simpa [pairs] using second

/-- Behind an escape, the second character of the next pair is. -/
theorem iterate_cmd_escaped {a a' x y : UInt8} {rest : List UInt8} {k : Nat}
    (small : text.length ≤ bufSize) (data : o.data = padded text)
    (frame : text.drop n = beginMark ++ a :: a' :: x :: y :: rest)
    (escape : str2hex a a' = 0xAA) (enough : 3 ≤ k) (few : k ≤ 127) :
    ((DecodeState.step n)^[k] (.start o)).obd.hex 1 = str2hex y y := by
  have window : Window o n (beginMark ++ [a, a', x, y]) :=
    window_of_drop data (by simpa using frame) small
  have pairs : (decodePairs false (beginMark ++ [a, a', x, y])).1 = [0xBB, str2hex y y] := by
    rw [decodePairs_beginMark]
    simp [decodePairs, escape]
  have second := DecodeState.iterate_emitted (n := 3) (m := 1) rfl window enough few
    (by rw [pairs]; exact Nat.lt_succ_self 1)
  simpa [pairs] using second

/-- The command does not depend on the bound of the decoder's loop. -/
theorem Dispatches.unique (left : Dispatches old text c) (right : Dispatches old text d) :
    c = d := by
  obtain ⟨-, fuel, o, first, rfl⟩ := left
  obtain ⟨-, fuel', o', second, rfl⟩ := right
  obtain ⟨r, decoded, rfl⟩ := Option.map_eq_some_iff.mp first
  obtain ⟨r', decoded', rfl⟩ := Option.map_eq_some_iff.mp second
  rw [filter_unique decoded decoded']

theorem received_nonempty (old : Obd) (short : text.length ≤ 254) (nonNul : ∀ c ∈ text, c ≠ 0) :
    (received old text).dataLength ≠ 0 ↔ text ≠ [] := by
  have length := (received_spec old short nonNul).2.1
  rw [not_iff_not, ← UInt8.toNat_inj, length]
  exact List.length_eq_zero_iff

theorem strstr_received (old : Obd) (short : text.length ≤ 254) (nonNul : ∀ c ∈ text, c ≠ 0)
    {needle : List UInt8} (nonempty : needle ≠ []) :
    strstr (received old text).cstr needle = some n ↔ FirstAt needle text n := by
  rw [received_cstr old short nonNul, strstr_eq_some_iff nonempty]

theorem dispatches_zero (old : Obd) (short : text.length ≤ 254) (nonNul : ∀ c ∈ text, c ≠ 0)
    (nonempty : text ≠ [])
    (bad : ∀ start stop, FirstAt beginMark text start → FirstAt endMark text stop →
      stop < start) : Dispatches old text 0 := by
  refine ⟨(received_nonempty old short nonNul).mpr nonempty, 0, _,
    congrArg (Option.map Prod.snd) (filter_of_unordered (fun start stop first last => ?_) 0), ?_⟩
  · exact bad start stop ((strstr_received old short nonNul (by decide)).mp first)
      ((strstr_received old short nonNul (by decide)).mp last)
  · rw [obdDecodeCmd, (received_spec old short nonNul).2.2]

/-- A text with its markers in order is dispatched as whatever the loop leaves. -/
theorem dispatches_ordered (old : Obd) (short : text.length ≤ 254) (nonNul : ∀ c ∈ text, c ≠ 0)
    (nonempty : text ≠ []) (first : FirstAt beginMark text n) (last : FirstAt endMark text m)
    (ordered : n ≤ m) :
    Dispatches old text
      (((DecodeState.step n)^[(text.length + 1) / 2] (.start (received old text))).obd.hex 1) := by
  have length := (received_spec old short nonNul).2.1
  have result := filter_of_markers (by omega)
    ((strstr_received old short nonNul (by decide)).mpr first)
    ((strstr_received old short nonNul (by decide)).mpr last) ordered (Nat.le_refl _)
  rw [length] at result
  exact ⟨(received_nonempty old short nonNul).mpr nonempty, _, _,
    congrArg (Option.map Prod.snd) result, rfl⟩

theorem exists_dispatches (old : Obd) (short : text.length ≤ 254) (nonNul : ∀ c ∈ text, c ≠ 0)
    (nonempty : text ≠ []) : ∃ c, Dispatches old text c := by
  by_cases ordered : ∃ start stop, FirstAt beginMark text start ∧ FirstAt endMark text stop ∧
      start ≤ stop
  · obtain ⟨start, stop, first, last, inOrder⟩ := ordered
    exact ⟨_, dispatches_ordered old short nonNul nonempty first last inOrder⟩
  · use 0
    apply dispatches_zero old short nonNul nonempty
    intro start stop first last
    by_contra inOrder
    exact ordered ⟨start, stop, first, last, Nat.not_lt.mp inOrder⟩

/-! ## Frames -/

theorem HasFrame.ne_nil (frame : HasFrame text c) : text ≠ [] := by
  obtain ⟨n, x, y, rest, -, shape, -⟩ := frame
  rintro rfl
  simp [beginMark] at shape

theorem exists_firstAt {needle : List UInt8} (nonempty : needle ≠ [])
    (occurs : needle <:+: text) : ∃ n, FirstAt needle text n := by
  obtain ⟨n, found⟩ := strstr_of_infix occurs
  exact ⟨n, (strstr_eq_some_iff nonempty).mp found⟩

theorem HasFrame.exists_end (frame : HasFrame text c) : ∃ m, FirstAt endMark text m := by
  obtain ⟨n, x, y, rest, -, shape, -, -, tail⟩ := frame
  apply exists_firstAt endMark_ne_nil
  apply tail.end_infix.trans
  have behind : rest <:+ text.drop n := ⟨beginMark ++ [x, y], by rw [shape, List.append_assoc]; rfl⟩
  exact (behind.trans (List.drop_suffix n text)).isInfix

/-- A frame behind no stray end marker is dispatched as its command. -/
theorem dispatches_frame (old : Obd) (short : text.length ≤ 254) (nonNul : ∀ c ∈ text, c ≠ 0)
    (frame : HasFrame text c) (ordered : MarkersOrdered text) : Dispatches old text c := by
  obtain ⟨m, last⟩ := frame.exists_end
  have nonempty := frame.ne_nil
  obtain ⟨n, x, y, rest, first, shape, ordinary, byte, tail⟩ := frame
  have noEscape : str2hex x y ≠ 0xAA := by
    rw [byte.str2hex]
    rintro rfl
    exact ordinary List.mem_cons_self
  have long : 4 ≤ text.length := by
    have length := congrArg List.length shape
    rw [List.length_drop] at length
    simp only [beginMark, List.length_append, List.length_cons] at length
    omega
  have dispatched := dispatches_ordered old short nonNul nonempty first last
    (ordered m n last first)
  have small : text.length ≤ bufSize := Nat.le_trans short (by decide)
  rwa [iterate_cmd small (received_spec old short nonNul).1 shape noEscape (by omega) (by omega),
    byte.str2hex] at dispatched

/-- Only frames are dispatched, and with their own command, exactly when the text has a
    frame at its first begin marker and either no end marker stands in front of it or the
    frame's command is the 00 that such a text is dispatched as. -/
theorem dispatches_only_frames_iff (old : Obd) (short : text.length ≤ 254)
    (nonNul : ∀ c ∈ text, c ≠ 0) :
    (∀ c, Dispatches old text c → HasFrame text c) ↔
      text = [] ∨ ∃ c, HasFrame text c ∧ (MarkersOrdered text ∨ c = 0x00) := by
  have unordered : text ≠ [] → ¬ MarkersOrdered text → Dispatches old text 0 := by
    intro nonempty stray
    simp only [MarkersOrdered, not_forall, Nat.not_le] at stray
    obtain ⟨m, n, last, first, before⟩ := stray
    apply dispatches_zero old short nonNul nonempty
    intro start stop first' last'
    rwa [first'.unique first, last'.unique last]
  constructor
  · intro onlyFrames
    rcases eq_or_ne text [] with empty | nonempty
    · exact .inl empty
    · obtain ⟨c, dispatched⟩ := exists_dispatches old short nonNul nonempty
      refine .inr ⟨c, onlyFrames c dispatched, ?_⟩
      by_cases ordered : MarkersOrdered text
      · exact .inl ordered
      · exact .inr (dispatched.unique (unordered nonempty ordered))
  · rintro (rfl | ⟨c, frame, ordered | rfl⟩) d dispatched
    · exact absurd rfl ((received_nonempty old short nonNul).mp dispatched.1)
    · exact dispatched.unique (dispatches_frame old short nonNul frame ordered) ▸ frame
    · by_cases ordered : MarkersOrdered text
      · exact dispatched.unique (dispatches_frame old short nonNul frame ordered) ▸ frame
      · exact dispatched.unique (unordered frame.ne_nil ordered) ▸ frame

theorem dispatches_only_frames_iff_sample :
    (∀ c, Dispatches zeroBlock (frameText (encode samplePayload)) c →
        HasFrame (frameText (encode samplePayload)) c) ↔
      frameText (encode samplePayload) = [] ∨
        ∃ c, HasFrame (frameText (encode samplePayload)) c ∧
          (MarkersOrdered (frameText (encode samplePayload)) ∨ c = 0x00) :=
  dispatches_only_frames_iff zeroBlock (by decide)
    (frameText_ne_zero (spells_encode samplePayload))

/-- `"PING"`. -/
def noFrame : List UInt8 := ['P'.toUInt8, 'I'.toUInt8, 'N'.toUInt8, 'G'.toUInt8]

/-- A text without markers is dispatched as command 00. -/
theorem dispatches_without_frame :
    Dispatches zeroBlock noFrame 0x00 ∧
      ¬ ∀ c, Dispatches zeroBlock noFrame c → HasFrame noFrame c := by
  have noBegin : ∀ n, ¬ FirstAt beginMark noFrame n := fun n first =>
    absurd (first.1.isInfix.trans (List.drop_suffix n noFrame).isInfix) (by decide)
  have nonNul : ∀ c ∈ noFrame, c ≠ 0 := by decide +kernel
  have dispatched : Dispatches zeroBlock noFrame 0x00 :=
    dispatches_zero zeroBlock (by decide) nonNul (by decide) fun start _ first _ =>
      absurd first (noBegin start)
  constructor
  · exact dispatched
  intro onlyFrames
  obtain ⟨n, -, -, -, first, -⟩ := onlyFrames _ dispatched
  exact noBegin n first

end ObdServer
