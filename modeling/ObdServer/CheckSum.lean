import ObdServer.DecoderLoop

/-! # The check sum

`OBD_check_sum` adds up as many bytes as `len` says, which is 0, and compares with the pair
in front of the first end marker. It therefore accepts a frame when 00 stands there. Without
an end marker it reads that pair below the null pointer.
-/

namespace ObdServer

open WhileLoop

/-- The variables of the loop of `OBD_check_sum`. -/
structure SumState where
  i : UInt8
  flag : Bool
  len : UInt8
  sum : UInt8

namespace SumState

def start : SumState := { i := 0, flag := false, len := 0, sum := 0 }

/-- The loop condition, in `int`. -/
def more (s : SumState) : Bool := s.i.toNat + 2 ≤ s.len.toNat

/-- The loop body and `i+=2`; `start` is the position of `begin` in the text. -/
def step (o : Obd) (start : Nat) (s : SumState) : SumState :=
  let first := o.byteAt (start + s.i.toNat)
  let second := o.byteAt (start + s.i.toNat + 1)
  let s := { s with i := s.i + 2 }
  if s.flag then
    { s with flag := false, sum := s.sum + str2hex second second }
  else if str2hex first second = 0xAA then
    { s with flag := true }
  else
    { s with sum := s.sum + str2hex first second }

end SumState

/-- How a call of `OBD_check_sum` ends. -/
inductive CheckSum where
  | returned (result : Bool)
  /-- It reads at `NULL - 2`. -/
  | wildRead
  deriving DecidableEq

/-- `OBD_check_sum`, with a bound on the iterations of its loop. `NULL - 2` is not `NULL`
    and lies behind `begin`, so that a missing end marker passes the test. -/
def obdCheckSum (fuel : Nat) (o : Obd) : Option CheckSum :=
  match strstr o.cstr beginMark, strstr o.cstr endMark with
  | none, _ => some (.returned false)
  | some start, none =>
      (run SumState.more (SumState.step o start) fuel .start).map fun _ => .wildRead
  | some start, some stop =>
      if (stop : Int) - 2 < start then some (.returned false)
      else (run SumState.more (SumState.step o start) fuel .start).map fun s =>
        .returned (str2hex (o.byteAt (stop - 2)) (o.byteAt (stop - 2 + 1)) = s.sum)

/-- The positions an iteration reads: two of them, and behind an escape only the second. -/
def SumState.reads (start : Nat) (s : SumState) : List Nat :=
  if s.flag then [start + s.i.toNat + 1] else [start + s.i.toNat, start + s.i.toNat + 1]

/-- The test in front of the loop lets `begin` at `start` pass. -/
def PassesTest (o : Obd) (start : Nat) : Prop :=
  strstr o.cstr beginMark = some start ∧
    ∀ stop, strstr o.cstr endMark = some stop → start + 2 ≤ stop

/-- `OBD_check_sum` may read a character at this offset of `data`, or below the null pointer,
    which is `none`. -/
inductive CheckSumReads (o : Obd) : Option Nat → Prop where
  /-- `strstr` stops at the terminator. -/
  | search {n : Nat} : n ≤ o.strlen → CheckSumReads o (some n)
  | sum {start k n : Nat} :
      PassesTest o start →
      (∀ m ≤ k, ((SumState.step o start)^[m] .start).more = true) →
      n ∈ ((SumState.step o start)^[k] .start).reads start →
      CheckSumReads o (some n)
  | pair {start stop n : Nat} :
      PassesTest o start → strstr o.cstr endMark = some stop → n ∈ [stop - 2, stop - 2 + 1] →
      CheckSumReads o (some n)
  | wild {start : Nat} :
      PassesTest o start → strstr o.cstr endMark = none → CheckSumReads o none

/-- The sum of some bytes. -/
def byteSum : List UInt8 → Nat
  | [] => 0
  | b :: payload => b.toNat + byteSum payload

/-- The characters 00 stand in front of the first end marker. -/
def ZerosBeforeEnd (text : List UInt8) : Prop :=
  ∃ n, FirstAt endMark text (n + 2) ∧ ['0'.toUInt8, '0'.toUInt8] <+: text.drop n

variable {o : Obd} {payload : List UInt8} {start stop : Nat}

/-! ## What is compared -/

/-- The loop makes no iteration. -/
theorem run_sum (o : Obd) (start fuel : Nat) :
    run SumState.more (SumState.step o start) fuel .start = some .start := by
  have stops : Iterates SumState.more (SumState.step o start) 0 .start :=
    ⟨fun k small => absurd small (Nat.not_lt_zero k), Bool.false_ne_true⟩
  exact run_of_iterates stops (Nat.zero_le fuel)

theorem checkSum_of_markers (first : strstr o.cstr beginMark = some start)
    (last : strstr o.cstr endMark = some stop) (ordered : start + 2 ≤ stop) (fuel : Nat) :
    obdCheckSum fuel o = some (.returned
      (str2hex (o.byteAt (stop - 2)) (o.byteAt (stop - 2 + 1)) = 0)) := by
  unfold obdCheckSum
  rw [first, last]
  simp only
  rw [if_neg (by omega), run_sum]
  rfl

/-! ## The text of a frame -/

theorem frameText_digits (payload : List UInt8) :
    ∀ c ∈ frameText (encode payload), ∃ v, hexValue c = some v := by
  have digits : ∀ {payload text}, Spells payload text → ∀ c ∈ text, ∃ v, hexValue c = some v := by
    intro payload text spells
    induction spells with
    | nil => simp
    | plain _ byte _ ih =>
        obtain ⟨u, v, first, second, -⟩ := byte
        simpa [first, second] using ih
    | escaped _ escape byte _ ih =>
        obtain ⟨u, v, first, second, -⟩ := byte
        obtain ⟨u', v', first', second', -⟩ := escape
        simpa [first, second, first', second'] using ih
  intro c member
  simp only [frameText, List.mem_append] at member
  rcases member with (mark | inBody) | mark
  · obtain rfl : c = 'B'.toUInt8 := by simpa [beginMark] using mark
    exact ⟨11, by decide⟩
  · exact digits (spells_encode payload) c inBody
  · obtain rfl : c = 'E'.toUInt8 := by simpa [endMark] using mark
    exact ⟨14, by decide⟩

theorem hexValue_zero {c : UInt8} (value : hexValue c = some 0) : c = '0'.toUInt8 := by
  have zero : '0'.toUInt8.toNat = 48 := rfl
  apply UInt8.toNat_inj.mp
  rw [zero]
  simp only [hexValue, Char.reduceToNat] at value
  split_ifs at value with digit upper lower <;>
    simp only [Option.some_inj, Fin.ext_iff, Fin.val_zero] at value <;> omega

theorem str2hex_eq_zero_iff {x y : UInt8} {u v : Fin 16} (first : hexValue x = some u)
    (second : hexValue y = some v) : str2hex x y = 0 ↔ x = '0'.toUInt8 ∧ y = '0'.toUInt8 := by
  have zero : (0 : UInt8).toNat = 0 := rfl
  constructor
  · intro value
    have both := str2hex_toNat first second
    rw [value, zero] at both
    obtain rfl : u = 0 := Fin.ext (by simp only [Fin.val_zero]; omega)
    obtain rfl : v = 0 := Fin.ext (by simp only [Fin.val_zero]; omega)
    exact ⟨hexValue_zero first, hexValue_zero second⟩
  · rintro ⟨rfl, rfl⟩
    decide

/-- No end marker reaches into the begin marker. -/
theorem frameText_end_behind {body : List UInt8} (last : FirstAt endMark (frameText body) stop) :
    2 ≤ stop := by
  have here := last.1
  match stop with
  | 0 => exact absurd (List.cons_prefix_cons.mp here).1 (by decide)
  | 1 => exact absurd (List.cons_prefix_cons.mp here).1 (by decide)
  | stop + 2 => omega

/-- On the text of a frame the function returns, and accepts it when it has 00 in front of
    its first end marker. -/
theorem checkSum_frame (payload : List UInt8) (data : o.data = padded (frameText (encode payload)))
    (short : (frameText (encode payload)).length ≤ 254) :
    ∃ accepted, (∀ fuel, obdCheckSum fuel o = some (.returned accepted)) ∧
      (accepted = true ↔ ZerosBeforeEnd (frameText (encode payload))) := by
  have nonNul := frameText_ne_zero (spells_encode payload)
  have inside : (frameText (encode payload)).length < bufSize :=
    Nat.lt_of_le_of_lt short (by decide)
  have text : o.cstr = frameText (encode payload) := Obd.cstr_padded data inside nonNul
  have first : strstr o.cstr beginMark = some 0 := text ▸ frameText_begin (encode payload)
  obtain ⟨stop, found⟩ := frameText_end (encode payload)
  have last := (strstr_eq_some_iff endMark_ne_nil).mp found
  have behind := frameText_end_behind last
  obtain ⟨n, rfl⟩ := Nat.exists_eq_add_of_le' behind
  have found : strstr o.cstr endMark = some (n + 2) := text ▸ found
  -- two characters stand in front of the end marker
  have shape : ∃ x y rest, (frameText (encode payload)).drop n = x :: y :: rest := by
    obtain ⟨rest, closes⟩ := last.1
    have size := congrArg List.length closes
    simp only [List.length_append, List.length_drop, endMark, List.length_cons] at size
    rw [List.drop_eq_getElem_cons (show n < _ by omega),
      List.drop_eq_getElem_cons (show n + 1 < _ by omega)]
    exact ⟨_, _, _, rfl⟩
  obtain ⟨x, y, rest, shape⟩ := shape
  have inText : ∀ c ∈ [x, y], c ∈ frameText (encode payload) := by
    intro c member
    apply (List.drop_suffix n _).subset
    rw [shape]
    exact List.mem_append_left rest member
  obtain ⟨u, digit⟩ := frameText_digits payload x (inText x (by simp))
  obtain ⟨v, digit'⟩ := frameText_digits payload y (inText y (by simp))
  have window : Window o n [x, y] := window_of_drop data shape (Nat.le_of_lt inside)
  obtain ⟨-, byte, -, byte', -⟩ := window
  refine ⟨_, fun fuel => checkSum_of_markers first found (by omega) fuel, ?_⟩
  rw [decide_eq_true_iff, Nat.add_sub_cancel, byte, byte', str2hex_eq_zero_iff digit digit']
  constructor
  · rintro ⟨rfl, rfl⟩
    exact ⟨n, last, shape ▸ ⟨rest, rfl⟩⟩
  · rintro ⟨m, last', zeros⟩
    obtain rfl : m = n := Nat.add_right_cancel (last'.unique last)
    rw [shape] at zeros
    obtain ⟨left, zeros⟩ := List.cons_prefix_cons.mp zeros
    exact ⟨left.symm, (List.cons_prefix_cons.mp zeros).1.symm⟩

/-- The function tells a right check sum from a wrong one exactly on the frames with a right
    one that have 00 in front of their first end marker, and on those with a wrong one that
    have not. -/
theorem checkSum_right_iff (checksum : UInt8)
    (data : o.data = padded (frameText (encode (payload ++ [checksum]))))
    (short : (frameText (encode (payload ++ [checksum]))).length ≤ 254) :
    ∃ accepted, (∀ fuel, obdCheckSum fuel o = some (.returned accepted)) ∧
      ((accepted = true ↔ checksum = UInt8.ofNat (byteSum payload)) ↔
        if checksum = UInt8.ofNat (byteSum payload) then
          ZerosBeforeEnd (frameText (encode (payload ++ [checksum])))
        else ¬ ZerosBeforeEnd (frameText (encode (payload ++ [checksum])))) := by
  obtain ⟨accepted, returns, zeros⟩ := checkSum_frame (payload ++ [checksum]) data short
  refine ⟨accepted, returns, ?_⟩
  rw [zeros]
  split_ifs with right
  · exact iff_true_right right
  · exact iff_false_right right

/-- The payload of the sample frame of client.c without its check sum. -/
def sampleCommand : List UInt8 := [0x02, 0x12, 0x34, 0x56, 0x78, 0x01, 0x02, 0x03, 0x04]

/-- A block that holds the text of a frame. -/
def frameBlock (payload : List UInt8) : Obd :=
  { zeroBlock with data := padded (frameText (encode payload)) }

theorem checkSum_right_iff_sample :
    ∃ accepted, (∀ fuel, obdCheckSum fuel (frameBlock (sampleCommand ++ [0x20])) =
        some (.returned accepted)) ∧
      ((accepted = true ↔ 0x20 = UInt8.ofNat (byteSum sampleCommand)) ↔
        if 0x20 = UInt8.ofNat (byteSum sampleCommand) then
          ZerosBeforeEnd (frameText (encode (sampleCommand ++ [0x20])))
        else ¬ ZerosBeforeEnd (frameText (encode (sampleCommand ++ [0x20])))) :=
  checkSum_right_iff 0x20 rfl (by decide)

/-- The sample frame has a right check sum and is refused. -/
theorem sample_checkSum_refused :
    sampleCommand ++ [0x20] = samplePayload ∧
      0x20 = UInt8.ofNat (byteSum sampleCommand) ∧
      ∀ fuel, obdCheckSum fuel (frameBlock (sampleCommand ++ [0x20])) =
        some (.returned false) := by
  obtain ⟨accepted, returns, zeros⟩ :=
    checkSum_frame (o := frameBlock (sampleCommand ++ [0x20])) _ rfl (by decide)
  have refused : accepted = false := by
    rw [← Bool.not_eq_true, zeros]
    rintro ⟨n, last, front⟩
    have first : FirstAt endMark (frameText (encode (sampleCommand ++ [0x20]))) 22 := by
      decide +kernel
    obtain rfl : n = 20 := Nat.add_right_cancel (last.unique first)
    exact absurd front (by decide +kernel)
  rw [refused] at returns
  exact ⟨rfl, by decide, returns⟩

/-! ## What is read -/

/-- On any text the function reads characters of `data` up to the terminator only, and
    returns `FALSE` when it has not both markers in order. -/
structure CheckSumSafe (o : Obd) : Prop where
  inside : ∀ place, CheckSumReads o place → ∃ n ≤ o.strlen, n < bufSize ∧ place = some n
  refuses : ¬ Decodable o.cstr → ∀ fuel, obdCheckSum fuel o = some (.returned false)

theorem takeWhile_map_congr {α β : Type*} {f g : α → β} {p : β → Bool} {xs : List α}
    (agree : ∀ i (inside : i < xs.length), i ≤ ((xs.map f).takeWhile p).length →
      g xs[i] = f xs[i]) :
    (xs.map g).takeWhile p = (xs.map f).takeWhile p := by
  induction xs with
  | nil => rfl
  | cons x xs ih =>
      have first : g x = f x := agree 0 (Nat.succ_pos _) (Nat.zero_le _)
      simp only [List.map_cons, List.takeWhile_cons, first] at agree ⊢
      cases goesOn : p (f x) with
      | false => rfl
      | true =>
          simp only [goesOn, if_true, List.length_cons] at agree ⊢
          rw [ih fun i inside small =>
            agree (i + 1) (Nat.succ_lt_succ inside) (Nat.succ_le_succ small)]

/-- A text is what stands in front of its terminator, and the terminator. -/
theorem cstr_congr {o' : Obd} (agree : ∀ n ≤ o.strlen, o'.byteAt n = o.byteAt n) :
    o'.cstr = o.cstr :=
  takeWhile_map_congr fun i inside small => by
    rw [List.getElem_range]
    exact agree i small

/-- The result depends on the characters read alone. -/
theorem checkSum_unread {o' : Obd}
    (agree : ∀ n, CheckSumReads o (some n) → o'.byteAt n = o.byteAt n) (fuel : Nat) :
    obdCheckSum fuel o' = obdCheckSum fuel o := by
  have text : o'.cstr = o.cstr := cstr_congr fun n small => agree n (.search small)
  unfold obdCheckSum
  rw [text]
  cases first : strstr o.cstr beginMark with
  | none => rfl
  | some start =>
      cases last : strstr o.cstr endMark with
      | none => simp only [run_sum]
      | some stop =>
          simp only [run_sum]
          by_cases unordered : (stop : Int) - 2 < start
          · rw [if_pos unordered, if_pos unordered]
          · have passes : PassesTest o start := by
              refine ⟨first, fun stop' found => ?_⟩
              obtain rfl := Option.some.inj (last.symm.trans found)
              omega
            rw [agree (stop - 2) (.pair passes last (by simp)),
              agree (stop - 2 + 1) (.pair passes last (by simp))]

/-- A terminator in `data` ends the text there. -/
theorem strlen_lt (terminated : ∃ i, o.data i = 0) : o.strlen < bufSize := by
  obtain ⟨i, zero⟩ := terminated
  by_contra long
  have inText : i.val < o.cstr.length := Nat.lt_of_lt_of_le i.isLt (Nat.not_lt.mp long)
  have whole := (List.takeWhile_prefix _ : o.cstr <+: _).getElem inText
  rw [List.getElem_map, List.getElem_range, Obd.byteAt_data i.isLt, zero] at whole
  have nonNul := List.mem_takeWhile_imp (List.getElem_mem inText)
  simp only [ne_eq, decide_not, Bool.not_eq_true', decide_eq_false_iff_not] at nonNul
  exact nonNul whole

/-- When the end marker is there, the pair compared lies between the markers. -/
theorem checkSum_inside (terminated : ∃ i, o.data i = 0)
    (fine : beginMark <:+: o.cstr → endMark <:+: o.cstr) (place : Option Nat)
    (reads : CheckSumReads o place) : ∃ n ≤ o.strlen, n < bufSize ∧ place = some n := by
  have room := strlen_lt terminated
  have within : ∀ n ≤ o.strlen, ∃ m ≤ o.strlen, m < bufSize ∧ some n = some m := fun n small =>
    ⟨n, small, Nat.lt_of_le_of_lt small room, rfl⟩
  cases reads with
  | search small => exact within _ small
  | sum _ more =>
      -- the loop makes no iteration
      exact absurd (more 0 (Nat.zero_le _)) Bool.false_ne_true
  | @pair start stop n passes last member =>
      have ordered := passes.2 stop last
      have short := strstr_within endMark_ne_nil last
      have size : endMark.length = 2 := rfl
      have textLength : o.cstr.length = o.strlen := rfl
      apply within
      simp only [List.mem_cons, List.not_mem_nil, or_false] at member
      omega
  | wild passes missing =>
      have ends := fine (infix_of_strstr beginMark_ne_nil passes.1)
      obtain ⟨stop, found⟩ := strstr_of_infix ends
      cases missing.symm.trans found

theorem checkSum_refuses (fine : beginMark <:+: o.cstr → endMark <:+: o.cstr)
    (malformed : ¬ Decodable o.cstr) (fuel : Nat) :
    obdCheckSum fuel o = some (.returned false) := by
  unfold obdCheckSum
  cases first : strstr o.cstr beginMark with
  | none => rfl
  | some start =>
      obtain ⟨stop, last⟩ := strstr_of_infix (fine (infix_of_strstr beginMark_ne_nil first))
      have reversed := lt_of_not_decodable malformed first last
      rw [last]
      exact if_pos (by omega)

/-- The calls that read below `NULL` have no other end. -/
theorem checkSum_wildRead_iff (fuel : Nat) :
    obdCheckSum fuel o = some .wildRead ↔ CheckSumReads o none := by
  constructor
  · intro wild
    unfold obdCheckSum at wild
    cases first : strstr o.cstr beginMark with
    | none => simp [first] at wild
    | some start =>
        cases last : strstr o.cstr endMark with
        | none => exact .wild ⟨first, fun stop found => by cases last.symm.trans found⟩ last
        | some stop =>
            simp only [first, last, run_sum, Option.map_some] at wild
            split_ifs at wild <;> cases wild
  · intro reads
    cases reads with
    | wild passes missing =>
        unfold obdCheckSum
        rw [passes.1, missing]
        simp only [run_sum, Option.map_some]

/-- Without an end marker behind its begin marker the function reads below `NULL`. -/
theorem checkSum_wild (begins : beginMark <:+: o.cstr) (noEnd : ¬ endMark <:+: o.cstr) :
    CheckSumReads o none := by
  obtain ⟨start, first⟩ := strstr_of_infix begins
  have missing : strstr o.cstr endMark = none := by
    by_contra found
    obtain ⟨stop, found⟩ := Option.ne_none_iff_exists'.mp found
    exact noEnd (infix_of_strstr endMark_ne_nil found)
  refine .wild ⟨first, fun stop found => ?_⟩ missing
  cases missing.symm.trans found

/-- The function is safe on a text exactly when the end marker occurs in it or the begin
    marker does not. -/
theorem checkSum_safe_iff (terminated : ∃ i, o.data i = 0) :
    CheckSumSafe o ↔ (beginMark <:+: o.cstr → endMark <:+: o.cstr) := by
  constructor
  · intro safe begins
    by_contra noEnd
    obtain ⟨n, -, -, below⟩ := safe.inside none (checkSum_wild begins noEnd)
    cases below
  · intro fine
    exact ⟨checkSum_inside terminated fine, checkSum_refuses fine⟩

theorem checkSum_safe_iff_sample :
    CheckSumSafe (frameBlock samplePayload) ↔
      (beginMark <:+: (frameBlock samplePayload).cstr →
        endMark <:+: (frameBlock samplePayload).cstr) :=
  checkSum_safe_iff ⟨255, by decide⟩

/-- The begin marker alone. -/
def beginBlock : Obd := { zeroBlock with data := padded beginMark }

theorem beginBlock_not_safe :
    (∃ i, beginBlock.data i = 0) ∧ ¬ Decodable beginBlock.cstr ∧ ¬ CheckSumSafe beginBlock ∧
      CheckSumReads beginBlock none ∧ ∀ fuel, obdCheckSum fuel beginBlock = some .wildRead := by
  have text : beginBlock.cstr = beginMark :=
    Obd.cstr_padded rfl (by decide) (by decide +kernel)
  have begins : beginMark <:+: beginBlock.cstr := text ▸ List.infix_rfl
  have noEnd : ¬ endMark <:+: beginBlock.cstr := by
    rw [text]
    decide
  have below := checkSum_wild begins noEnd
  refine ⟨⟨2, by decide⟩, ?_, ?_, below, fun fuel => (checkSum_wildRead_iff fuel).mpr below⟩
  · rintro ⟨-, stop, -, last, -⟩
    exact noEnd (last.1.isInfix.trans (List.drop_suffix stop _).isInfix)
  · intro safe
    obtain ⟨n, -, -, absent⟩ := safe.inside none below
    cases absent

end ObdServer
