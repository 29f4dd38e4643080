import ObdServer.DecoderLoop
import ObdServer.Lib.LittleEndian

/-! # Blocks that have been used before

`OBD_t` as the bytes at its address, where a read past one field meets the next: 256 bytes
of `data`, `data_length`, 256 bytes of `hex`, `id`, six bytes of padding and the two
pointers of `list`. What a block held before `OBD_init`, and what stands behind it, may be
anything.
-/

namespace ObdServer

open WhileLoop

/-- The bytes from the address of a block on. -/
abbrev FlatBlock := Nat → UInt8

namespace FlatBlock

/-! ## The functions on bytes -/

/-- `memset` of `count` bytes from an offset on. -/
def memset (m : FlatBlock) (offset : Nat) (v : UInt8) (count : Nat) : FlatBlock := fun n =>
  if offset ≤ n ∧ n < offset + count then v else m n

/-- Bytes written from an offset on. -/
def write (m : FlatBlock) (offset : Nat) (bytes : List UInt8) : FlatBlock := fun n =>
  if offset ≤ n then (bytes[n - offset]?).getD (m n) else m n

/-- `list_init(&obd->list)`, for a block at `address`. -/
def listInit (m : FlatBlock) (address : UInt64) : FlatBlock :=
  let list := LittleEndian.bytes 8 (address + 520).toNat
  (m.write 528 list).write 520 list

/-- `OBD_init` of a block that `Malloc` has returned. -/
def obdInit (m : FlatBlock) (address : UInt64) : FlatBlock :=
  let m := m.listInit address
  let m : FlatBlock := Function.update m 256 0
  let m := m.memset 0 0 bufSize
  m.memset 257 0 bufSize

/-- The C string at the front of the block. -/
def cstr (m : FlatBlock) : List UInt8 := ((List.range 536).map m).takeWhile (· ≠ 0)

/-- `read_func_cb` from `OBD_init` to `OBD_get_cmd`, when `recv` delivers `bytes`. -/
def received (m : FlatBlock) (address : UInt64) (bytes : List UInt8) : FlatBlock :=
  let m := m.obdInit address
  let m := m.write 0 bytes
  let m : FlatBlock := Function.update m bytes.length 0
  let m : FlatBlock := Function.update m 256 (UInt8.ofNat m.cstr.length)
  Function.update m 513 (str2hex (m 2) (m 3))

/-- The variables of the decoder's loop. -/
structure DecodeState where
  i : UInt8
  j : UInt8
  flag : Bool
  mem : FlatBlock

namespace DecodeState

def more (s : DecodeState) : Bool := s.i < s.mem 256

/-- `obd->hex[j] = tmp; j++`. -/
def emit (s : DecodeState) (tmp : UInt8) : DecodeState :=
  { s with mem := Function.update s.mem (257 + s.j.toNat) tmp, j := s.j + 1 }

/-- The loop body and `i+=2`. -/
def step (start : Nat) (s : DecodeState) : DecodeState :=
  let first := s.mem (start + s.i.toNat)
  let second := s.mem (start + s.i.toNat + 1)
  let s := { s with i := s.i + 2 }
  if s.flag then
    { s with flag := false }.emit (str2hex second second)
  else if str2hex first second = 0xAA then
    { s with flag := true }
  else
    s.emit (str2hex first second)

end DecodeState

/-- `OBD_filter_escape_and_transfer_to_hex`, with a bound on the iterations of its loop. -/
def obdFilterEscapeAndTransferToHex (fuel : Nat) (m : FlatBlock) : Option (Bool × FlatBlock) :=
  match strstr m.cstr beginMark, strstr m.cstr endMark with
  | some start, some stop =>
      if stop < start then some (false, m)
      else (run DecodeState.more (DecodeState.step start) fuel
        { i := 0, j := 0, flag := false, mem := m }).map fun s => (true, s.mem)
  | _, _ => some (false, m)

/-! ## The fields of a block -/

/-- The fields as they stand in the bytes. -/
def obd (m : FlatBlock) : Obd where
  data i := m i.val
  dataLength := m 256
  hex i := m (257 + i.val)
  id := m 513

theorem byteAt_obd (m : FlatBlock) {n : Nat} (inside : n < obdBytes) : m.obd.byteAt n = m n := by
  have size : bufSize = 256 := rfl
  have last : obdBytes = 514 := rfl
  have inHexArray : ∀ k (small : k < bufSize), 257 + k = n → m.obd.hex ⟨k, small⟩ = m n := by
    rintro k small rfl
    rfl
  rw [Obd.byteAt]
  split_ifs with inData length inHex id
  · rfl
  · exact congrArg m length.symm
  · exact inHexArray _ inHex (by omega)
  · exact congrArg m id.symm
  · omega

/-- A text that ends inside of the fields is the C string there. -/
theorem cstr_obd (m : FlatBlock) {n : Nat} (inside : n < obdBytes) (terminator : m n = 0) :
    m.cstr = m.obd.cstr := by
  have same : (List.range obdBytes).map m = (List.range obdBytes).map m.obd.byteAt := by
    apply List.map_congr_left
    intro k member
    exact (byteAt_obd m (List.mem_range.mp member)).symm
  have short : (((List.range obdBytes).map m).takeWhile (· ≠ 0)).length ≠
      ((List.range obdBytes).map m).length := by
    intro whole
    have all := (List.takeWhile_prefix _).eq_of_length whole
    have member : m n ∈ (List.range obdBytes).map m :=
      List.mem_map_of_mem (List.mem_range.mpr inside)
    rw [← all] at member
    simpa [terminator] using List.mem_takeWhile_imp member
  rw [cstr, show 536 = obdBytes + 22 from rfl, List.range_add, List.map_append,
    List.takeWhile_append, if_neg short, same]
  rfl

/-! ## The stores on the fields -/

theorem obd_write_data (m : FlatBlock) {bytes : List UInt8} (small : bytes.length ≤ bufSize) :
    (m.write 0 bytes).obd = m.obd.recv bytes := by
  have size : bufSize = 256 := rfl
  have behind : ∀ n, bufSize ≤ n → m.write 0 bytes n = m n := by
    intro n after
    simp only [write, Nat.zero_le, if_true, Nat.sub_zero]
    rw [List.getElem?_eq_none (by omega), Option.getD_none]
  simp only [obd, Obd.recv, Obd.mk.injEq]
  refine ⟨?_, behind _ (by omega), ?_, behind _ (by omega)⟩
  · funext i
    simp [write]
  · funext i
    exact behind _ (by omega)

theorem obd_update_dataLength (m : FlatBlock) (v : UInt8) :
    obd (Function.update m 256 v) = { m.obd with dataLength := v } := by
  simp only [obd, Obd.mk.injEq, Function.update_self, true_and]
  refine ⟨?_, ?_, Function.update_of_ne (by decide) _ _⟩
  · funext i
    exact Function.update_of_ne (Nat.ne_of_lt i.isLt) _ _
  · funext i
    exact Function.update_of_ne (by omega) _ _

theorem obd_update_data (m : FlatBlock) {n : Nat} (inside : n ≤ bufSize) (v : UInt8) :
    obd (Function.update m n v) = m.obd.setByte n v := by
  have size : bufSize = 256 := rfl
  rw [Obd.setByte]
  split_ifs with inData last
  · simp only [obd, Obd.mk.injEq]
    refine ⟨?_, Function.update_of_ne (by omega) _ _, ?_, Function.update_of_ne (by omega) _ _⟩
    · funext i
      by_cases same : i = ⟨n, inData⟩
      · subst same
        rw [Function.update_self, Function.update_self]
      · have other : i.val ≠ n := fun eq => same (Fin.ext eq)
        rw [Function.update_of_ne same, Function.update_of_ne other]
    · funext i
      exact Function.update_of_ne (by omega) _ _
  · rw [last]
    exact obd_update_dataLength m v
  · omega

theorem obd_update_hex (m : FlatBlock) (j v : UInt8) :
    obd (Function.update m (257 + j.toNat) v) =
      { m.obd with hex := Function.update m.obd.hex ⟨j.toNat, j.toNat_lt⟩ v } := by
  have small := j.toNat_lt
  simp only [obd, Obd.mk.injEq]
  refine ⟨?_, Function.update_of_ne (by omega) _ _, ?_, Function.update_of_ne (by omega) _ _⟩
  · funext i
    have inData : i.val < 256 := i.isLt
    exact Function.update_of_ne (by omega) _ _
  · funext i
    by_cases same : i = ⟨j.toNat, j.toNat_lt⟩
    · subst same
      rw [Function.update_self, Function.update_self]
    · have other : 257 + i.val ≠ 257 + j.toNat := fun eq =>
        same (Fin.ext (Nat.add_left_cancel eq))
      rw [Function.update_of_ne same, Function.update_of_ne other]

theorem obd_update_id (m : FlatBlock) (v : UInt8) :
    obd (Function.update m 513 v) = { m.obd with id := v } := by
  simp only [obd, Obd.mk.injEq, Function.update_self, and_true]
  refine ⟨?_, Function.update_of_ne (by decide) _ _, ?_⟩
  · funext i
    have inData : i.val < 256 := i.isLt
    exact Function.update_of_ne (by omega) _ _
  · funext i
    have inHex : i.val < 256 := i.isLt
    exact Function.update_of_ne (by omega) _ _

/-- The pointers of `list` lie behind the fields. -/
theorem listInit_of_lt (m : FlatBlock) (address : UInt64) {n : Nat} (inside : n < 520) :
    m.listInit address n = m n := by
  simp only [listInit, write]
  rw [if_neg (by omega), if_neg (by omega)]

theorem obd_obdInit (m : FlatBlock) (address : UInt64) : (m.obdInit address).obd = m.obd.init := by
  have size : bufSize = 256 := rfl
  simp only [obdInit, obd, memset, Obd.init, Obd.mk.injEq]
  refine ⟨?_, ?_, ?_, ?_⟩
  · funext i
    have inData : i.val < 256 := i.isLt
    rw [if_neg (by omega), if_pos (by omega)]
  · rw [if_neg (by omega), if_neg (by omega), Function.update_self]
  · funext i
    have inHex : i.val < 256 := i.isLt
    rw [if_pos (by omega)]
  · rw [if_neg (by omega), if_neg (by omega), Function.update_of_ne (by decide),
      listInit_of_lt m address (by decide)]

/-! ## The functions on the fields -/

theorem obdGetCmd_obd (m : FlatBlock) : obdGetCmd m.obd = str2hex (m 2) (m 3) := by
  rw [obdGetCmd, byteAt_obd m (by decide), byteAt_obd m (by decide)]

/-- Received into its fields or into its bytes, a message is the same. -/
theorem obd_received (old : FlatBlock) (address : UInt64) {bytes : List UInt8}
    (small : bytes.length ≤ bufSize) :
    (received old address bytes).obd = ObdServer.received old.obd bytes := by
  have inside : bytes.length < obdBytes := Nat.lt_of_le_of_lt small (by decide)
  have stored := obd_update_data ((old.obdInit address).write 0 bytes) small 0
  have terminator : Function.update ((old.obdInit address).write 0 bytes) bytes.length 0
      bytes.length = 0 := Function.update_self _ _ _
  have text := cstr_obd _ inside terminator
  rw [obd_write_data _ small, obd_obdInit] at stored
  simp only [received, ObdServer.received, Obd.store, Obd.strlen, ← obdGetCmd_obd]
  rw [obd_update_id, obd_update_dataLength, stored, text, stored]

/-- The variables of the loop with the fields of the block. -/
def DecodeState.fields (s : DecodeState) : ObdServer.DecodeState :=
  { i := s.i, j := s.j, flag := s.flag, obd := s.mem.obd }

/-- An iteration on the bytes is one on the fields, as long as it reads inside of them. -/
theorem fields_step (s : DecodeState) {start : Nat} (inside : start + s.i.toNat + 1 < obdBytes) :
    (s.step start).fields = s.fields.step start := by
  have second := byteAt_obd s.mem inside
  have first := byteAt_obd s.mem (Nat.lt_of_succ_lt inside)
  simp only [DecodeState.fields, DecodeState.step, ObdServer.DecodeState.step, first, second]
  split_ifs
  · simp only [DecodeState.emit, ObdServer.DecodeState.emit, obd_update_hex]
  · rfl
  · simp only [DecodeState.emit, ObdServer.DecodeState.emit, obd_update_hex]

/-- While `data_length` is at most 254 the loop reads no further than `hex`. -/
theorem fields_run {start : Nat} (inData : start ≤ 252) {s : DecodeState}
    (length : (s.mem 256).toNat ≤ 254) (fuel : Nat) :
    run ObdServer.DecodeState.more (ObdServer.DecodeState.step start) fuel s.fields =
      (run DecodeState.more (DecodeState.step start) fuel s).map DecodeState.fields := by
  refine run_simulates (fun s => (s.mem 256).toNat ≤ 254) DecodeState.fields (fun _ _ => rfl)
    (fun s short more => ?_) length fuel
  have last : obdBytes = 514 := rfl
  have before := (ObdServer.DecodeState.more_iff s.fields).mp more
  have index : s.i.toNat < (s.mem 256).toNat := before
  have same := fields_step s (show start + s.i.toNat + 1 < obdBytes by omega)
  refine ⟨same, ?_⟩
  have kept := ObdServer.DecodeState.step_dataLength start s.fields
  rw [← same] at kept
  have kept : (s.step start).mem 256 = s.mem 256 := kept
  rw [kept]
  exact short

/-- The decoder does the same on the bytes and on the fields of a message of at most 254
    bytes. -/
theorem obdFilter_obd (m : FlatBlock) (fuel : Nat) (text : m.cstr = m.obd.cstr)
    (short : m.cstr.length ≤ 254) (length : (m 256).toNat ≤ 254) :
    ObdServer.obdFilterEscapeAndTransferToHex fuel m.obd =
      (obdFilterEscapeAndTransferToHex fuel m).map fun r => (r.1, r.2.obd) := by
  unfold ObdServer.obdFilterEscapeAndTransferToHex obdFilterEscapeAndTransferToHex
  rw [← text]
  cases first : strstr m.cstr beginMark with
  | none => rfl
  | some start =>
      cases last : strstr m.cstr endMark with
      | none => rfl
      | some stop =>
          have begins := strstr_within beginMark_ne_nil first
          have size : beginMark.length = 2 := rfl
          have loop := fields_run (s := { i := 0, j := 0, flag := false, mem := m })
            (show start ≤ 252 by omega) length fuel
          simp only
          split_ifs
          · rfl
          · rw [Option.map_map]
            exact (congrArg (Option.map fun s => (true, s.obd)) loop).trans (Option.map_map _ _ _)

/-! ## What is left of a message -/

/-- What the server goes on with when it has decoded a message. -/
structure Outcome where
  id : UInt8
  dataLength : UInt8
  result : Bool
  hex : Fin bufSize → UInt8

def outcome (r : Bool × Obd) : Outcome :=
  { id := r.2.id, dataLength := r.2.dataLength, result := r.1, hex := r.2.hex }

/-- A block is obtained, receives a message and is decoded. -/
def receiveAndDecode (fuel : Nat) (old : FlatBlock) (address : UInt64) (bytes : List UInt8) :
    Option Outcome :=
  (obdFilterEscapeAndTransferToHex fuel (received old address bytes)).map fun r =>
    outcome (r.1, r.2.obd)

/-- The received bytes are followed by the terminator. -/
theorem received_terminator (old : FlatBlock) (address : UInt64) {bytes : List UInt8}
    (short : bytes.length ≤ 254) : received old address bytes bytes.length = 0 := by
  simp only [received]
  rw [Function.update_of_ne (by omega), Function.update_of_ne (by omega), Function.update_self]

theorem obdFilter_received (old : FlatBlock) (address : UInt64) {bytes : List UInt8}
    (short : bytes.length ≤ 254) (fuel : Nat) :
    ObdServer.obdFilterEscapeAndTransferToHex fuel (ObdServer.received old.obd bytes) =
      (obdFilterEscapeAndTransferToHex fuel (received old address bytes)).map fun r =>
        (r.1, r.2.obd) := by
  obtain ⟨small, within, room⟩ := messageText_short short
  have fields := obd_received old address small
  have text := cstr_obd (received old address bytes) (Nat.lt_of_le_of_lt short (by decide))
    (received_terminator old address short)
  have length := received_toNat old.obd small room
  have content := received_cstr_messageText old.obd room
  rw [← fields] at length content ⊢
  apply obdFilter_obd _ fuel text
  · rw [text, content]
    omega
  · show ((received old address bytes).obd.dataLength).toNat ≤ 254
    omega

end FlatBlock

open FlatBlock in
/-- What a message of at most 254 bytes leaves is a function of these alone, whatever the
    block held and wherever it is. -/
theorem receiveAndDecode_forgets {bytes : List UInt8} (short : bytes.length ≤ 254) :
    ∃ left : Outcome, ∀ (old : FlatBlock) (address : UInt64), ∀ fuel ≥ 127,
      receiveAndDecode fuel old address bytes = some left := by
  obtain ⟨r, decoded⟩ := filter_short short
  refine ⟨outcome r, fun old address fuel enough => ?_⟩
  have same := obdFilter_received old address short fuel
  rw [decoded old.obd fuel enough] at same
  obtain ⟨r', result, rfl⟩ := Option.map_eq_some_iff.mp same.symm
  rw [receiveAndDecode, result]
  rfl

theorem receiveAndDecode_forgets_sample :
    ∃ left : FlatBlock.Outcome, ∀ (old : FlatBlock) (address : UInt64), ∀ fuel ≥ 127,
      FlatBlock.receiveAndDecode fuel old address (frameText (encode samplePayload)) =
        some left :=
  receiveAndDecode_forgets (by decide)

end ObdServer
