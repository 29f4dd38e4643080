import Mathlib.Data.List.Basic
import Mathlib.Logic.Function.Basic
import ObdServer.Lib.WhileLoop

/-! # Messages and their decoder

`OBD_t` and the functions of OBD_struct.h and string_ops.h on its bytes. The `list_t`
node of the block is in the heap of `MessageQueue` and has no field here. Bytes are
`UInt8`; whether `char` is signed makes no difference to `asc2hex`, which maps every
byte from 128 on to that byte less 48 modulo 256 in both cases.
-/

namespace ObdServer

/-- `BUF_SIZE`. -/
abbrev bufSize : Nat := 256

/-- `OBD_t`. -/
structure Obd where
  data : Fin bufSize → UInt8
  dataLength : UInt8
  hex : Fin bufSize → UInt8
  id : UInt8

/-- A block as `Malloc` may return it. -/
def zeroBlock : Obd := { data := fun _ => 0, dataLength := 0, hex := fun _ => 0, id := 0 }

/-- The offset behind the last byte field of `OBD_t`. -/
abbrev obdBytes : Nat := 514

/-! ## The command structs

All their fields are bytes, so that the compiler pads none of them.
-/

/-- `head_t`. -/
structure Head where
  head : UInt8
  cmd : UInt8
  id : Fin 4 → UInt8

/-- `end_t`. -/
structure End where
  checksum : UInt8
  end_ : UInt8

/-- `cmd02_t`. -/
structure Cmd02 where
  head : Head
  seed : Fin 4 → UInt8
  end_ : End

/-- `(cmd02_t*)obd->hex`. -/
def Cmd02.ofHex (hex : Fin bufSize → UInt8) : Cmd02 where
  head :=
    { head := hex 0
      cmd := hex 1
      id := fun i =>
        hex ⟨2 + i.val, Nat.lt_of_lt_of_le (Nat.add_lt_add_left i.isLt 2) (by decide)⟩ }
  seed := fun i =>
    hex ⟨6 + i.val, Nat.lt_of_lt_of_le (Nat.add_lt_add_left i.isLt 6) (by decide)⟩
  end_ := { checksum := hex 10, end_ := hex 11 }

/-! ## Text -/

def asc2hex (c : UInt8) : UInt8 :=
  if 'A'.toUInt8 ≤ c ∧ c < 'Z'.toUInt8 then c - 'A'.toUInt8 + 10
  else if 'a'.toUInt8 ≤ c ∧ c < 'z'.toUInt8 then c - 'a'.toUInt8 + 10
  else c - '0'.toUInt8

def str2hex (m n : UInt8) : UInt8 :=
  asc2hex m <<< 4 ||| asc2hex n

/-- `"BB"`. -/
def beginMark : List UInt8 := ['B'.toUInt8, 'B'.toUInt8]

/-- `"EE"`. -/
def endMark : List UInt8 := ['E'.toUInt8, 'E'.toUInt8]

/-- `strstr`: the position of the first occurrence, `none` for `NULL`. -/
def strstr : List UInt8 → List UInt8 → Option Nat
  | [], needle => if needle = [] then some 0 else none
  | c :: hay, needle =>
      if needle <+: c :: hay then some 0 else (strstr hay needle).map (· + 1)

namespace Obd

/-- The byte at an offset of the block. Behind `data` lies `data_length`, then `hex`,
    then `id`; what follows `id` is not modelled and reads as zero. -/
def byteAt (o : Obd) (n : Nat) : UInt8 :=
  if inData : n < bufSize then o.data ⟨n, inData⟩
  else if n = bufSize then o.dataLength
  else if inHex : n - (bufSize + 1) < bufSize then o.hex ⟨n - (bufSize + 1), inHex⟩
  else if n = 2 * bufSize + 1 then o.id
  else 0

/-- The store `data[n] = v`, where `n` may be one past the end of `data`. -/
def setByte (o : Obd) (n : Nat) (v : UInt8) : Obd :=
  if inData : n < bufSize then { o with data := Function.update o.data ⟨n, inData⟩ v }
  else if n = bufSize then { o with dataLength := v }
  else o

/-- The C string that starts at `data`. -/
def cstr (o : Obd) : List UInt8 :=
  ((List.range obdBytes).map o.byteAt).takeWhile (· ≠ 0)

/-- `strlen(obd->data)`. -/
def strlen (o : Obd) : Nat := o.cstr.length

/-- The initialisation of `OBD_init`; `id` keeps what the block held. -/
def init (o : Obd) : Obd :=
  { o with dataLength := 0, data := fun _ => 0, hex := fun _ => 0 }

/-- What `OBD_release` clears before it gives the block back. -/
def release (o : Obd) : Obd :=
  { o with data := fun _ => 0 }

/-- `recv(w->fd,obd->data,BUF_SIZE,0)` when it delivers `bytes`. -/
def recv (o : Obd) (bytes : List UInt8) : Obd :=
  { o with data := fun i => bytes[i.val]?.getD (o.data i) }

/-- What `read_func_cb` does with a message received: it stores a terminator behind it
    and takes its length, which the type of `data_length` cuts to 8 bits. -/
def store (o : Obd) (bytes : List UInt8) : Obd :=
  let o := o.recv bytes
  let o := o.setByte bytes.length 0
  { o with dataLength := UInt8.ofNat o.strlen }

end Obd

/-- `OBD_get_cmd`. -/
def obdGetCmd (o : Obd) : UInt8 :=
  str2hex (o.byteAt 2) (o.byteAt 3)

/-- The block `read_func_cb` puts when it gets an old block and receives `bytes`. -/
def received (old : Obd) (bytes : List UInt8) : Obd :=
  let o := old.init.store bytes
  { o with id := obdGetCmd o }

/-! ## The decoder -/

/-- The variables of the loop of `OBD_filter_escape_and_transfer_to_hex`. -/
structure DecodeState where
  i : UInt8
  j : UInt8
  flag : Bool
  obd : Obd

namespace DecodeState

def start (o : Obd) : DecodeState :=
  { i := 0, j := 0, flag := false, obd := o }

/-- The loop condition. -/
def more (s : DecodeState) : Bool := s.i < s.obd.dataLength

/-- `obd->hex[j] = tmp; j++`. -/
def emit (s : DecodeState) (tmp : UInt8) : DecodeState :=
  { s with obd.hex := Function.update s.obd.hex ⟨s.j.toNat, s.j.toNat_lt⟩ tmp, j := s.j + 1 }

/-- The loop body and `i+=2`; `start` is the position of `begin` in the text. -/
def step (start : Nat) (s : DecodeState) : DecodeState :=
  let first := s.obd.byteAt (start + s.i.toNat)
  let second := s.obd.byteAt (start + s.i.toNat + 1)
  let s := { s with i := s.i + 2 }
  if s.flag then
    { s with flag := false }.emit (str2hex second second)
  else if str2hex first second = 0xAA then
    { s with flag := true }
  else
    s.emit (str2hex first second)

end DecodeState

/-- `OBD_filter_escape_and_transfer_to_hex`, with a bound on the iterations of its loop. -/
def obdFilterEscapeAndTransferToHex (fuel : Nat) (o : Obd) : Option (Bool × Obd) :=
  match strstr o.cstr beginMark, strstr o.cstr endMark with
  | some start, some stop =>
      if stop < start then some (false, o)
      else (WhileLoop.run DecodeState.more (DecodeState.step start) fuel (.start o)).map
        fun s => (true, s.obd)
  | _, _ => some (false, o)

/-- The command `OBD_decode` switches on. -/
def obdDecodeCmd (o : Obd) : UInt8 := o.hex 1

/-- `OBD_decode_thread` up to its call of `OBD_decode`: the block passed, whatever the
    decoder returned. -/
def obdDecodeThread (fuel : Nat) (o : Obd) : Option Obd :=
  (obdFilterEscapeAndTransferToHex fuel o).map Prod.snd

end ObdServer
