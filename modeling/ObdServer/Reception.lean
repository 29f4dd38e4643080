import ObdServer.FrameDecoding

/-! # What `read_func_cb` stores of a message

The bytes of one `recv`, a NUL behind them and, in eight bits, the length of the text up to
the first NUL. A message that fills the whole buffer has its terminator stored behind `data`
and its length cut to zero.
-/

namespace ObdServer

variable {old o : Obd} {bytes : List UInt8}

/-- The bytes in front of the first NUL. -/
def messageText (bytes : List UInt8) : List UInt8 := bytes.takeWhile (· ≠ 0)

/-- The stores into `data`, by index: those of `recv`, then the terminator. -/
def dataStores (bytes : List UInt8) : List (Nat × UInt8) :=
  bytes.zipIdx.map Prod.swap ++ [(bytes.length, 0)]

theorem messageText_ne_zero : ∀ c ∈ messageText bytes, c ≠ 0 := by
  intro c member
  simpa using List.mem_takeWhile_imp member

theorem messageText_length_le (bytes : List UInt8) : (messageText bytes).length ≤ bytes.length :=
  (List.takeWhile_prefix _).length_le

/-- A message whose length an 8-bit index in steps of two can count. -/
theorem messageText_short (short : bytes.length ≤ 254) : bytes.length ≤ bufSize ∧
    (messageText bytes).length ≤ 254 ∧ (messageText bytes).length < bufSize := by
  have le := messageText_length_le bytes
  have size : bufSize = 256 := rfl
  omega

theorem messageText_of_ne_zero (nonNul : ∀ c ∈ bytes, c ≠ 0) : messageText bytes = bytes :=
  List.takeWhile_eq_self_iff.mpr (by simpa using nonNul)

theorem messageText_eq_nil_iff : messageText bytes = [] ↔ bytes.head?.all (· = 0) = true := by
  cases bytes with
  | nil => simp [messageText]
  | cons c bytes =>
      by_cases zero : c = 0 <;> simp [messageText, zero]

/-! ## The stores -/

/-- The stores of `recv` are one after the other what it leaves in `data`. -/
theorem foldl_setByte_zipIdx (o : Obd) (bytes : List UInt8) (start : Nat)
    (small : start + bytes.length ≤ bufSize) :
    (bytes.zipIdx start).foldl (fun o p => o.setByte p.2 p.1) o =
      { o with data := fun i =>
          if start ≤ i.val then (bytes[i.val - start]?).getD (o.data i) else o.data i } := by
  induction bytes generalizing o start with
  | nil => simp
  | cons c bytes ih =>
      rw [List.length_cons] at small
      have inside : start < bufSize := by omega
      rw [List.zipIdx_cons, List.foldl_cons, ih _ _ (by omega), Obd.setByte, dif_pos inside]
      simp only [Obd.mk.injEq, and_true]
      funext i
      rcases Nat.lt_trichotomy i.val start with before | here | behind
      · have other : i ≠ ⟨start, inside⟩ := fun same => by simp [same] at before
        simp [Function.update_of_ne other, Nat.not_le.mpr before,
          Nat.not_le.mpr (Nat.lt_succ_of_lt before)]
      · obtain rfl : i = ⟨start, inside⟩ := Fin.ext here
        simp
      · have other : i ≠ ⟨start, inside⟩ := fun same => by simp [same] at behind
        obtain ⟨k, gap⟩ : ∃ k, i.val - start = k + 1 := ⟨i.val - start - 1, by omega⟩
        have shifted : i.val - (start + 1) = k := by omega
        simp [Function.update_of_ne other, Nat.le_of_lt behind, Nat.succ_le_of_lt behind, gap,
          shifted]

theorem recv_setByte (o : Obd) (small : bytes.length ≤ bufSize) :
    (o.recv bytes).setByte bytes.length 0 =
      (dataStores bytes).foldl (fun o p => o.setByte p.1 p.2) o := by
  have stored := foldl_setByte_zipIdx o bytes 0 (by omega)
  simp only [dataStores, List.foldl_append, List.foldl_map, Prod.fst_swap, Prod.snd_swap,
    List.foldl_cons, List.foldl_nil]
  rw [stored]
  simp [Obd.recv]

/-- The last store is the only one that may be behind `data`. -/
theorem dataStores_inside_iff :
    (∀ p ∈ dataStores bytes, p.1 < bufSize) ↔ bytes.length < bufSize := by
  constructor
  · intro inside
    exact inside (bytes.length, 0) (by simp [dataStores])
  · intro room p member
    simp only [dataStores, List.mem_append, List.mem_map, List.mem_singleton] at member
    rcases member with ⟨q, stored, rfl⟩ | rfl
    · have before := List.snd_lt_of_mem_zipIdx stored
      simp only [Prod.fst_swap]
      omega
    · exact room

/-! ## The block put -/

theorem byteAt_bufSize (o : Obd) : o.byteAt bufSize = o.dataLength := by
  rw [Obd.byteAt, dif_neg (Nat.lt_irrefl _), if_pos rfl]

theorem setByte_bufSize (o : Obd) (v : UInt8) :
    o.setByte bufSize v = { o with dataLength := v } := by
  rw [Obd.setByte, dif_neg (Nat.lt_irrefl _), if_pos rfl]

theorem setByte_hex (o : Obd) (n : Nat) (v : UInt8) : (o.setByte n v).hex = o.hex := by
  rw [Obd.setByte]
  split_ifs <;> rfl

theorem setByte_terminator_data (data : o.data = padded bytes) :
    (o.setByte bytes.length 0).data = padded bytes := by
  rw [Obd.setByte]
  split_ifs with inside full
  · rw [data]
    apply Function.update_eq_self_iff.mpr
    exact (List.getD_eq_default _ _ (Nat.le_refl _)).symm
  · exact data
  · exact data

theorem store_data (old : Obd) (bytes : List UInt8) :
    (old.init.store bytes).data = padded bytes := by
  have arrived : (old.init.recv bytes).data = padded bytes := rfl
  simp only [Obd.store]
  exact setByte_terminator_data arrived

theorem received_data (old : Obd) (bytes : List UInt8) :
    (received old bytes).data = padded bytes := by
  simp only [received]
  exact store_data old bytes

theorem received_hex (old : Obd) (bytes : List UInt8) :
    (received old bytes).hex = fun _ => 0 := by
  simp only [received, Obd.store]
  rw [setByte_hex]
  rfl

/-- With the terminator stored, the text ends at the first NUL received or at it. -/
theorem strlen_stored (old : Obd) (small : bytes.length ≤ bufSize) :
    ((old.init.recv bytes).setByte bytes.length 0).cstr = messageText bytes := by
  have arrived : (old.init.recv bytes).data = padded bytes := rfl
  have data := setByte_terminator_data arrived
  have inside : bytes.length < obdBytes := Nat.lt_of_le_of_lt small (by decide)
  apply Obd.cstr_takeWhile inside
  · intro k before
    rw [Obd.byteAt_padded data (by omega), List.getD_eq_getElem _ _ before]
  · rcases Nat.lt_or_ge bytes.length bufSize with room | full
    · rw [Obd.byteAt_padded data room, List.getD_eq_default _ _ (Nat.le_refl _)]
    · have same : bytes.length = bufSize := Nat.le_antisymm small full
      rw [same, setByte_bufSize, byteAt_bufSize]

theorem received_dataLength (old : Obd) (small : bytes.length ≤ bufSize) :
    (received old bytes).dataLength = UInt8.ofNat (messageText bytes).length := by
  simp only [received, Obd.store, Obd.strlen, strlen_stored old small]

theorem received_id (old : Obd) (bytes : List UInt8) :
    (received old bytes).id = str2hex (bytes.getD 2 0) (bytes.getD 3 0) := by
  have data := store_data old bytes
  simp only [received, obdGetCmd]
  rw [Obd.byteAt_padded data (by decide), Obd.byteAt_padded data (by decide)]

/-- A message does not depend on what its block held before. -/
theorem received_eq (old old' : Obd) (small : bytes.length ≤ bufSize) :
    received old bytes = received old' bytes := by
  rw [Obd.mk.injEq]
  refine ⟨?_, ?_, ?_, ?_⟩
  · rw [received_data, received_data]
  · rw [received_dataLength old small, received_dataLength old' small]
  · rw [received_hex, received_hex]
  · rw [received_id, received_id]

/-- A message is put unless its text is empty or fills the whole buffer. -/
theorem received_queued_iff (old : Obd) (small : bytes.length ≤ bufSize) :
    (received old bytes).dataLength ≠ 0 ↔
      0 < (messageText bytes).length ∧ (messageText bytes).length < bufSize := by
  have le := messageText_length_le bytes
  have zero : (0 : UInt8).toNat = 0 := rfl
  have size : bufSize = 256 := rfl
  rw [received_dataLength old small, ne_eq, ← UInt8.toNat_inj, UInt8.toNat_ofNat', zero]
  omega

theorem received_toNat (old : Obd) (small : bytes.length ≤ bufSize)
    (room : (messageText bytes).length < bufSize) :
    (received old bytes).dataLength.toNat = (messageText bytes).length := by
  have size : bufSize = 256 := rfl
  rw [received_dataLength old small, UInt8.toNat_ofNat']
  omega

theorem getD_messageText {k : Nat} (inText : k < (messageText bytes).length) :
    bytes.getD k 0 = (messageText bytes)[k] := by
  have before : k < bytes.length := Nat.lt_of_lt_of_le inText (messageText_length_le _)
  rw [List.getD_eq_getElem _ _ before]
  exact ((List.takeWhile_prefix _).getElem inText).symm

/-- Behind the text stands a NUL received or the terminator. -/
theorem getD_messageText_length (bytes : List UInt8) :
    bytes.getD (messageText bytes).length 0 = 0 := by
  induction bytes with
  | nil => rfl
  | cons c bytes ih =>
      by_cases zero : c = 0
      · simp [messageText, zero]
      · simpa [messageText, zero] using ih

theorem received_cstr_messageText (old : Obd) (room : (messageText bytes).length < bufSize) :
    (received old bytes).cstr = messageText bytes := by
  have data := received_data old bytes
  have inside : (messageText bytes).length < obdBytes := Nat.lt_trans room (by decide)
  apply Obd.cstr_eq inside messageText_ne_zero
  · intro k inText
    rw [Obd.byteAt_padded data (Nat.lt_trans inText room), getD_messageText inText]
  · rw [Obd.byteAt_padded data room, getD_messageText_length]

/-! ## A frame alone in its message -/

/-- The decoder leaves what it reads of the frame from its front to its end. -/
theorem filter_received_whole {body : List UInt8} {n : Nat} (old : Obd)
    (even : (frameText body).length = 2 * n) (short : (frameText body).length ≤ 254)
    (nonNul : ∀ c ∈ body, c ≠ 0) : ∀ fuel ≥ n, ∃ o,
      obdFilterEscapeAndTransferToHex fuel (received old (frameText body)) = some (true, o) ∧
      o.hex = padded (decodePairs false (frameText body)).1 := by
  intro fuel many
  have small : (frameText body).length ≤ bufSize := Nat.le_trans short (by decide)
  have length := received_dataLength old small
  rw [messageText_of_ne_zero (frameText_nonNul nonNul)] at length
  exact ⟨_, filter_whole even short nonNul (received_data old _) length (received_hex old _)
    fuel many, rfl⟩

end ObdServer
