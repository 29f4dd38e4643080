import ObdServer.Stream

/-! # What a connection dispatches, whatever it delivers

Every result of `recv` is a message of its own: its text up to the first NUL is dispatched as
the command it has by itself, if it is not empty, does not fill the buffer and does not keep
the decoder for ever. The client sends one frame at the front of a buffer of 512 bytes.
-/

namespace ObdServer

variable {old : Obd} {bytes text : List UInt8} {pieces rest : List (List UInt8)}
  {commands : List UInt8} {c : UInt8}

/-- A text on which the decoder's loop does not end. -/
def Endless (text : List UInt8) : Prop := text.length = 255 ∧ Decodable text

/-- A text that is put, and not lost to the eight bits of `data_length`. -/
def Queued (text : List UInt8) : Prop := 0 < text.length ∧ text.length < bufSize

instance (text : List UInt8) : Decidable (Queued text) :=
  inferInstanceAs (Decidable (_ ∧ _))

/-- The texts that a connection puts. -/
def queuedTexts (pieces : List (List UInt8)) : List (List UInt8) :=
  (pieces.map messageText).filter Queued

/-! ## One message -/

theorem terminates_iff_not_endless (old : Obd) (small : bytes.length ≤ bufSize)
    (queued : Queued (messageText bytes)) :
    Terminates (received old bytes) ↔ ¬ Endless (messageText bytes) := by
  constructor
  · rintro returns ⟨full, decodable⟩
    exact not_terminates old small full decodable returns
  · intro ends
    exact terminates old small queued.2 (not_and_or.mp ends)

theorem dispatches_of_queued (old : Obd) (small : bytes.length ≤ bufSize)
    (queued : Queued (messageText bytes)) (ends : ¬ Endless (messageText bytes)) :
    Dispatches old bytes (commandOf (messageText bytes)) := by
  have size : bufSize = 256 := rfl
  refine ⟨(received_queued_iff old small).mpr queued, ?_⟩
  by_cases decodable : Decodable (messageText bytes)
  · have notFull : (messageText bytes).length ≠ 255 := fun full => ends ⟨full, decodable⟩
    have within : (messageText bytes).length ≤ 254 := by
      have room := queued.2
      omega
    obtain ⟨start, stop, first, last, ordered⟩ := decodable
    have result := filter_received old small within first last ordered (Nat.le_refl _)
    refine ⟨_, _, congrArg (Option.map Prod.snd) result, ?_⟩
    rw [commandOf_of_ordered first last ordered]
    exact iterate_itemBehind_text (received_data old bytes) small within first last ordered
  · refine ⟨0, _, congrArg (Option.map Prod.snd) (filter_refused old queued.2 decodable 0), ?_⟩
    rw [commandOf_of_not_decodable decodable]
    exact congrFun (received_hex old bytes) 1

theorem dispatches_iff_commandOf (old : Obd) (small : bytes.length ≤ bufSize) :
    Dispatches old bytes c ↔
      Queued (messageText bytes) ∧ ¬ Endless (messageText bytes) ∧
        c = commandOf (messageText bytes) := by
  constructor
  · intro dispatches
    have queued : Queued (messageText bytes) := (received_queued_iff old small).mp dispatches.1
    obtain ⟨fuel, o, returns, -⟩ := dispatches.2
    obtain ⟨result, decoded, -⟩ := Option.map_eq_some_iff.mp returns
    have ends := (terminates_iff_not_endless old small queued).mp ⟨fuel, result, decoded⟩
    exact ⟨queued, ends, dispatches.unique (dispatches_of_queued old small queued ends)⟩
  · rintro ⟨queued, ends, rfl⟩
    exact dispatches_of_queued old small queued ends

/-! ## All messages -/

theorem queuedTexts_cons (bytes : List UInt8) (pieces : List (List UInt8)) :
    queuedTexts (bytes :: pieces) =
      if Queued (messageText bytes) then messageText bytes :: queuedTexts pieces
      else queuedTexts pieces := by
  rw [queuedTexts, List.map_cons, List.filter_cons]
  simp only [decide_eq_true_eq]
  rfl

theorem dispatched_iff_commandOf (fits : ∀ piece ∈ pieces, piece.length ≤ bufSize) :
    Dispatched pieces commands ↔
      (∀ text ∈ queuedTexts pieces, ¬ Endless text) ∧
        commands = (queuedTexts pieces).map commandOf := by
  induction pieces generalizing commands with
  | nil =>
      constructor
      · intro dispatched
        cases dispatched
        exact ⟨by simp [queuedTexts], rfl⟩
      · rintro ⟨-, rfl⟩
        exact .nil
  | cons piece pieces ih =>
      obtain ⟨small, fits⟩ := List.forall_mem_cons.mp fits
      rw [queuedTexts_cons]
      by_cases queued : Queued (messageText piece)
      · rw [if_pos queued, List.forall_mem_cons, List.map_cons]
        constructor
        · intro dispatched
          cases dispatched with
          | put here behind =>
              obtain ⟨-, ends, rfl⟩ := (dispatches_iff_commandOf _ small).mp here
              obtain ⟨allEnd, rfl⟩ := (ih fits).mp behind
              exact ⟨⟨ends, allEnd⟩, rfl⟩
          | released empty _ =>
              exact absurd empty ((received_queued_iff _ small).mpr queued)
        · rintro ⟨⟨ends, allEnd⟩, rfl⟩
          exact .put (dispatches_of_queued zeroBlock small queued ends)
            ((ih fits).mpr ⟨allEnd, rfl⟩)
      · rw [if_neg queued, ← ih fits]
        constructor
        · intro dispatched
          cases dispatched with
          | put here _ => exact absurd ((received_queued_iff _ small).mp here.1) queued
          | released _ behind => exact behind
        · intro behind
          have empty : (received zeroBlock piece).dataLength = 0 := by
            by_contra put
            exact queued ((received_queued_iff zeroBlock small).mp put)
          exact .released empty behind

/-! ## A text with NULs behind it -/

/-- What `thread_func` of client.c sends: all of `sendbuf`, with the text at its front. -/
def sendbuf (text : List UInt8) : List UInt8 := text ++ List.replicate (512 - text.length) 0

theorem messageText_append_zeros (nonNul : ∀ c ∈ text, c ≠ 0) (k : Nat) :
    messageText (text ++ List.replicate k 0) = text := by
  rw [messageText, List.takeWhile_append_of_pos (by simpa using nonNul)]
  cases k <;> simp [List.replicate_succ]

theorem queuedTexts_zeros {k : Nat} (cut : pieces.flatten = List.replicate k 0) :
    queuedTexts pieces = [] := by
  rw [queuedTexts, List.filter_eq_nil_iff]
  intro text member
  obtain ⟨piece, inPieces, rfl⟩ := List.mem_map.mp member
  have empty : messageText piece = [] := by
    cases piece with
    | nil => rfl
    | cons c piece =>
        have inStream : c ∈ pieces.flatten :=
          List.mem_flatten.mpr ⟨_, inPieces, List.mem_cons_self⟩
        rw [cut] at inStream
        simp [messageText, List.eq_of_mem_replicate inStream]
  simp [empty, Queued]

theorem messageText_length_append (bytes tail : List UInt8) :
    (messageText bytes).length ≤ (messageText (bytes ++ tail)).length := by
  rw [messageText, messageText, List.takeWhile_append]
  split_ifs with whole
  · rw [whole, List.length_append]
    exact Nat.le_add_right _ _
  · exact Nat.le_refl _

/-- A text behind which there are only NULs is put by the piece it begins in. -/
theorem queuedTexts_ne_nil {k : Nat} (nonNul : ∀ c ∈ text, c ≠ 0) (nonempty : text ≠ [])
    (short : text.length < bufSize) (cut : pieces.flatten = text ++ List.replicate k 0)
    (fits : ∀ piece ∈ pieces, piece ≠ []) : queuedTexts pieces ≠ [] := by
  cases pieces with
  | nil =>
      have none : text = [] := (List.append_eq_nil_iff.mp cut.symm).1
      exact absurd none nonempty
  | cons piece pieces =>
      have room := messageText_length_append piece pieces.flatten
      rw [← List.flatten_cons, cut, messageText_append_zeros nonNul] at room
      have some : 0 < (messageText piece).length := by
        rw [List.length_pos_iff, ne_eq, messageText_eq_nil_iff]
        cases piece with
        | nil => exact absurd rfl (fits _ List.mem_cons_self)
        | cons c piece =>
            cases text with
            | nil => exact absurd rfl nonempty
            | cons d text =>
                obtain ⟨rfl, -⟩ := List.cons.inj cut
                simpa using nonNul c List.mem_cons_self
      rw [queuedTexts_cons, if_pos ⟨some, Nat.lt_of_le_of_lt room short⟩]
      exact List.cons_ne_nil _ _

/-- One text is put, if and only if it comes in one piece. -/
theorem queuedTexts_singleton_iff {k : Nat} {first : List UInt8} (nonNul : ∀ c ∈ text, c ≠ 0)
    (nonempty : text ≠ []) (short : text.length < bufSize)
    (cut : (first :: rest).flatten = text ++ List.replicate k 0)
    (fits : ∀ piece ∈ first :: rest, piece ≠ []) :
    (text.length ≤ first.length → queuedTexts (first :: rest) = [text]) ∧
      (first.length < text.length → 2 ≤ (queuedTexts (first :: rest)).length) := by
  rw [List.flatten_cons] at cut
  constructor
  · intro whole
    obtain ⟨zeros, rfl⟩ : text <+: first :=
      List.prefix_of_prefix_length_le (List.prefix_append _ _) ⟨rest.flatten, cut⟩ whole
    rw [List.append_assoc, List.append_cancel_left_eq] at cut
    obtain ⟨-, zeroFirst, zeroRest⟩ := List.append_eq_replicate_iff.mp cut
    rw [queuedTexts_cons, zeroFirst, messageText_append_zeros nonNul,
      if_pos ⟨List.length_pos_iff.mpr nonempty, short⟩, queuedTexts_zeros zeroRest]
  · intro parted
    obtain ⟨behind, rfl⟩ : first <+: text :=
      List.prefix_of_prefix_length_le ⟨rest.flatten, cut⟩ (List.prefix_append _ _)
        (Nat.le_of_lt parted)
    rw [List.append_assoc, List.append_cancel_left_eq] at cut
    rw [List.length_append] at parted short
    have here := messageText_of_ne_zero fun c inFirst =>
      nonNul c (List.mem_append_left _ inFirst)
    have some : 0 < first.length := List.length_pos_iff.mpr (fits _ List.mem_cons_self)
    have left : behind ≠ [] := List.length_pos_iff.mp (by omega)
    have others := queuedTexts_ne_nil
      (fun c inBehind => nonNul c (List.mem_append_right _ inBehind)) left (by omega) cut
      fun piece member => fits piece (List.mem_cons_of_mem _ member)
    rw [queuedTexts_cons, here, if_pos ⟨some, by omega⟩, List.length_cons]
    exact Nat.succ_le_succ (List.length_pos_iff.mpr others)

/-! ## Results -/

/-- What a connection dispatches is fixed by the results of `recv`: there is no outcome if one
    of the texts keeps the decoder for ever, and else one, the commands of the texts queued. -/
theorem connection_dispatches_iff (fits : ∀ piece ∈ pieces, piece.length ≤ bufSize) :
    Dispatched pieces commands ↔
      (∀ text ∈ queuedTexts pieces, ¬ Endless text) ∧
        commands = (queuedTexts pieces).map commandOf :=
  dispatched_iff_commandOf fits

theorem connection_dispatches_iff_sample :
    Dispatched [commandText (0x02, [0x12]) ++ [0, 0], [0]] [0x02] ↔
      (∀ text ∈ queuedTexts [commandText (0x02, [0x12]) ++ [0, 0], [0]], ¬ Endless text) ∧
        [0x02] = (queuedTexts [commandText (0x02, [0x12]) ++ [0, 0], [0]]).map commandOf :=
  connection_dispatches_iff (by decide)

/-- A frame sent by the client is dispatched once and as its command, however the buffer is cut,
    exactly if the first `recv` delivers the whole frame. -/
theorem client_dispatched_iff (c : UInt8) (data : List UInt8)
    (short : (commandText (c, data)).length ≤ 254)
    (cut : pieces.flatten = sendbuf (commandText (c, data)))
    (fits : ∀ piece ∈ pieces, piece ≠ [] ∧ piece.length ≤ bufSize) :
    Dispatched pieces [c] ↔ (commandText (c, data)).length ≤ (pieces.headD []).length := by
  have nonNul : ∀ d ∈ commandText (c, data), d ≠ 0 := frameText_ne_zero (spells_encode _)
  have nonempty : commandText (c, data) ≠ [] := by simp [commandText, frameText, beginMark]
  have room : (commandText (c, data)).length < bufSize := Nat.lt_of_le_of_lt short (by decide)
  rw [dispatched_iff_commandOf fun piece member => (fits piece member).2]
  cases pieces with
  | nil =>
      have none := congrArg List.length cut
      have some := List.length_pos_iff.mpr nonempty
      simp only [List.flatten_nil, List.length_nil, sendbuf, List.length_append] at none
      omega
  | cons first rest =>
      obtain ⟨whole, parted⟩ := queuedTexts_singleton_iff nonNul nonempty room cut
        fun piece member => (fits piece member).1
      rw [List.headD_cons]
      constructor
      · rintro ⟨-, single⟩
        by_contra less
        have two := parted (Nat.not_le.mp less)
        have one := congrArg List.length single
        rw [List.length_map, List.length_singleton] at one
        omega
      · intro inOne
        rw [whole inOne]
        have alone := commandOf_frame c data []
        rw [List.append_nil] at alone
        refine ⟨fun text member => ?_, by rw [List.map_singleton, alone]⟩
        rw [List.mem_singleton] at member
        rintro ⟨full, -⟩
        rw [← member] at short
        omega

/-- The frame of client.c arrives with the first 256 of the 512 bytes. -/
theorem client_dispatched_iff_sample :
    let text := commandText (0x02, [0x12, 0x34, 0x56, 0x78, 0x01, 0x02, 0x03, 0x04, 0x20])
    Dispatched [(sendbuf text).take 256, (sendbuf text).drop 256] [0x02] ↔
      text.length ≤ ([(sendbuf text).take 256, (sendbuf text).drop 256].headD []).length :=
  client_dispatched_iff _ _ (by decide) (by simp) (by decide +kernel)

end ObdServer
