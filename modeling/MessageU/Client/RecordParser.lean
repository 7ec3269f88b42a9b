import Mathlib.Data.List.Induction
import MessageU.Client.Records
import MessageU.Library.Buffer
import MessageU.Library.Rounds

/-!
# The parser of waiting messages on a buffer

`responseWaitingMessages` once more, now as it handles its buffer. `std::size_t` has `bits` bits and
sums of offsets are taken modulo `2 ^ bits`, a `std::string` is shorter than half of what
`std::size_t` can count, and every access to the buffer is a read at an offset, which nothing keeps
inside the buffer but the checks of the code. The functions of `Response`, which are given what is
read, are realized by these (`realizes_waitingLoop`) as long as no header declares a content that
ends at `2 ^ bits` or behind (`SizesFit`).

With 64 bits this is always so, and `waiting_parser_exact` says what the parser accepts: the
concatenations of complete records. With 32 bits it is not, and `loop_safe_iff` says that it is all
that the loop needs. `LoopSafe` is about the rounds of the loop as a client runs them: where it
comes to (`Visits`, which `Visits.run` finds in the run of the function), what its checks let
through (`LetsThrough`), and where it goes on (`GoesOn`).
-/

set_option autoImplicit false
set_option relaxedAutoImplicit false

namespace MessageU.Client

open Library Interaction

/-! ### The functions on a buffer -/

/-- A function that reads a buffer. -/
abbrev Parser (α : Type) := Interaction Calls.withBuffer CppError α

section Functions

variable (bits : ℕ)

/-- `readClientID` on a buffer of `size` bytes. -/
def readClientIDAt (size offset : ℕ) : Parser ClientId :=
  if size < wordAdd bits offset clientIdSize then
    .finished (.error (.runtimeError "readClientID: Not enough bytes for ClientID"))
  else do
    let id ← readBuffer offset clientIdSize
    pure (.ofBytes clientIdSize id)

/-- `readUint32LE` on a buffer of `size` bytes. -/
def readUint32LEAt (size offset : ℕ) : Parser ℕ :=
  if size < wordAdd bits offset 4 then
    .finished (.error (.runtimeError "readUint32LE: not enough bytes"))
  else do
    let value ← readBuffer offset 4
    pure (fromLittleEndian value)

/-- `std::string enc(contentPtr, msgSize)`. -/
def copyContent (offset msgSize : ℕ) : Parser Bytes :=
  if 2 ^ (bits - 1) ≤ msgSize then .finished (.error (.logicError "string too long"))
  else readBuffer offset msgSize

/-- `handleSymmetricKeyMessage`. -/
def handleSymmetricKeyMessageAt (fromId : ClientId) (offset msgSize : ℕ) (rsaPriv : Bytes) :
    Parser Unit :=
  Interaction.rescue (do
    let enc ← copyContent bits offset msgSize
    let symKeyBin ← withoutReads (ask (.rsaDecrypt rsaPriv enc))
    if h : symKeyBin.length = symmetricKeySize then do
      withoutReads (ensureFriend fromId)
      withoutReads (ask (.setFriendSymmetricKey fromId ⟨symKeyBin, h⟩))
      withoutReads (ask (.print (.text "symmetric key received\n")))
    else withoutReads (ask (.print cannotDecrypt))) fun _ ↦ withoutReads
      (ask (.print cannotDecrypt))

/-- `handleTextMessage`. -/
def handleTextMessageAt (fromId : ClientId) (offset msgSize : ℕ) : Parser Unit := do
  let friendOpt ← withoutReads (ask (.tryGetFriendCopy fromId))
  match friendOpt.bind Friend.symmetricKey with
  | none => withoutReads (ask (.print cannotDecrypt))
  | some key =>
    Interaction.rescue (do
      let enc ← copyContent bits offset msgSize
      let txt ← withoutReads (ask (.aesDecrypt key enc))
      withoutReads (ask (.print (.plaintext txt)))) fun _ ↦ withoutReads
        (ask (.print cannotDecrypt))

/-- What `responseWaitingMessages` does with one record, whose content stands at an offset. -/
def handleRecordAt (fromId : ClientId) (msgType offset msgSize : ℕ) (rsaPriv : Bytes) :
    Parser Unit := do
  let friendOpt ← withoutReads (ask (.tryGetFriendCopy fromId))
  withoutReads (ask (.print (.sender (shownName fromId friendOpt))))
  withoutReads (ask (.print (.text "Content:\n")))
  if msgType = requestSymmetricKey then
    withoutReads (ask (.print (.text "Request for symmetric key\n")))
  else if msgType = sendSymmetricKey then
    handleSymmetricKeyMessageAt bits fromId offset msgSize rsaPriv
  else if msgType = sendText then handleTextMessageAt bits fromId offset msgSize
  else withoutReads (ask (.print (.unsupportedType msgType)))
  withoutReads (ask (.print (.text "-----<EOM>-----\n\n")))

/-- The offset of the type in a record. -/
def typeOffset (offset : ℕ) : ℕ :=
  wordAdd bits (wordAdd bits offset clientIdSize) msgIdSize

/-- The offset of the size in a record. -/
def sizeOffset (offset : ℕ) : ℕ :=
  wordAdd bits (typeOffset bits offset) typeSize

/-- The offset of the content in a record. -/
def contentOffset (offset : ℕ) : ℕ :=
  wordAdd bits (sizeOffset bits offset) msgSize

/-- A record that the checks of the loop have let through. -/
structure CheckedRecord where
  fromId : ClientId
  msgType : ℕ
  /-- The offset of its content. -/
  content : ℕ
  msgSize : ℕ

/-- The loop of `responseWaitingMessages` up to the content of a record: its condition, the
check of the record header, the fields, and the check of the content. None is read at the end of
the buffer. -/
def checkRecordAt (size offset : ℕ) : Parser (Option CheckedRecord) :=
  if offset < size then
    if size < wordAdd bits offset recordMin then
      .finished (.error (.runtimeError "responseWaitingMessages: truncated record header"))
    else do
      let fromId ← readClientIDAt bits size offset
      let typeField ← readBuffer (typeOffset bits offset) typeSize
      let msgType := (typeField.headD 0).toNat
      let msgSize ← readUint32LEAt bits size (sizeOffset bits offset)
      let offset := contentOffset bits offset
      if size < wordAdd bits offset msgSize then
        .finished (.error (.runtimeError "responseWaitingMessages: truncated message content"))
      else pure (some ⟨fromId, msgType, offset, msgSize⟩)
  else pure none

/-- The loop handles a record and goes on behind it. -/
def handleCheckedRecord (rsaPriv : Bytes) : Option CheckedRecord → Parser (ℕ ⊕ Unit)
  | none => pure (.inr ())
  | some record => do
    handleRecordAt bits record.fromId record.msgType record.content record.msgSize rsaPriv
    pure (.inl (wordAdd bits record.content record.msgSize))

/-- A round of the loop. -/
def waitingRoundAt (size : ℕ) (rsaPriv : Bytes) (offset : ℕ) : Parser (ℕ ⊕ Unit) := do
  let record ← checkRecordAt bits size offset
  handleCheckedRecord bits rsaPriv record

/-- The loop of `responseWaitingMessages` on a buffer of `size` bytes. -/
def waitingLoopAt (size : ℕ) (rsaPriv : Bytes) : (rounds offset : ℕ) → Parser Unit :=
  loop .outOfFuel (waitingRoundAt bits size rsaPriv)

/-- `responseWaitingMessages` on a buffer of `size` bytes. Assumes: `rounds` for its loop. -/
def responseWaitingMessagesAt (size rounds : ℕ) : Parser Unit :=
  if headerSize = size then withoutReads (ask (.print (.text "No waiting messages.\n")))
  else do
    let privateKey ← withoutReads (ask .getPrivateKey)
    withoutReads (ask (.loadPrivateKey privateKey))
    waitingLoopAt bits size privateKey rounds headerSize

/-- A client runs a function that reads a buffer. The ranges that were read are in the result. -/
def Parser.exec {α : Type} (crypto : Crypto) (data : Bytes) (program : Parser α)
    (state : ClientState) :
    Reading ClientState × Except CppError α :=
  program.run (serveBuffer (ClientCall.exec crypto) data) ⟨state, []⟩

end Functions

/-! ### Offsets behind records -/

/-- The size of the content that the record at an offset declares. -/
def sizeField (data : Bytes) (offset : ℕ) : ℕ :=
  fromLittleEndian (slice data (offset + clientIdSize + msgIdSize + typeSize) 4)

/-- An offset that stands behind the header of a response and complete records. -/
def BehindRecords (data : Bytes) (offset : ℕ) : Prop :=
  ∃ (header : Bytes) (messages : List Server.WaitingMessage) (rest : Bytes),
    header.length = headerSize ∧ (∀ message ∈ messages, Server.Encodable message) ∧
      data = header ++ (messages.flatMap Server.recordBytes ++ rest) ∧
        offset = (header ++ messages.flatMap Server.recordBytes).length

/-- No record header behind complete records declares a content that ends at `2 ^ bits` or
behind. -/
def SizesFit (bits : ℕ) (data : Bytes) : Prop :=
  ∀ offset, BehindRecords data offset → offset + recordMin ≤ data.length →
    offset + recordMin + sizeField data offset < 2 ^ bits

section Offsets

variable {bits offset : ℕ} {data : Bytes}

/-- Half of what words can count. -/
theorem words_half (hbits : 32 ≤ bits) :
    2 ^ bits = 2 * 2 ^ (bits - 1) ∧ 2 ^ 31 ≤ 2 ^ (bits - 1) := by
  constructor
  · rw [← Nat.pow_succ', Nat.succ_eq_add_one, Nat.sub_add_cancel (Nat.one_le_of_lt hbits)]
  · exact Nat.pow_le_pow_right (by decide) (Nat.le_sub_one_of_lt hbits)

/-- A size field holds four bytes. -/
theorem sizeField_lt (data : Bytes) (offset : ℕ) : sizeField data offset < 2 ^ 32 := by
  have hlength := slice_length_le data (offset + clientIdSize + msgIdSize + typeSize) 4
  refine (fromLittleEndian_lt _).trans_le ?_
  exact (Nat.pow_le_pow_right (by decide) hlength).trans (by decide)

/-- Words of 64 bits hold the end of every content. -/
theorem sizesFit_sixtyFour (hdata : data.length < 2 ^ 63) : SizesFit 64 data := by
  intro offset _ hheader
  have hdeclared := sizeField_lt data offset
  omega

/-- The records begin behind the header. -/
theorem behindRecords_header (hdata : headerSize ≤ data.length) :
    BehindRecords data headerSize := by
  have hheader : (data.take headerSize).length = headerSize := List.length_take_of_le hdata
  refine ⟨data.take headerSize, [], data.drop headerSize, hheader,
    fun _ h ↦ absurd h List.not_mem_nil,
    ?_, ?_⟩
  · rw [List.flatMap_nil, List.nil_append, List.take_append_drop]
  · rw [List.flatMap_nil, List.append_nil, hheader]

/-- A field of a record that stands behind a known beginning. -/
theorem slice_behind {front rest : Bytes} (offset size : ℕ) :
    slice (front ++ rest) (front.length + offset) size = slice rest offset size := by
  rw [slice, slice, List.drop_length_add_append]

/-- A record that lies inside the buffer is complete. -/
theorem BehindRecords.next (h : BehindRecords data offset)
    (hinside : offset + recordMin + sizeField data offset ≤ data.length) :
    BehindRecords data (offset + recordMin + sizeField data offset) := by
  obtain ⟨header, messages, rest, hheader, hmessages, hdata, hoffset⟩ := h
  let front := header ++ messages.flatMap Server.recordBytes
  have hfront : data = front ++ rest := by rw [hdata, List.append_assoc]
  have hdeclared : sizeField data offset = Server.fromBytes (slice rest 21 4) := by
    rw [hoffset, hfront]
    exact congrArg fromLittleEndian (slice_behind 21 4)
  have hcomplete : ¬Server.Incomplete rest := by
    have hlength : data.length = offset + rest.length := by rw [hfront, List.length_append, hoffset]
    rw [hdeclared, hlength] at hinside
    rw [Server.Incomplete]
    simp only [recordMin, Server.recordHeaderSize, clientIdSize, msgIdSize, typeSize,
      msgSize] at hinside ⊢
    omega
  obtain ⟨message, behind, hmessage, hcontent, rfl⟩ := Server.exists_record hcomplete
  refine ⟨header, messages ++ [message], behind, hheader, ?_, ?_, ?_⟩
  · rw [List.forall_mem_append]
    exact ⟨hmessages, List.forall_mem_singleton.mpr hmessage⟩
  · rw [hdata, List.flatMap_append, List.flatMap_singleton, List.append_assoc]
  · rw [hdeclared, ← hcontent, List.flatMap_append, List.flatMap_singleton, ← List.append_assoc,
      List.length_append, ← hoffset, Server.recordBytes_length hmessage.fromClient]
    exact Nat.add_assoc offset 25 message.content.length

/-- The record header behind complete records does not end at `2 ^ bits` or behind. Assumes: a
buffer of less than half of what words can count. -/
theorem BehindRecords.header_fits (h : BehindRecords data offset) (hbits : 32 ≤ bits)
    (hdata : data.length < 2 ^ (bits - 1)) : offset + recordMin < 2 ^ bits := by
  obtain ⟨header, messages, rest, -, -, hwhole, hoffset⟩ := h
  have hle : offset ≤ data.length := by
    rw [hoffset, hwhole, ← List.append_assoc]
    exact (List.prefix_append _ rest).length_le
  obtain ⟨hpower, hhalf⟩ := words_half hbits
  simp only [recordMin, clientIdSize, msgIdSize, typeSize, msgSize]
  omega

/-- The offsets in a record whose header does not end at `2 ^ bits` or behind. -/
theorem fieldOffsets_eq (hfits : offset + recordMin < 2 ^ bits) :
    typeOffset bits offset = offset + clientIdSize + msgIdSize ∧
      sizeOffset bits offset = offset + clientIdSize + msgIdSize + typeSize ∧
      contentOffset bits offset = offset + recordMin := by
  simp only [recordMin, clientIdSize, msgIdSize, typeSize, msgSize] at hfits ⊢
  have hid : wordAdd bits offset clientIdSize = offset + 16 :=
    wordAdd_eq (by simp only [clientIdSize]; omega)
  have htype : typeOffset bits offset = offset + 16 + 4 := by
    rw [typeOffset, hid, wordAdd_eq (by simp only [msgIdSize]; omega)]
  have hsize : sizeOffset bits offset = offset + 16 + 4 + 1 := by
    rw [sizeOffset, htype, wordAdd_eq (by simp only [typeSize]; omega)]
  refine ⟨htype, hsize, ?_⟩
  rw [contentOffset, hsize, wordAdd_eq (by simp only [msgSize]; omega), msgSize]

end Offsets

/-! ### What the functions on a buffer realize -/

section Realizes

variable {bits offset : ℕ} {data : Bytes}

/-- An ID inside the buffer. -/
theorem readClientID_eq (hinside : offset + clientIdSize ≤ data.length) :
    readClientID data offset = .ok (.ofBytes clientIdSize (slice data offset clientIdSize)) := by
  rw [readClientID, dif_pos hinside]
  exact congrArg _ (Subtype.ext (FixedBytes.val_ofBytes (slice_length hinside)).symm)

theorem realizes_readClientID (hfits : offset + clientIdSize < 2 ^ bits)
    (hinside : offset + clientIdSize ≤ data.length) :
    Realizes data (readClientIDAt bits data.length offset)
      (.finished (readClientID data offset)) := by
  rw [readClientIDAt, readClientID_eq hinside, wordAdd_eq hfits, if_neg (not_lt.mpr hinside)]
  exact .readBuffer hinside (.finished _)

theorem realizes_readUint32LE (hfits : offset + 4 < 2 ^ bits) (hinside : offset + 4 ≤ data.length) :
    Realizes data (readUint32LEAt bits data.length offset)
      (.finished (readUint32LE data offset)) := by
  rw [readUint32LEAt, readUint32LE, wordAdd_eq hfits, if_neg (not_lt.mpr hinside),
    if_neg (not_lt.mpr hinside)]
  exact .readBuffer hinside (.finished _)

/-- A content inside the buffer is copied and handed on. -/
theorem realizes_copyContent {α : Type} {size : ℕ} (hshort : size < 2 ^ (bits - 1))
    (hinside : offset + size ≤ data.length) {low : Bytes → Parser α} {high : Program α}
    (h : Realizes data (low (slice data offset size)) high) :
    Realizes data (copyContent bits offset size >>= low) high := by
  rw [copyContent, if_neg (not_le.mpr hshort)]
  exact .readBuffer hinside h

theorem realizes_handleSymmetricKeyMessage (fromId : ClientId) {size : ℕ}
    (hshort : size < 2 ^ (bits - 1)) (hinside : offset + size ≤ data.length) (rsaPriv : Bytes) :
    Realizes data (handleSymmetricKeyMessageAt bits fromId offset size rsaPriv)
      (handleSymmetricKeyMessage fromId (slice data offset size) rsaPriv) := by
  refine Realizes.rescue (realizes_copyContent hshort hinside ?_) fun _ ↦ .withoutReads _
  refine (Realizes.withoutReads _).bind fun symKeyBin ↦ ?_
  split_ifs
  · exact (Realizes.withoutReads _).bind fun _ ↦
      (Realizes.withoutReads _).bind fun _ ↦ .withoutReads _
  · exact .withoutReads _

theorem realizes_handleTextMessage (fromId : ClientId) {size : ℕ} (hshort : size < 2 ^ (bits - 1))
    (hinside : offset + size ≤ data.length) :
    Realizes data (handleTextMessageAt bits fromId offset size)
      (handleTextMessage fromId (slice data offset size)) := by
  refine (Realizes.withoutReads _).bind fun friendOpt ↦ ?_
  cases friendOpt.bind Friend.symmetricKey with
  | none => exact .withoutReads _
  | some key =>
    refine Realizes.rescue (realizes_copyContent hshort hinside ?_) fun _ ↦ .withoutReads _
    exact (Realizes.withoutReads _).bind fun txt ↦ .withoutReads _

theorem realizes_handleRecord (fromId : ClientId) (msgType : ℕ) {size : ℕ}
    (hshort : size < 2 ^ (bits - 1)) (hinside : offset + size ≤ data.length) (rsaPriv : Bytes) :
    Realizes data (handleRecordAt bits fromId msgType offset size rsaPriv)
      (handleRecord fromId msgType (slice data offset size) rsaPriv) := by
  refine (Realizes.withoutReads _).bind fun friendOpt ↦ (Realizes.withoutReads _).bind fun _ ↦ ?_
  refine (Realizes.withoutReads _).bind fun _ ↦ ?_
  split_ifs
  · exact (Realizes.withoutReads _).bind fun _ ↦ .withoutReads _
  · exact (realizes_handleSymmetricKeyMessage fromId hshort hinside rsaPriv).bind fun _ ↦
      .withoutReads _
  · exact (realizes_handleTextMessage fromId hshort hinside).bind fun _ ↦ .withoutReads _
  · exact (Realizes.withoutReads _).bind fun _ ↦ .withoutReads _

/-- A byte is read as a range of one byte. -/
theorem headD_slice (data : Bytes) (offset : ℕ) :
    (slice data offset 1).headD 0 = data.getD offset 0 := by
  rw [slice, List.getD_eq_getElem?_getD, ← Nat.add_zero offset, ← List.getElem?_drop]
  cases data.drop offset <;> rfl

/-- What the checks of the loop come to. -/
def checkedRecord (bits : ℕ) (data : Bytes) (offset : ℕ) : Except CppError (Option CheckedRecord) :=
  if offset < data.length then
    if data.length < offset + recordMin then
      .error (.runtimeError "responseWaitingMessages: truncated record header")
    else if data.length < wordAdd bits (offset + recordMin) (sizeField data offset) then
      .error (.runtimeError "responseWaitingMessages: truncated message content")
    else
      .ok (some ⟨.ofBytes clientIdSize (slice data offset clientIdSize),
        (data.getD (offset + clientIdSize + msgIdSize) 0).toNat, offset + recordMin,
        sizeField data offset⟩)
  else .ok none

/-- Assumes: a record header that does not end at `2 ^ bits` or behind. -/
theorem realizes_checkRecord (hfits : offset + recordMin < 2 ^ bits) :
    Realizes data (checkRecordAt bits data.length offset)
      (.finished (checkedRecord bits data offset)) := by
  rw [checkRecordAt, checkedRecord, wordAdd_eq hfits]
  by_cases hmore : offset < data.length
  swap
  · rw [if_neg hmore, if_neg hmore]
    exact .finished _
  rw [if_pos hmore, if_pos hmore]
  by_cases hheader : data.length < offset + recordMin
  · rw [if_pos hheader, if_pos hheader]
    exact .finished _
  rw [if_neg hheader, if_neg hheader]
  rw [not_lt] at hheader
  obtain ⟨htype, hsize, hcontent⟩ := fieldOffsets_eq hfits
  simp only [recordMin, clientIdSize, msgIdSize, typeSize, msgSize] at hfits hheader
  have hid : readClientID data offset =
      .ok (.ofBytes clientIdSize (slice data offset clientIdSize)) :=
    readClientID_eq (by simp; omega)
  have hread : readUint32LE data (offset + clientIdSize + msgIdSize + typeSize) =
      .ok (sizeField data offset) :=
    readUint32LE_of_slice (by simp; omega) rfl
  have hlowId : Realizes data (readClientIDAt bits data.length offset)
      (.finished (readClientID data offset)) :=
    realizes_readClientID (by simp; omega) (by simp; omega)
  have hlowSize : Realizes data
      (readUint32LEAt bits data.length (offset + clientIdSize + msgIdSize + typeSize))
      (.finished (readUint32LE data (offset + clientIdSize + msgIdSize + typeSize))) :=
    realizes_readUint32LE (by simp; omega) (by simp; omega)
  rw [hid] at hlowId
  rw [hread] at hlowSize
  rw [htype, hsize, hcontent]
  refine hlowId.value (Realizes.readBuffer (by simp; omega) (hlowSize.value ?_))
  rw [headD_slice]
  show Realizes data (if data.length < wordAdd bits (offset + recordMin) (sizeField data offset)
    then _ else _) _
  split_ifs <;> exact .finished _

/-- The loop that is given what is read, with the fields of the record at an offset. -/
theorem waitingLoop_succ (data rsaPriv : Bytes) (rounds offset : ℕ) :
    waitingLoop data rsaPriv (rounds + 1) offset =
      if offset < data.length then
        if data.length < offset + recordMin then
          throwing (.runtimeError "responseWaitingMessages: truncated record header")
        else if data.length < offset + recordMin + sizeField data offset then
          throwing (.runtimeError "responseWaitingMessages: truncated message content")
        else
          handleRecord (.ofBytes clientIdSize (slice data offset clientIdSize))
              (data.getD (offset + clientIdSize + msgIdSize) 0).toNat
              (slice data (offset + recordMin) (sizeField data offset)) rsaPriv >>= fun _ ↦
            waitingLoop data rsaPriv rounds (offset + recordMin + sizeField data offset)
      else pure () := by
  rw [waitingLoop]
  by_cases hheader : data.length < offset + recordMin
  · rw [if_pos hheader, if_pos hheader]
  rw [if_neg hheader, if_neg hheader]
  simp only [recordMin, clientIdSize, msgIdSize, typeSize, msgSize] at hheader
  have hid : readClientID data offset =
      .ok (.ofBytes clientIdSize (slice data offset clientIdSize)) :=
    readClientID_eq (by simp; omega)
  have hread : readUint32LE data (offset + clientIdSize + msgIdSize + typeSize) =
      .ok (sizeField data offset) :=
    readUint32LE_of_slice (by simp; omega) rfl
  rw [hid, hread]
  rfl

/-- The loop on a buffer does what the loop does that is given what is read. The induction is on the
rounds; every round begins behind complete records. Assumes: a buffer of less than half of what
words can count. -/
theorem realizes_waitingLoop (hbits : 32 ≤ bits) (hdata : data.length < 2 ^ (bits - 1))
    (hfit : SizesFit bits data) (rsaPriv : Bytes) (rounds : ℕ)
    (hoffset : BehindRecords data offset) :
    Realizes data (waitingLoopAt bits data.length rsaPriv rounds offset)
      (waitingLoop data rsaPriv rounds offset) := by
  induction rounds generalizing offset with
  | zero => exact .finished _
  | succ rounds ih =>
    have hfits : offset + recordMin < 2 ^ bits := hoffset.header_fits hbits hdata
    have hchecked : Realizes data _ _ := realizes_checkRecord hfits
    rw [waitingLoopAt, loop, waitingRoundAt, bind_eq, bind_eq, attempt_attempt, waitingLoop_succ]
    refine hchecked.outcome ?_
    rw [checkedRecord]
    by_cases hmore : offset < data.length
    swap
    · rw [if_neg hmore, if_neg hmore]
      exact .finished _
    rw [if_pos hmore, if_pos hmore]
    by_cases hheader : data.length < offset + recordMin
    · rw [if_pos hheader, if_pos hheader]
      exact .finished _
    rw [if_neg hheader, if_neg hheader, wordAdd_eq (hfit offset hoffset (not_lt.mp hheader))]
    by_cases hwhole : data.length < offset + recordMin + sizeField data offset
    · rw [if_pos hwhole, if_pos hwhole]
      exact .finished _
    rw [if_neg hwhole, if_neg hwhole]
    rw [not_lt] at hwhole
    have hshort : sizeField data offset < 2 ^ (bits - 1) :=
      (Nat.le_add_left _ _).trans_lt (hwhole.trans_lt hdata)
    rw [proceed_ok, handleCheckedRecord, bind_eq, attempt_attempt]
    refine (realizes_handleRecord _ _ hshort hwhole rsaPriv).attempt fun outcome ↦ ?_
    cases outcome with
    | ok value =>
      show Realizes data (waitingLoopAt bits data.length rsaPriv rounds
        (wordAdd bits (offset + recordMin) (sizeField data offset))) _
      rw [wordAdd_eq (hfit offset hoffset (not_lt.mp hheader))]
      exact ih (hoffset.next hwhole)
    | error exception => exact .finished _

end Realizes

/-! ### What the parser accepts -/

/-- What is thrown for data that end inside a record. -/
def truncated (rest : Bytes) : CppError :=
  .runtimeError (if rest.length < recordMin then "responseWaitingMessages: truncated record header"
    else "responseWaitingMessages: truncated message content")

/-- One of two errors is thrown. -/
theorem truncated_cases (rest : Bytes) :
    truncated rest = .runtimeError "responseWaitingMessages: truncated record header" ∨
      truncated rest = .runtimeError "responseWaitingMessages: truncated message content" := by
  rw [truncated]
  split_ifs
  · exact .inl rfl
  · exact .inr rfl

/-- The loop at data that do not begin with a whole record. -/
theorem waitingLoop_incomplete (front privateKey : Bytes) (rounds : ℕ) {rest : Bytes}
    (hrest : Server.Incomplete rest) :
    waitingLoop (front ++ rest) privateKey (rounds + 1) front.length =
      if rest = [] then pure () else throwing (truncated rest) := by
  rw [waitingLoop_succ, truncated, List.length_append]
  by_cases hempty : rest = []
  · subst hempty
    rw [if_neg (by simp), if_pos rfl]
  rw [if_pos (Nat.lt_add_of_pos_right (List.length_pos_iff.mpr hempty)), if_neg hempty]
  by_cases hheader : rest.length < recordMin
  · rw [if_pos (Nat.add_lt_add_left hheader _), if_pos hheader]
  rw [if_neg (mt Nat.lt_of_add_lt_add_left hheader), if_neg hheader]
  have hsize : sizeField (front ++ rest) front.length = Server.fromBytes (slice rest 21 4) :=
    congrArg fromLittleEndian (slice_behind 21 4)
  have hshort : front.length + rest.length <
      front.length + recordMin + Server.fromBytes (slice rest 21 4) := by
    rw [Nat.add_assoc]
    exact Nat.add_lt_add_left hrest _
  rw [hsize, if_pos hshort]

/-- What a client makes of a response to its pull that may end inside a record: it handles the
complete records, and throws if anything stands behind them. Assumes: a private key that can be
loaded. -/
theorem exec_responseWaitingMessages_incomplete (crypto : Crypto) {header : Bytes}
    (hheader : header.length = headerSize) {messages : List Server.WaitingMessage}
    (hmessages : ∀ message ∈ messages, Server.Encodable message) {rest : Bytes}
    (hrest : Server.Incomplete rest) (hsome : messages.flatMap Server.recordBytes ++ rest ≠ [])
    (before : ClientState) (hkey : crypto.loadsPrivateKey before.ctx.privateKey = true) :
    (responseWaitingMessages (header ++ (messages.flatMap Server.recordBytes ++ rest))).exec crypto
        before =
      (messages.foldl (ClientState.read crypto before.ctx.privateKey) before,
        if rest = [] then .ok () else .error (truncated rest)) := by
  let data := header ++ (messages.flatMap Server.recordBytes ++ rest)
  have hmany := length_le_flatMap_recordBytes hmessages
  have hlength : data.length =
      headerSize + ((messages.flatMap Server.recordBytes).length + rest.length) := by
    rw [List.length_append, List.length_append, hheader]
  have hpositive := List.length_pos_iff.mpr hsome
  rw [List.length_append] at hpositive
  have hload : ClientCall.exec crypto before (.loadPrivateKey before.ctx.privateKey) =
      (before, .ok ()) := by
    rw [ClientCall.exec, hkey]
    rfl
  obtain ⟨spare, hspare⟩ : ∃ spare, data.length = messages.length + (spare + 1) := by
    refine ⟨data.length - messages.length - 1, ?_⟩
    rw [hlength]
    simp only [headerSize]
    omega
  have hloop := exec_waitingLoop_append crypto before.ctx.privateKey hmessages header
    rest (spare + 1)
    before
  rw [hheader] at hloop
  rw [responseWaitingMessages, if_neg (show ¬data.length = headerSize by rw [hlength]; omega),
    exec_ask rfl, exec_ask hload]
  show (waitingLoop data before.ctx.privateKey data.length headerSize).exec crypto before = _
  rw [hspare, hloop, ← List.append_assoc, waitingLoop_incomplete _ _ _ hrest]
  split_ifs <;> rfl

/-- What it means that a parser accepts exactly the concatenations of complete records. -/
structure AcceptsRecords (crypto : Crypto) (data : Bytes) (before : ClientState)
    (result : Reading ClientState × Except CppError Unit) : Prop where
  /-- Every byte that is read lies inside the buffer. -/
  reads : Inside data result.1.reads
  /-- It returns exactly on complete records. -/
  accepted : result.2 = .ok () ↔ ∃ messages : List Server.WaitingMessage,
    (∀ message ∈ messages, Server.Encodable message) ∧
      data.drop headerSize = messages.flatMap Server.recordBytes
  /-- Otherwise it throws one of two errors. -/
  rejected : result.2 ≠ .ok () →
    result.2 = .error (.runtimeError "responseWaitingMessages: truncated record header") ∨
      result.2 = .error (.runtimeError "responseWaitingMessages: truncated message content")
  /-- It has handled the records of the longest sequence of complete records. -/
  handled : ∃ messages : List Server.WaitingMessage,
    (∀ message ∈ messages, Server.Encodable message) ∧
      messages.flatMap Server.recordBytes <+: data.drop headerSize ∧
      (∀ others : List Server.WaitingMessage, (∀ message ∈ others, Server.Encodable message) →
        others.flatMap Server.recordBytes <+: data.drop headerSize → others <+: messages) ∧
      result.1.state =
        if data.length = headerSize then
          { before with output := before.output ++ [.text "No waiting messages.\n"] }
        else messages.foldl (ClientState.read crypto before.ctx.privateKey) before

section Accepts

variable {bits : ℕ} {data : Bytes}

/-- The parser on a buffer does what `responseWaitingMessages` does. Assumes: a buffer of less than
half of what words can count, and contents that words hold. -/
theorem realizes_responseWaitingMessages (hbits : 32 ≤ bits) (hheader : headerSize ≤ data.length)
    (hdata : data.length < 2 ^ (bits - 1)) (hfit : SizesFit bits data) :
    Realizes data (responseWaitingMessagesAt bits data.length data.length)
      (responseWaitingMessages data) := by
  rw [responseWaitingMessagesAt, responseWaitingMessages]
  by_cases hempty : data.length = headerSize
  · rw [if_pos hempty, if_pos hempty.symm]
    exact .withoutReads _
  · rw [if_neg hempty, if_neg (Ne.symm hempty)]
    refine (Realizes.withoutReads _).bind fun privateKey ↦ (Realizes.withoutReads _).bind fun _ ↦ ?_
    exact realizes_waitingLoop hbits hdata hfit privateKey _ (behindRecords_header hheader)

/-- Assumes: a buffer of less than half of what words can count, contents that words hold, and a
private key that can be loaded. -/
theorem acceptsRecords (crypto : Crypto) (hbits : 32 ≤ bits) (hheader : headerSize ≤ data.length)
    (hdata : data.length < 2 ^ (bits - 1)) (hfit : SizesFit bits data) (before : ClientState)
    (hkey : crypto.loadsPrivateKey before.ctx.privateKey = true) :
    AcceptsRecords crypto data before
      ((responseWaitingMessagesAt bits data.length data.length).exec crypto data before) := by
  obtain ⟨reads, hrun, hinside⟩ := (realizes_responseWaitingMessages hbits hheader hdata hfit).run
    (ClientCall.exec crypto) before []
  obtain ⟨messages, rest, hmessages, hpayload, hrest⟩ :=
    Server.exists_records (data.drop headerSize)
  let header := data.take headerSize
  have hfront : header.length = headerSize := List.length_take_of_le hheader
  have hwhole : data = header ++ (messages.flatMap Server.recordBytes ++ rest) := by
    rw [← hpayload, List.take_append_drop]
  have hlongest : ∀ others : List Server.WaitingMessage,
      (∀ message ∈ others, Server.Encodable message) →
        others.flatMap Server.recordBytes <+: data.drop headerSize → others <+: messages := by
    rintro others hothers ⟨tail, htail⟩
    exact Server.records_prefix hmessages hothers hrest (hpayload.symm.trans htail.symm)
  -- Nothing stands behind the records exactly if the payload is a concatenation of records.
  have hcomplete : rest = [] ↔ ∃ others : List Server.WaitingMessage,
      (∀ message ∈ others, Server.Encodable message) ∧
        data.drop headerSize = others.flatMap Server.recordBytes := by
    constructor
    · rintro rfl
      exact ⟨messages, hmessages, by rw [hpayload, List.append_nil]⟩
    · rintro ⟨others, hothers, heq⟩
      obtain ⟨more, hmore⟩ := hlongest others hothers (heq ▸ List.prefix_rfl)
      rw [heq, ← hmore, List.flatMap_append, List.append_assoc] at hpayload
      exact (List.append_eq_nil_iff.mp (List.self_eq_append_right.mp hpayload)).2
  have hempty : data.length = headerSize ↔ messages.flatMap Server.recordBytes ++ rest = [] := by
    rw [← hpayload, List.drop_eq_nil_iff]
    exact ⟨fun h ↦ h.le, fun h ↦ le_antisymm h hheader⟩
  have hresult : (responseWaitingMessages data).exec crypto before =
      (if data.length = headerSize then
          { before with output := before.output ++ [.text "No waiting messages.\n"] }
        else messages.foldl (ClientState.read crypto before.ctx.privateKey) before,
        if rest = [] then .ok () else .error (truncated rest)) := by
    by_cases hnone : data.length = headerSize
    · rw [if_pos hnone, if_pos (List.append_eq_nil_iff.mp (hempty.mp hnone)).2,
        responseWaitingMessages, if_pos hnone]
      rfl
    · rw [if_neg hnone]
      nth_rewrite 1 [hwhole]
      exact exec_responseWaitingMessages_incomplete crypto hfront hmessages hrest
        (mt hempty.mpr hnone) before hkey
  have hexec : (responseWaitingMessagesAt bits data.length data.length).exec crypto data before =
      (⟨((responseWaitingMessages data).exec crypto before).1, reads⟩,
        ((responseWaitingMessages data).exec crypto before).2) := hrun
  rw [hexec, hresult]
  refine
    { reads := hinside
      accepted := ?_
      rejected := fun hthrown ↦ ?_
      handled := ⟨messages, hmessages, ⟨rest, hpayload.symm⟩, hlongest, rfl⟩ }
  · rw [← hcomplete]
    show (if rest = [] then Except.ok () else .error (truncated rest)) = .ok () ↔ _
    split_ifs with hrestEmpty
    · exact ⟨fun _ ↦ hrestEmpty, fun _ ↦ rfl⟩
    · refine ⟨fun haccepted ↦ ?_, fun h ↦ absurd h hrestEmpty⟩
      cases haccepted
  · by_cases hrestEmpty : rest = []
    · exact absurd (if_pos hrestEmpty) hthrown
    · have herror : (if rest = [] then Except.ok () else .error (truncated rest)) =
          (Except.error (truncated rest) : Except CppError Unit) := if_neg hrestEmpty
      exact (truncated_cases rest).imp (fun h ↦ herror.trans (congrArg _ h))
        fun h ↦ herror.trans (congrArg _ h)

/-- The parser of waiting messages accepts exactly the concatenations of complete records, when
`std::size_t` has 64 bits. Assumes: a private key that can be loaded. -/
theorem waiting_parser_exact (crypto : Crypto) (hheader : headerSize ≤ data.length)
    (hdata : data.length < 2 ^ 63) (before : ClientState)
    (hkey : crypto.loadsPrivateKey before.ctx.privateKey = true) :
    AcceptsRecords crypto data before
      ((responseWaitingMessagesAt 64 data.length data.length).exec crypto data before) :=
  acceptsRecords crypto (by decide) hheader hdata (sizesFit_sixtyFour hdata) before hkey

end Accepts

/-- A response that ends inside the content of its second record. -/
def cutResponse : Bytes :=
  (Server.responseFrame Server.responseWaitingMessages
    ([⟨1, List.replicate clientIdSize 7, requestSymmetricKey, []⟩,
      ⟨2, List.replicate clientIdSize 7, sendText, [72, 105]⟩].flatMap Server.recordBytes)).dropLast

/-- The first record of the response is handled, and its second one is refused. -/
theorem waiting_parser_cutResponse :
    AcceptsRecords .tagged cutResponse loadedClient
      ((responseWaitingMessagesAt 64 cutResponse.length cutResponse.length).exec .tagged cutResponse
        loadedClient) :=
  waiting_parser_exact .tagged (by decide) (by decide) loadedClient (Crypto.tagged_correct.loads 0)

/-! ### The loop with words of 32 bits -/

section Safety

variable (bits : ℕ) (crypto : Crypto) (data : Bytes) (before : ClientState)

/-- A round of the loop that a client runs goes on with another one. A round begins at what the
client is by then and at an offset. -/
def GoesOn : Reading ClientState × ℕ → Reading ClientState × ℕ → Prop :=
  NextRound (serveBuffer (ClientCall.exec crypto) data)
    (waitingRoundAt bits data.length before.ctx.privateKey)

/-- The loop comes to a round. -/
def Visits (now : Reading ClientState × ℕ) : Prop :=
  Relation.ReflTransGen (GoesOn bits crypto data before) (⟨before, []⟩, headerSize) now

/-- The checks of a round let a record through. -/
def LetsThrough (now : Reading ClientState × ℕ) (record : CheckedRecord) : Prop :=
  ((checkRecordAt bits data.length now.2).run (serveBuffer (ClientCall.exec crypto) data) now.1).2 =
    .ok (some record)

/-- What it means that the loop is safe as a client runs it. -/
structure LoopSafe : Prop where
  /-- The offset increases from record to record. -/
  increasing : ∀ now next, Visits bits crypto data before now →
    GoesOn bits crypto data before now next →
    now.2 < next.2
  /-- The loop stops. -/
  terminates : ∃ rounds,
    ((responseWaitingMessagesAt bits data.length rounds).exec crypto data before).2 ≠
      .error .outOfFuel
  /-- A content that is let through lies inside the buffer. -/
  inside : ∀ now record, Visits bits crypto data before now →
    LetsThrough bits crypto data now record → record.content + record.msgSize ≤ data.length

end Safety

section Loop

variable {bits offset : ℕ} {crypto : Crypto} {data : Bytes} {before : ClientState}
  {reading : Reading ClientState} {now next : Reading ClientState × ℕ} {record : CheckedRecord}

/-- `responseWaitingMessages` on a buffer with records begins its loop behind the header. Assumes: a
private key that can be loaded. -/
theorem exec_responseWaitingMessagesAt (bits : ℕ) (hsome : headerSize ≠ data.length)
    (hkey : crypto.loadsPrivateKey before.ctx.privateKey = true) (rounds : ℕ) :
    (responseWaitingMessagesAt bits data.length rounds).exec crypto data before =
      (waitingLoopAt bits data.length before.ctx.privateKey rounds headerSize).run
        (serveBuffer (ClientCall.exec crypto) data) ⟨before, []⟩ := by
  have hload : ClientCall.exec crypto before (.loadPrivateKey before.ctx.privateKey) =
      (before, .ok ()) := by
    rw [ClientCall.exec, hkey]
    rfl
  rw [responseWaitingMessagesAt, if_neg hsome, Parser.exec, run_bind]
  show run _ (withoutReads (ask (.loadPrivateKey before.ctx.privateKey)) >>= fun _ ↦ _) _ = _
  rw [run_bind]
  show run _ (proceed _ (ClientCall.exec crypto before (.loadPrivateKey before.ctx.privateKey)).2)
    (⟨(ClientCall.exec crypto before (.loadPrivateKey before.ctx.privateKey)).1, []⟩ :
      Reading ClientState) = _
  rw [hload]
  rfl

/-- Where the loop comes to, the run of `responseWaitingMessages` goes on. -/
theorem Visits.run (h : Visits bits crypto data before now) (hsome : headerSize ≠ data.length)
    (hkey : crypto.loadsPrivateKey before.ctx.privateKey = true) :
    ∃ count, ∀ rounds,
      (responseWaitingMessagesAt bits data.length (rounds + count)).exec crypto data before =
        (waitingLoopAt bits data.length before.ctx.privateKey rounds now.2).run
          (serveBuffer (ClientCall.exec crypto) data) now.1 := by
  obtain ⟨count, hcount⟩ := Comes.run_loop h .outOfFuel
  exact ⟨count, fun rounds ↦ (exec_responseWaitingMessagesAt bits hsome hkey _).trans
    (hcount rounds)⟩

/-- A record that the checks come to is there, and their sum for its end is not behind the
buffer. -/
theorem checkedRecord_eq_some_iff : checkedRecord bits data offset = .ok (some record) ↔
    offset + recordMin ≤ data.length ∧
      wordAdd bits (offset + recordMin) (sizeField data offset) ≤ data.length ∧
      record = ⟨.ofBytes clientIdSize (slice data offset clientIdSize),
        (data.getD (offset + clientIdSize + msgIdSize) 0).toNat, offset + recordMin,
        sizeField data offset⟩ := by
  rw [checkedRecord]
  split_ifs with hmore hheader hcontent
  · exact ⟨fun h ↦ (by cases h), fun h ↦ absurd h.1 (not_le.mpr hheader)⟩
  · exact ⟨fun h ↦ (by cases h), fun h ↦ absurd h.2.1 (not_le.mpr hcontent)⟩
  · refine ⟨fun h ↦ ?_, fun h ↦ by rw [h.2.2]⟩
    cases h
    exact ⟨not_lt.mp hheader, not_lt.mp hcontent, rfl⟩
  · refine ⟨fun h ↦ (by cases h), fun h ↦ absurd h.1 ?_⟩
    simp only [recordMin, clientIdSize, msgIdSize, typeSize, msgSize]
    omega

/-- The checks in a run. Assumes: a record header that does not end at `2 ^ bits` or behind. -/
theorem run_checkRecordAt (hfits : offset + recordMin < 2 ^ bits) (crypto : Crypto) (data : Bytes)
    (reading : Reading ClientState) : ∃ after,
      (checkRecordAt bits data.length offset).run
        (serveBuffer (ClientCall.exec crypto) data) reading =
        (after, checkedRecord bits data offset) := by
  have hchecked : Realizes data _ _ := realizes_checkRecord hfits
  obtain ⟨more, hrun, -⟩ := hchecked.run (ClientCall.exec crypto) reading.state reading.reads
  exact ⟨_, hrun⟩

theorem letsThrough_iff (hfits : now.2 + recordMin < 2 ^ bits) :
    LetsThrough bits crypto data now record ↔
      checkedRecord bits data now.2 = .ok (some record) := by
  obtain ⟨after, hrun⟩ := run_checkRecordAt hfits crypto data now.1
  rw [LetsThrough, hrun]

/-- A round that goes on has let a record through, and goes on behind it. -/
theorem GoesOn.letsThrough (h : GoesOn bits crypto data before now next) :
    ∃ record, LetsThrough bits crypto data now record ∧
      next.2 = wordAdd bits record.content record.msgSize := by
  rw [GoesOn, NextRound, waitingRoundAt, run_bind] at h
  simp only [LetsThrough]
  generalize (checkRecordAt bits data.length now.2).run (serveBuffer (ClientCall.exec crypto) data)
    now.1 = checked at h ⊢
  obtain ⟨middle, outcome⟩ := checked
  cases outcome with
  | error exception => cases h
  | ok found =>
    cases found with
    | none => cases h
    | some record =>
      refine ⟨record, rfl, ?_⟩
      rw [proceed_ok, handleCheckedRecord, run_bind] at h
      generalize (handleRecordAt bits record.fromId record.msgType record.content record.msgSize
        before.ctx.privateKey).run (serveBuffer (ClientCall.exec crypto) data) middle = handled at h
      obtain ⟨last, outcome⟩ := handled
      cases outcome with
      | error exception => cases h
      | ok value => exact (Sum.inl.inj (Except.ok.inj (congrArg Prod.snd h))).symm

/-- A round in which a record is let through and handled goes on behind it. -/
theorem GoesOn.of_letsThrough (hthrough : LetsThrough bits crypto data (reading, offset) record)
    (hhandled : ∀ middle, ∃ after, (handleRecordAt bits record.fromId record.msgType record.content
      record.msgSize before.ctx.privateKey).run (serveBuffer (ClientCall.exec crypto) data) middle =
        (after, .ok ())) :
    ∃ after, GoesOn bits crypto data before (reading, offset)
      (after, wordAdd bits record.content record.msgSize) := by
  obtain ⟨after, hrun⟩ := hhandled
    ((checkRecordAt bits data.length offset).run
      (serveBuffer (ClientCall.exec crypto) data) reading).1
  refine ⟨after, ?_⟩
  rw [LetsThrough] at hthrough
  rw [GoesOn, NextRound, waitingRoundAt, run_bind, hthrough, proceed_ok,
    handleCheckedRecord, run_bind,
    hrun]
  rfl

/-- A record inside the buffer is handled without an exception. -/
theorem run_handleRecordAt (hshort : record.msgSize < 2 ^ (bits - 1))
    (hinside : record.content + record.msgSize ≤ data.length) (crypto : Crypto) (rsaPriv : Bytes)
    (reading : Reading ClientState) : ∃ after,
      (handleRecordAt bits record.fromId record.msgType record.content record.msgSize rsaPriv).run
        (serveBuffer (ClientCall.exec crypto) data) reading = (after, .ok ()) := by
  obtain ⟨more, hrun, -⟩ := (realizes_handleRecord record.fromId record.msgType hshort hinside
    rsaPriv).run (ClientCall.exec crypto) reading.state reading.reads
  refine ⟨_, hrun.trans (congrArg (Prod.mk _) ?_)⟩
  exact congrArg Prod.snd (exec_handleRecord crypto reading.state record.fromId
    record.msgType _ rsaPriv)

/-- The loop goes on behind a record that lies inside the buffer. -/
theorem BehindRecords.goesOn (hoffset : BehindRecords data offset) (hbits : 32 ≤ bits)
    (hdata : data.length < 2 ^ (bits - 1))
    (hinside : offset + recordMin + sizeField data offset ≤ data.length) (crypto : Crypto)
    (before : ClientState) (reading : Reading ClientState) : ∃ after,
      GoesOn bits crypto data before (reading, offset)
        (after, offset + recordMin + sizeField data offset) := by
  obtain ⟨hpower, -⟩ := words_half hbits
  have hend : wordAdd bits (offset + recordMin) (sizeField data offset) =
      offset + recordMin + sizeField data offset :=
    wordAdd_eq (by omega)
  have hchecked : checkedRecord bits data offset = .ok (some _) :=
    checkedRecord_eq_some_iff.mpr ⟨by omega, by rwa [hend], rfl⟩
  have hthrough : LetsThrough bits crypto data (reading, offset) _ :=
    (letsThrough_iff (hoffset.header_fits hbits hdata)).mpr hchecked
  have hshort : sizeField data offset < 2 ^ (bits - 1) := by omega
  obtain ⟨after, hnext⟩ := GoesOn.of_letsThrough hthrough fun middle ↦
    run_handleRecordAt hshort hinside crypto before.ctx.privateKey middle
  rw [hend] at hnext
  exact ⟨after, hnext⟩

/-- The size field of a record that stands behind a known beginning. -/
theorem sizeField_behind {front rest : Bytes} {message : Server.WaitingMessage}
    (hmessage : Server.Encodable message) :
    sizeField (front ++ (Server.recordBytes message ++ rest)) front.length =
      message.content.length := by
  obtain ⟨-, -, -, hdeclared, -⟩ := Server.slice_recordBytes hmessage rest
  exact (congrArg fromLittleEndian (slice_behind 21 4)).trans hdeclared

/-- The loop comes to every offset behind complete records. The induction is on the records.
Assumes: a buffer of less than half of what words can count. -/
theorem visits_of_behindRecords (hbits : 32 ≤ bits) (hdata : data.length < 2 ^ (bits - 1))
    (crypto : Crypto) (before : ClientState) (hoffset : BehindRecords data offset) :
    ∃ reading, Visits bits crypto data before (reading, offset) := by
  obtain ⟨header, messages, rest, hheader, hmessages, hwhole, rfl⟩ := hoffset
  induction messages using List.reverseRecOn generalizing rest with
  | nil =>
    rw [List.flatMap_nil, List.append_nil, hheader]
    exact ⟨_, .refl⟩
  | append_singleton messages message ih =>
    rw [List.forall_mem_append, List.forall_mem_singleton] at hmessages
    obtain ⟨hearlier, hmessage⟩ := hmessages
    rw [List.flatMap_append, List.flatMap_singleton, List.append_assoc] at hwhole
    obtain ⟨reading, hvisits⟩ := ih (Server.recordBytes message ++ rest) hearlier hwhole
    let front := header ++ messages.flatMap Server.recordBytes
    have hfront : data = front ++ (Server.recordBytes message ++ rest) := by
      rw [hwhole, List.append_assoc]
    have hbehind : BehindRecords data front.length :=
      ⟨header, messages, Server.recordBytes message ++ rest, hheader, hearlier, hwhole, rfl⟩
    have hrecord : (front ++ Server.recordBytes message).length =
        front.length + recordMin + sizeField data front.length := by
      rw [hfront, sizeField_behind hmessage, List.length_append,
        Server.recordBytes_length hmessage.fromClient, Nat.add_assoc]
      rfl
    have hinside : front.length + recordMin + sizeField data front.length ≤ data.length := by
      rw [← hrecord, hfront, ← List.append_assoc]
      exact (List.prefix_append _ rest).length_le
    obtain ⟨after, hnext⟩ := hbehind.goesOn hbits hdata hinside crypto before reading
    refine ⟨after, ?_⟩
    rw [List.flatMap_append, List.flatMap_singleton, ← List.append_assoc, hrecord]
    exact hvisits.tail hnext

/-- A record that is let through behind complete records is complete when words hold the
contents. -/
theorem checkedRecord_inside (hfit : SizesFit bits data) (hoffset : BehindRecords data offset)
    (hchecked : checkedRecord bits data offset = .ok (some record)) :
    record.content + record.msgSize ≤ data.length ∧
      offset < wordAdd bits record.content record.msgSize ∧
      BehindRecords data (wordAdd bits record.content record.msgSize) := by
  obtain ⟨hheader, hcontent, rfl⟩ := checkedRecord_eq_some_iff.mp hchecked
  rw [wordAdd_eq (hfit offset hoffset hheader)] at hcontent ⊢
  refine ⟨hcontent, ?_, hoffset.next hcontent⟩
  simp only [recordMin, clientIdSize, msgIdSize, typeSize, msgSize]
  omega

/-- The loop comes to no other offset when its words hold the contents. -/
theorem behindRecords_of_visits (hbits : 32 ≤ bits) (hheader : headerSize ≤ data.length)
    (hdata : data.length < 2 ^ (bits - 1)) (hfit : SizesFit bits data)
    (h : Visits bits crypto data before now) : BehindRecords data now.2 := by
  induction h with
  | refl => exact behindRecords_header hheader
  | @tail middle next _ hnext ih =>
    obtain ⟨record, hthrough, hend⟩ := hnext.letsThrough
    rw [letsThrough_iff (ih.header_fits hbits hdata)] at hthrough
    rw [hend]
    exact (checkedRecord_inside hfit ih hthrough).2.2

/-- The loop is safe with words of 32 bits exactly if they hold the end of every content that is
declared behind complete records. Assumes: a buffer of at least the size of a header and less than
2 GiB, and a private key that can be loaded. -/
theorem loop_safe_iff (hheader : headerSize ≤ data.length) (hdata : data.length < 2 ^ 31)
    (crypto : Crypto) (before : ClientState)
    (hkey : crypto.loadsPrivateKey before.ctx.privateKey = true) :
    LoopSafe 32 crypto data before ↔ SizesFit 32 data := by
  constructor
  · intro h offset hoffset hrecord
    by_contra hwraps
    rw [not_lt] at hwraps
    have hdeclared := sizeField_lt data offset
    have hfits := hoffset.header_fits le_rfl hdata
    -- The sum in the check of the content wraps around to an offset in front of the content.
    have hsum : wordAdd 32 (offset + recordMin) (sizeField data offset) =
        offset + recordMin + sizeField data offset - 2 ^ 32 :=
      wordAdd_eq_sub hwraps (by omega)
    have hchecked := checkedRecord_eq_some_iff.mpr ⟨hrecord, by rw [hsum]; omega, rfl⟩
    obtain ⟨reading, hvisits⟩ := visits_of_behindRecords le_rfl hdata crypto before hoffset
    have hinside := h.inside _ _ hvisits ((letsThrough_iff hfits).mpr hchecked)
    dsimp only at hinside
    omega
  · intro hfit
    have hfits := fun {now} (hvisits : Visits 32 crypto data before now) ↦
      (behindRecords_of_visits le_rfl hheader hdata hfit hvisits).header_fits le_rfl hdata
    have hround := fun {now} (hvisits : Visits 32 crypto data before now) {record}
        (hthrough : LetsThrough 32 crypto data now record) ↦
      checkedRecord_inside hfit (behindRecords_of_visits le_rfl hheader hdata hfit hvisits)
        ((letsThrough_iff (hfits hvisits)).mp hthrough)
    refine
      { increasing := fun now next hvisits hnext ↦ ?_
        terminates := ⟨data.length, fun hfuel ↦ ?_⟩
        inside := fun now record hvisits hthrough ↦ (hround hvisits hthrough).1 }
    · obtain ⟨record, hthrough, hend⟩ := hnext.letsThrough
      rw [hend]
      exact (hround hvisits hthrough).2.1
    · have haccepts := acceptsRecords crypto le_rfl hheader hdata hfit before hkey
      rcases haccepts.rejected (by rw [hfuel]; simp) with herror | herror
      all_goals
        rw [hfuel] at herror
        cases herror

end Loop

/-- The loop is safe on a response that ends inside a record. -/
theorem loop_safe_cutResponse : LoopSafe 32 .tagged cutResponse loadedClient := by
  refine (loop_safe_iff (by decide) (by decide) .tagged loadedClient
    (Crypto.tagged_correct.loads 0)).mpr fun offset _ hrecord ↦ ?_
  have hsmall : ∀ offset < cutResponse.length,
      offset + recordMin + sizeField cutResponse offset < 2 ^ 32 := by decide +kernel
  refine hsmall offset ?_
  simp only [recordMin, clientIdSize, msgIdSize, typeSize, msgSize] at hrecord
  omega

/-- A request for a symmetric key with a size of 25 bytes less than words of 32 bits can count. -/
def wrappingResponse : Bytes :=
  frameHeader Server.responseWaitingMessages 25 ++ (List.replicate clientIdSize 7 ++
    (littleEndian msgIdSize 1 ++ ([1] ++ littleEndian msgSize (2 ^ 32 - 25))))

/-- The record is let through, and the loop goes on where it was. -/
theorem goesOn_wrappingResponse (crypto : Crypto) (before : ClientState)
    (reading : Reading ClientState) : ∃ after,
      GoesOn 32 crypto wrappingResponse before (reading, headerSize) (after, headerSize) := by
  have hfits : headerSize + recordMin < 2 ^ 32 := by decide
  have hend : wordAdd 32 (headerSize + recordMin) (sizeField wrappingResponse headerSize) =
      headerSize := by
    decide +kernel
  have htype : (wrappingResponse.getD (headerSize + clientIdSize + msgIdSize) 0).toNat =
      requestSymmetricKey := by
    decide +kernel
  have hheader : headerSize + recordMin ≤ wrappingResponse.length := by decide +kernel
  have hshort : headerSize ≤ wrappingResponse.length := by decide +kernel
  have hthrough : LetsThrough 32 crypto wrappingResponse (reading, headerSize) _ :=
    (letsThrough_iff hfits).mpr
      (checkedRecord_eq_some_iff.mpr ⟨hheader, hend.trans_le hshort, rfl⟩)
  rw [htype] at hthrough
  obtain ⟨after, hnext⟩ : ∃ after, GoesOn 32 crypto wrappingResponse before (reading, headerSize)
      (after, wordAdd 32 (headerSize + recordMin) (sizeField wrappingResponse headerSize)) :=
    GoesOn.of_letsThrough hthrough fun _ ↦ ⟨_, rfl⟩
  rw [hend] at hnext
  exact ⟨after, hnext⟩

/-- The loop is not safe on it, with a private key that can be loaded: the offset does not
increase. -/
theorem wrapping_size_unsafe :
    headerSize ≤ wrappingResponse.length ∧ wrappingResponse.length < 2 ^ 31 ∧
      Crypto.tagged.loadsPrivateKey loadedClient.ctx.privateKey = true ∧
        ¬LoopSafe 32 .tagged wrappingResponse loadedClient := by
  refine ⟨by decide +kernel, by decide +kernel, Crypto.tagged_correct.loads 0, fun hsafe ↦ ?_⟩
  obtain ⟨after, hnext⟩ := goesOn_wrappingResponse .tagged loadedClient ⟨loadedClient, []⟩
  have hincreases := hsafe.increasing _ _ .refl hnext
  exact lt_irrefl _ hincreases

/-- `responseWaitingMessages` does not stop on it. -/
theorem wrapping_size_endless (crypto : Crypto) (before : ClientState)
    (hkey : crypto.loadsPrivateKey before.ctx.privateKey = true) (rounds : ℕ) :
    ((responseWaitingMessagesAt 32 wrappingResponse.length rounds).exec crypto wrappingResponse
      before).2 = .error .outOfFuel := by
  have hgoesOn : ∀ now : Reading ClientState × ℕ, now.2 = headerSize →
      ∃ next, GoesOn 32 crypto wrappingResponse before now next ∧ next.2 = headerSize := by
    rintro ⟨reading, offset⟩ rfl
    obtain ⟨after, hnext⟩ := goesOn_wrappingResponse crypto before reading
    exact ⟨_, hnext, rfl⟩
  let start : Reading ClientState × ℕ := (⟨before, []⟩, headerSize)
  have hstart : start.2 = headerSize := rfl
  rw [exec_responseWaitingMessagesAt 32 (by decide +kernel) hkey]
  exact loop_exhausted hgoesOn .outOfFuel hstart rounds

end MessageU.Client
