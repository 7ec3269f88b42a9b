import MessageU.Library.LittleEndian

/-!
# Constants and layouts of the server's side of the protocol

The constants of `request_handler.py`, the exceptions its functions raise, the two Python
primitives that can raise while a response is built (`int.to_bytes` and `struct.pack`), and
`_build_response`. A number that does not fit its field raises instead of being cut, and
`buildResponse_eq_ok` and `buildResponse_eq_error` say when.

The second half is the layout of the `2104` payload. `WaitingMessage` is a row as
`get_waiting_messages` returns it and `recordBytes` the bytes that `waiting_messages_handler`
appends for it. `parseRecords` reads a payload back, and `parseRecords_flatMap` shows that the
concatenation of any encodable messages is read back as exactly those messages, so a payload
determines its records.
-/

set_option autoImplicit false
set_option relaxedAutoImplicit false

namespace MessageU.Server

open Library

/-! ### Constants -/

@[simp] abbrev serverVersion : ℕ := 2
@[simp] abbrev clientVersion : ℕ := 1
@[simp] abbrev headerSize : ℕ := 23
@[simp] abbrev codeOffset : ℕ := 17
@[simp] abbrev payloadSizeOffset : ℕ := 19
@[simp] abbrev versionOffset : ℕ := 16
@[simp] abbrev codeSize : ℕ := 2
@[simp] abbrev nameSize : ℕ := 255
@[simp] abbrev publicKeySize : ℕ := 160
@[simp] abbrev clientIdSize : ℕ := 16

@[simp] abbrev messageTypeSize : ℕ := 1
@[simp] abbrev contentSize : ℕ := 4
@[simp] abbrev messageId : ℕ := 4

@[simp] abbrev symmetricKeyRequest : ℕ := 1
@[simp] abbrev symmetricKeySend : ℕ := 2
@[simp] abbrev textMessage : ℕ := 3

@[simp] abbrev requestRegister : ℕ := 700
@[simp] abbrev requestClientsList : ℕ := 701
@[simp] abbrev requestPublicKey : ℕ := 702
@[simp] abbrev requestSendMessage : ℕ := 703
@[simp] abbrev requestWaitingMessages : ℕ := 704

@[simp] abbrev responseRegister : ℕ := 2100
@[simp] abbrev responseClientList : ℕ := 2101
@[simp] abbrev responsePublicKey : ℕ := 2102
@[simp] abbrev responseMessageSent : ℕ := 2103
@[simp] abbrev responseWaitingMessages : ℕ := 2104

@[simp] abbrev errorGeneral : ℕ := 9000

/-! ### Exceptions and the primitives that raise them -/

/-- The Python exceptions of the server. `integrityError` and `operationalError` are the two
subclasses of `sqlite3.Error` that the database raises. -/
inductive PyError
  | integrityError
  | operationalError
  | overflowError
  | structError
  | unicodeDecodeError
  | connectionError
  | socketError
  deriving DecidableEq, Repr

/-- `value.to_bytes(width, "little")`: `OverflowError` when the number does not fit. -/
def toBytes (value width : ℕ) : Except PyError Bytes :=
  if value < 256 ^ width then .ok (littleEndian width value) else .error .overflowError

/-- `int.from_bytes(data, "little")`. -/
def fromBytes (data : Bytes) : ℕ :=
  fromLittleEndian data

/-- `data[index]` for an index the caller has checked to be inside. -/
def byteAt (data : Bytes) (index : ℕ) : UInt8 :=
  data.getD index 0

/-- `struct.pack("<BHI", version, code, size)`: `struct.error` when a field does not fit. -/
def packHeader (version code size : ℕ) : Except PyError Bytes :=
  if version < 2 ^ 8 ∧ code < 2 ^ 16 ∧ size < 2 ^ 32 then
    .ok (littleEndian 1 version ++ littleEndian 2 code ++ littleEndian 4 size)
  else .error .structError

/-- `_build_response`: the header followed by the payload. -/
def buildResponse (code : ℕ) (payload : Bytes) : Except PyError Bytes := do
  let header ← packHeader serverVersion code payload.length
  return header ++ payload

/-- `build_error_response`. -/
def buildErrorResponse : Except PyError Bytes :=
  buildResponse errorGeneral []

/-- The bytes of a response with a code and a payload that fit their fields. -/
def responseFrame (code : ℕ) (payload : Bytes) : Bytes :=
  littleEndian 1 serverVersion ++ littleEndian 2 code ++ littleEndian 4 payload.length ++ payload

/-- The general error response. -/
def errorResponse : Bytes :=
  responseFrame errorGeneral []

/-- The response code of a response. -/
def responseCode (response : Bytes) : ℕ :=
  fromBytes (slice response 1 2)

/-- What follows the seven header bytes of a response. -/
def responsePayload (response : Bytes) : Bytes :=
  response.drop 7

/-- A byte is the field of size one at its index. -/
theorem byteAt_of_slice {data : Bytes} {index : ℕ} {byte : UInt8}
    (h : slice data index 1 = [byte]) : byteAt data index = byte := by
  have hhead : (data.drop index)[0]? = some byte := by
    rw [← List.getElem?_take_of_lt Nat.zero_lt_one]
    exact congrArg (·[0]?) h
  rw [List.getElem?_drop, Nat.add_zero] at hhead
  rw [byteAt, List.getD_eq_getElem?_getD, hhead, Option.getD_some]

/-- A payload that fits its length field is framed. -/
theorem buildResponse_eq_ok {code : ℕ} {payload : Bytes} (hcode : code < 2 ^ 16)
    (hsize : payload.length < 2 ^ 32) :
    buildResponse code payload = .ok (responseFrame code payload) := by
  have hfits : serverVersion < 2 ^ 8 ∧ code < 2 ^ 16 ∧ payload.length < 2 ^ 32 :=
    ⟨by simp, hcode, hsize⟩
  simp only [buildResponse, packHeader, if_pos hfits]
  rfl

/-- A payload too long for its length field raises `struct.error`. -/
theorem buildResponse_eq_error {code : ℕ} {payload : Bytes} (hsize : 2 ^ 32 ≤ payload.length) :
    buildResponse code payload = .error .structError := by
  have hfits : ¬(serverVersion < 2 ^ 8 ∧ code < 2 ^ 16 ∧ payload.length < 2 ^ 32) :=
    fun h ↦ absurd h.2.2 (not_lt.mpr hsize)
  simp only [buildResponse, packHeader, if_neg hfits]
  rfl

@[simp] theorem buildErrorResponse_eq : buildErrorResponse = .ok errorResponse :=
  buildResponse_eq_ok (by simp) (by simp)

@[simp] theorem responsePayload_responseFrame (code : ℕ) (payload : Bytes) :
    responsePayload (responseFrame code payload) = payload := by
  rw [responsePayload, responseFrame, List.drop_left' (by simp)]

theorem responseCode_responseFrame {code : ℕ} (hcode : code < 2 ^ 16) (payload : Bytes) :
    responseCode (responseFrame code payload) = code := by
  rw [responseCode, responseFrame, List.append_assoc, List.append_assoc,
    slice_append_append (by simp) (by simp), fromBytes, fromLittleEndian_littleEndian (by simpa)]

@[simp] theorem responseCode_errorResponse : responseCode errorResponse = errorGeneral :=
  responseCode_responseFrame (by simp) []

/-! ### Records of waiting messages -/

/-- A message as `get_waiting_messages` selects it and as a record of a `2104` payload carries
it. -/
structure WaitingMessage where
  id : ℕ
  fromClient : Bytes
  type : ℕ
  content : Bytes
  deriving DecidableEq, Repr

/-- The record of a message whose fields fit. -/
def recordBytes (message : WaitingMessage) : Bytes :=
  message.fromClient ++ (littleEndian messageId message.id ++
    (littleEndian messageTypeSize message.type ++
      (littleEndian contentSize message.content.length ++ message.content)))

/-- The fields of a message fit the fields of a record. -/
structure Encodable (message : WaitingMessage) : Prop where
  fromClient : message.fromClient.length = clientIdSize
  id : message.id < 2 ^ 32
  type : message.type < 2 ^ 8
  content : message.content.length < 2 ^ 32

/-- Size of a record without its content: sender, message number, type and content size. -/
@[simp] abbrev recordHeaderSize : ℕ := 25

/-- Read a concatenation of records; `none` when the data end inside a record. -/
def parseRecords (data : Bytes) : Option (List WaitingMessage) :=
  if data = [] then some []
  else if data.length < recordHeaderSize + fromBytes (slice data 21 4) then none
  else
    let size := fromBytes (slice data 21 4)
    let message : WaitingMessage :=
      { id := fromBytes (slice data 16 4)
        fromClient := slice data 0 16
        type := fromBytes (slice data 20 1)
        content := slice data recordHeaderSize size }
    (parseRecords (data.drop (recordHeaderSize + size))).map (message :: ·)
termination_by data.length
decreasing_by
  rename_i hne _
  have hpos : 0 < data.length := List.length_pos_iff.mpr hne
  simp only [List.length_drop, recordHeaderSize]
  omega

/-- The records a response carries. -/
def recordsIn (response : Bytes) : List WaitingMessage :=
  (parseRecords (responsePayload response)).getD []

theorem recordBytes_length {message : WaitingMessage}
    (hfrom : message.fromClient.length = clientIdSize) :
    (recordBytes message).length = recordHeaderSize + message.content.length := by
  simp only [recordBytes, List.length_append, littleEndian_length, hfrom]
  simp
  omega

/-- The fields of a record in front of any further data. -/
theorem slice_recordBytes {message : WaitingMessage} (h : Encodable message) (rest : Bytes) :
    slice (recordBytes message ++ rest) 0 16 = message.fromClient ∧
      fromBytes (slice (recordBytes message ++ rest) 16 4) = message.id ∧
      fromBytes (slice (recordBytes message ++ rest) 20 1) = message.type ∧
      fromBytes (slice (recordBytes message ++ rest) 21 4) = message.content.length ∧
      slice (recordBytes message ++ rest) 25 message.content.length = message.content := by
  have hfrom : message.fromClient.length = 16 := h.fromClient
  have hid : fromLittleEndian (littleEndian 4 message.id) = message.id :=
    fromLittleEndian_littleEndian (by simpa using h.id)
  have htype : fromLittleEndian (littleEndian 1 message.type) = message.type :=
    fromLittleEndian_littleEndian (by simpa using h.type)
  have hsize : fromLittleEndian (littleEndian 4 message.content.length) =
      message.content.length := fromLittleEndian_littleEndian (by simpa using h.content)
  simp only [recordBytes, messageId, messageTypeSize, contentSize, fromBytes]
  refine ⟨?_, ?_, ?_, ?_, ?_⟩
  · rw [List.append_assoc, slice, List.drop_zero, List.take_left' hfrom]
  · rw [List.append_assoc, List.append_assoc, slice_append_append hfrom (by simp), hid]
  · rw [← List.append_assoc message.fromClient, List.append_assoc _ _ rest,
      List.append_assoc _ _ rest,
      slice_append_append (by simp [hfrom]) (by simp), htype]
  · rw [← List.append_assoc message.fromClient, ← List.append_assoc _ (littleEndian 1 _),
      List.append_assoc _ _ rest, List.append_assoc _ _ rest,
      slice_append_append (by simp [hfrom]) (by simp), hsize]
  · rw [← List.append_assoc message.fromClient, ← List.append_assoc _ (littleEndian 1 _),
      ← List.append_assoc _ (littleEndian 4 message.content.length), List.append_assoc _ _ rest,
      slice_append_append (by simp [hfrom]) rfl]

/-- Data that do not begin with a whole record. -/
def Incomplete (data : Bytes) : Prop :=
  data.length < recordHeaderSize + fromBytes (slice data 21 4)

/-- Data that have the size which their record declares begin with a record. -/
theorem exists_record {data : Bytes} (h : ¬Incomplete data) :
    ∃ message rest, Encodable message ∧ message.content.length = fromBytes (slice data 21 4) ∧
      data = recordBytes message ++ rest := by
  rw [Incomplete, not_lt, recordHeaderSize] at h
  let size := fromBytes (slice data 21 4)
  have hlength : ∀ offset width, offset + width ≤ 25 + size →
      (slice data offset width).length = width :=
    fun offset width hfits ↦ slice_length (hfits.trans h)
  have hfrom := hlength 0 16 (by omega)
  have hid := hlength 16 4 (by omega)
  have htype := hlength 20 1 (by omega)
  have hsize := hlength 21 4 (by omega)
  have hcontent := hlength 25 size le_rfl
  have hbound : ∀ {field : Bytes} {width : ℕ}, field.length = width →
      fromBytes field < 256 ^ width :=
    fun hfield ↦ hfield ▸ fromLittleEndian_lt _
  have hfield : ∀ {field : Bytes} {width : ℕ}, field.length = width →
      littleEndian width (fromBytes field) = field := fun hfield ↦
    hfield ▸ littleEndian_fromLittleEndian _
  let message : WaitingMessage :=
    { id := fromBytes (slice data 16 4)
      fromClient := slice data 0 16
      type := fromBytes (slice data 20 1)
      content := slice data 25 size }
  refine ⟨message, data.drop (25 + size), ⟨hfrom, ?_, ?_, ?_⟩, hcontent, ?_⟩
  · exact hbound hid
  · exact hbound htype
  · rw [hcontent]
    exact hbound hsize
  · have hrecord : recordBytes message = slice data 0 16 ++ (slice data 16 4 ++
        (slice data 20 1 ++ (slice data 21 4 ++ slice data 25 size))) := by
      rw [recordBytes, hcontent, hfield hid, hfield htype, hfield hsize]
    rw [hrecord]
    simp only [List.append_assoc]
    rw [slice_append_drop, slice_append_drop data 21 4, slice_append_drop data 20 1,
      slice_append_drop data 16 4, slice_append_drop data 0 16, List.drop_zero]

/-- Data are complete records and what stands behind them. -/
theorem exists_records (data : Bytes) :
    ∃ (messages : List WaitingMessage) (rest : Bytes), (∀ message ∈ messages, Encodable message) ∧
      data = messages.flatMap recordBytes ++ rest ∧ Incomplete rest := by
  by_cases h : Incomplete data
  · exact ⟨[], data, fun _ hmem ↦ absurd hmem List.not_mem_nil, rfl, h⟩
  · obtain ⟨message, behind, hmessage, -, rfl⟩ := exists_record h
    have hshorter : behind.length < (recordBytes message ++ behind).length := by
      rw [List.length_append, recordBytes_length hmessage.fromClient]
      simp only [recordHeaderSize]
      omega
    obtain ⟨messages, rest, hmessages, hbehind, hrest⟩ := exists_records behind
    refine ⟨message :: messages, rest, List.forall_mem_cons.mpr ⟨hmessage, hmessages⟩, ?_, hrest⟩
    rw [List.flatMap_cons, List.append_assoc, ← hbehind]
termination_by data.length

/-- What begins with a record is complete. -/
theorem not_incomplete_append {message : WaitingMessage} (h : Encodable message) (rest : Bytes) :
    ¬Incomplete (recordBytes message ++ rest) := by
  obtain ⟨-, -, -, hsize, -⟩ := slice_recordBytes h rest
  rw [Incomplete, hsize, List.length_append, recordBytes_length h.fromClient]
  omega

/-- Two records in front of further data are the same. -/
theorem recordBytes_append_inj {first second : WaitingMessage} (hfirst : Encodable first)
    (hsecond : Encodable second) {rest other : Bytes}
    (h : recordBytes first ++ rest = recordBytes second ++ other) :
    first = second ∧ rest = other := by
  have hsame : first = second := by
    obtain ⟨hfrom, hid, htype, hsize, hcontent⟩ := slice_recordBytes hfirst rest
    obtain ⟨hfrom', hid', htype', hsize', hcontent'⟩ := slice_recordBytes hsecond other
    rw [h] at hfrom hid htype hsize hcontent
    have hlength : first.content.length = second.content.length := hsize.symm.trans hsize'
    rw [hlength] at hcontent
    cases first
    cases second
    simp only [WaitingMessage.mk.injEq]
    exact ⟨hid.symm.trans hid', hfrom.symm.trans hfrom', htype.symm.trans htype',
      hcontent.symm.trans hcontent'⟩
  refine ⟨hsame, ?_⟩
  rw [hsame] at h
  exact List.append_cancel_left h

/-- The complete records of data are the longest sequence of records that the data begin with. -/
theorem records_prefix {messages others : List WaitingMessage}
    (hmessages : ∀ message ∈ messages, Encodable message)
    (hothers : ∀ message ∈ others, Encodable message) {rest tail : Bytes} (hrest : Incomplete rest)
    (h : messages.flatMap recordBytes ++ rest = others.flatMap recordBytes ++ tail) :
    others <+: messages := by
  induction others generalizing messages with
  | nil => exact List.nil_prefix
  | cons message others ih =>
    rw [List.flatMap_cons, List.append_assoc] at h
    obtain ⟨hmessage, hrestOthers⟩ := List.forall_mem_cons.mp hothers
    cases messages with
    | nil =>
      rw [List.flatMap_nil, List.nil_append] at h
      rw [h] at hrest
      exact absurd hrest (not_incomplete_append hmessage _)
    | cons first messages =>
      rw [List.flatMap_cons, List.append_assoc] at h
      obtain ⟨hfirst, hrestMessages⟩ := List.forall_mem_cons.mp hmessages
      obtain ⟨rfl, htail⟩ := recordBytes_append_inj hfirst hmessage h
      exact List.cons_prefix_cons.mpr ⟨rfl, ih hrestMessages hrestOthers htail⟩

/-- A record in front of further data is read as its message, and reading goes on behind it. -/
theorem parseRecords_recordBytes_append {message : WaitingMessage} (h : Encodable message)
    (rest : Bytes) :
    parseRecords (recordBytes message ++ rest) = (parseRecords rest).map (message :: ·) := by
  obtain ⟨hfrom, hid, htype, hsize, hcontent⟩ := slice_recordBytes h rest
  have hlength := recordBytes_length h.fromClient
  have hne : recordBytes message ++ rest ≠ [] := by
    intro hempty
    rw [List.append_eq_nil_iff] at hempty
    rw [hempty.1] at hlength
    simp at hlength
    omega
  have henough : ¬(recordBytes message ++ rest).length <
      recordHeaderSize + message.content.length := by
    rw [List.length_append, hlength]
    omega
  rw [parseRecords, if_neg hne, hsize, if_neg henough]
  simp only [hfrom, hid, htype, recordHeaderSize, hcontent]
  rw [List.drop_left' (by rw [hlength, recordHeaderSize])]

/-- The concatenation of the records of encodable messages is read back as those messages. -/
theorem parseRecords_flatMap {messages : List WaitingMessage}
    (h : ∀ message ∈ messages, Encodable message) :
    parseRecords (messages.flatMap recordBytes) = some messages := by
  induction messages with
  | nil => rw [List.flatMap_nil, parseRecords, if_pos rfl]
  | cons message rest ih =>
    have hrest : ∀ other ∈ rest, Encodable other :=
      fun other hother ↦ h other (List.mem_cons_of_mem _ hother)
    rw [List.flatMap_cons, parseRecords_recordBytes_append (h message List.mem_cons_self),
      ih hrest, Option.map_some]

/-- The records carried by a framed concatenation of records. -/
theorem recordsIn_responseFrame {messages : List WaitingMessage}
    (h : ∀ message ∈ messages, Encodable message) (code : ℕ) :
    recordsIn (responseFrame code (messages.flatMap recordBytes)) = messages := by
  rw [recordsIn, responsePayload_responseFrame, parseRecords_flatMap h, Option.getD_some]

end MessageU.Server
