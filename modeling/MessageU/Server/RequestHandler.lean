import MessageU.Server.Database

/-!
# The request handlers

`request_handler.py`. Each handler is a program over the `Database` methods that ends in the bytes
of a response or in an exception, and `requestHandlerMain` is the dispatcher with its catch-all:
whatever a handler or a method raises becomes the general error response. What a handler reads
from outside the database, the generated client ID and the time, is its `Ambient`.

The loop of `waiting_messages_handler` is `encodeRecords`. It raises `OverflowError` at the first
number that does not fit its field, and otherwise its payload is the concatenation of the records
(`encodeRecords_eq_ok`, `encodeRecords_eq_error`).
-/

set_option autoImplicit false
set_option relaxedAutoImplicit false

namespace MessageU.Server

open Library Interaction

/-- A handler: a program over the `Database` methods that ends in a response. -/
abbrev Handler := Interaction Db PyError Bytes

/-- What one request reads from outside the database: `secrets.token_bytes(CLIENT_ID_SIZE)` and
`datetime.utcnow().isoformat()`. -/
structure Ambient where
  token : Bytes
  now : Timestamp
  token_length : token.length = clientIdSize

/-- A call of a method of the `db` argument. -/
def db (call : DbCall) : Interaction Db PyError call.Result :=
  .request call .finished

@[simp] theorem db_eq (call : DbCall) : db call = .request call .finished :=
  rfl

/-- End in `build_error_response()`. -/
def respondError : Handler :=
  .finished buildErrorResponse

/-- End in `_build_response(code, payload)`. -/
def respond (code : ℕ) (payload : Bytes) : Handler :=
  .finished (buildResponse code payload)

/-! ### Fields of a request -/

/-- The payload size declared by a header. -/
def payloadSizeOf (data : Bytes) : ℕ :=
  fromBytes (slice data payloadSizeOffset contentSize)

/-- The version a header declares. -/
def versionOf (data : Bytes) : ℕ :=
  (byteAt data versionOffset).toNat

/-- The request code of a header. -/
def codeOf (data : Bytes) : ℕ :=
  fromBytes (slice data codeOffset codeSize)

/-- `data[:CLIENT_ID_SIZE]`. -/
def requesterIdOf (data : Bytes) : Bytes :=
  data.take clientIdSize

/-- The client ID at the start of a payload, of a public key request or a message to send. -/
def requestedIdOf (data : Bytes) : Bytes :=
  slice data headerSize clientIdSize

/-- `raw_name.split(b'\x00', 1)[0]` of the name field of a registration. -/
def rawNameOf (data : Bytes) : Bytes :=
  (slice data headerSize nameSize).takeWhile (· ≠ 0)

/-- The key field of a registration. -/
def publicKeyOf (data : Bytes) : Bytes :=
  slice data (headerSize + nameSize) publicKeySize

/-- The type byte of a message to send. -/
def messageTypeOf (data : Bytes) : ℕ :=
  (byteAt data (headerSize + clientIdSize)).toNat

/-- The content size that a message to send declares. -/
def contentSizeOf (data : Bytes) : ℕ :=
  fromBytes (slice data (headerSize + clientIdSize + messageTypeSize) contentSize)

/-- Size of a `703` request without its content. -/
@[simp] abbrev minLen : ℕ :=
  headerSize + clientIdSize + messageTypeSize + contentSize

/-- The content of a message to send. -/
def contentOf (data : Bytes) : Bytes :=
  slice data minLen (contentSizeOf data)

/-! ### The handlers -/

/-- `raw_name.decode("ascii")`. -/
def decodeAscii (raw : Bytes) : Except PyError Bytes :=
  if raw.all (· < 128) then .ok raw else .error .unicodeDecodeError

/-- `username.encode("ascii", errors="replace")`. -/
def encodeAscii (name : Bytes) : Bytes :=
  name.map fun code ↦ if code < 128 then code else 63

/-- `register_handler`. -/
def registerHandler (data : Bytes) (ambient : Ambient) : Handler :=
  if data.length ≠ headerSize + nameSize + publicKeySize then respondError
  else
    match decodeAscii (rawNameOf data) with
    | .error _ => respondError
    | .ok name =>
      if name = [] then respondError
      else
        (db (.addClient ambient.token name (publicKeyOf data) ambient.now)).attempt fun
          | .ok _ => respond responseRegister ambient.token
          | .error .integrityError => respondError
          | .error _ => respondError

/-- The name field of an entry of the client list: cut to `NAME_SIZE - 1` and filled up with
zeros. -/
def nameField (userName : Bytes) : Bytes :=
  let nameBytes := (encodeAscii userName).take (nameSize - 1)
  nameBytes ++ List.replicate (nameSize - nameBytes.length) 0

/-- `clients_list_handler`. -/
def clientsListHandler (data : Bytes) : Handler :=
  if data.length ≠ headerSize then respondError
  else do
    let clients ← db (.listClientsExcept (requesterIdOf data))
    respond responseClientList
      (clients.foldl (fun payload client ↦ payload ++ client.1 ++ nameField client.2) [])

/-- `public_key_handler`. -/
def publicKeyHandler (data : Bytes) : Handler :=
  if data.length ≠ headerSize + clientIdSize then respondError
  else do
    let requestedId := requestedIdOf data
    match ← db (.getPublicKeyById requestedId) with
    | none => respondError
    | some publicKey =>
      if publicKey.length ≠ publicKeySize then respondError
      else respond responsePublicKey (requestedId ++ publicKey)

/-- The payload with the record of one message appended. -/
def appendRecord (payload : Bytes) (message : WaitingMessage) : Except PyError Bytes := do
  let payload := payload ++ message.fromClient
  let payload := payload ++ (← toBytes message.id messageId)
  let payload := payload ++ (← toBytes message.type messageTypeSize)
  let payload := payload ++ (← toBytes message.content.length contentSize)
  return payload ++ message.content

/-- One round of the loop: the record is appended and the ID is collected. -/
def collectRecord (collected : Bytes × List ℕ) (message : WaitingMessage) :
    Except PyError (Bytes × List ℕ) := do
  let payload ← appendRecord collected.1 message
  return (payload, collected.2 ++ [message.id])

/-- The loop of `waiting_messages_handler`: the payload and the IDs. -/
def encodeRecords (messages : List WaitingMessage) : Except PyError (Bytes × List ℕ) :=
  messages.foldlM collectRecord ([], [])

/-- `waiting_messages_handler`. -/
def waitingMessagesHandler (data : Bytes) : Handler :=
  if data.length ≠ headerSize then respondError
  else do
    let messages ← db (.getWaitingMessages (requesterIdOf data))
    let (payload, ids) ← finished (encodeRecords messages)
    db (.deleteMessages ids)
    respond responseWaitingMessages payload

/-- `send_message_handler`. -/
def sendMessageHandler (data : Bytes) : Handler :=
  if data.length < minLen then respondError
  else do
    let requesterId := requesterIdOf data
    let requestedId := requestedIdOf data
    if (← db (.clientExists requestedId)).isNone then respondError
    else
      let msgType := messageTypeOf data
      if msgType ∉ [symmetricKeyRequest, symmetricKeySend, textMessage] then respondError
      else if data.length ≠ minLen + contentSizeOf data then respondError
      else if msgType = symmetricKeyRequest ∧ contentSizeOf data ≠ 0 then respondError
      else do
        let msgId ← db (.addMessage requestedId requesterId msgType (contentOf data))
        let idBytes ← finished (toBytes msgId messageId)
        respond responseMessageSent (requestedId ++ idBytes)

/-- The chain of request codes behind the checks of the requester. -/
def route (data : Bytes) : Handler :=
  if codeOf data = requestClientsList then clientsListHandler data
  else if codeOf data = requestPublicKey then publicKeyHandler data
  else if codeOf data = requestWaitingMessages then waitingMessagesHandler data
  else if codeOf data = requestSendMessage then sendMessageHandler data
  else respondError

/-- The `try` block of `request_handler_main`. -/
def dispatch (data : Bytes) (ambient : Ambient) : Handler :=
  if codeOf data = requestRegister then registerHandler data ambient
  else do
    let requesterId := requesterIdOf data
    if (← db (.clientExists requesterId)).isNone then respondError
    else do
      db (.updateClientLastSeen requesterId ambient.now)
      route data

/-- `request_handler_main`. -/
def requestHandlerMain (data : Bytes) (ambient : Ambient) : Handler :=
  if data.length < headerSize then respondError
  else if data.length ≠ headerSize + payloadSizeOf data then respondError
  else if versionOf data ≠ clientVersion then respondError
  else (dispatch data ambient).rescue fun _ ↦ respondError

/-! ### The loop over the waiting messages -/

/-- The numbers of a message fit the fields of its record. -/
def RecordFits (message : WaitingMessage) : Prop :=
  message.id < 2 ^ 32 ∧ message.type < 2 ^ 8 ∧ message.content.length < 2 ^ 32

instance (message : WaitingMessage) : Decidable (RecordFits message) :=
  inferInstanceAs (Decidable (_ ∧ _ ∧ _))

/-- A number raises in its field exactly when it does not fit. -/
theorem toBytes_eq (value width : ℕ) :
    toBytes value width =
      if value < 256 ^ width then .ok (littleEndian width value) else .error .overflowError :=
  rfl

/-- A message whose numbers fit has its record appended. -/
theorem appendRecord_eq_ok (payload : Bytes) {message : WaitingMessage}
    (hfits : RecordFits message) :
    appendRecord payload message = .ok (payload ++ recordBytes message) := by
  obtain ⟨hid, htype, hsize⟩ := hfits
  have hid' : message.id < 256 ^ messageId := hid
  have htype' : message.type < 256 ^ messageTypeSize := htype
  have hsize' : message.content.length < 256 ^ contentSize := hsize
  simp only [appendRecord, toBytes_eq, if_pos hid', if_pos htype', if_pos hsize', recordBytes,
    ← List.append_assoc]
  rfl

/-- A message with a number that does not fit raises. -/
theorem appendRecord_eq_error (payload : Bytes) {message : WaitingMessage}
    (hfits : ¬RecordFits message) :
    appendRecord payload message = .error .overflowError := by
  by_cases hid : message.id < 256 ^ messageId
  · by_cases htype : message.type < 256 ^ messageTypeSize
    · by_cases hsize : message.content.length < 256 ^ contentSize
      · exact absurd ⟨hid, htype, hsize⟩ hfits
      · simp only [appendRecord, toBytes_eq, if_pos hid, if_pos htype, if_neg hsize]
        rfl
    · simp only [appendRecord, toBytes_eq, if_pos hid, if_neg htype]
      rfl
  · simp only [appendRecord, toBytes_eq, if_neg hid]
    rfl

/-- The loop from any payload and IDs collected so far. -/
theorem foldlM_collectRecord (messages : List WaitingMessage) (payload : Bytes) (ids : List ℕ) :
    messages.foldlM collectRecord (payload, ids) =
      if ∀ message ∈ messages, RecordFits message then
        Except.ok (payload ++ messages.flatMap recordBytes, ids ++ messages.map WaitingMessage.id)
      else .error PyError.overflowError := by
  induction messages generalizing payload ids with
  | nil => simp [pure, Except.pure]
  | cons message rest ih =>
    rw [List.foldlM_cons, collectRecord]
    by_cases hfits : RecordFits message
    · rw [appendRecord_eq_ok payload hfits]
      refine (ih (payload ++ recordBytes message) (ids ++ [message.id])).trans ?_
      simp [hfits]
    · rw [appendRecord_eq_error payload hfits,
        if_neg fun h ↦ hfits (h message List.mem_cons_self)]
      rfl

/-- When all numbers fit, the payload is the concatenation of the records. -/
theorem encodeRecords_eq_ok {messages : List WaitingMessage}
    (hfits : ∀ message ∈ messages, RecordFits message) :
    encodeRecords messages =
      .ok (messages.flatMap recordBytes, messages.map WaitingMessage.id) := by
  refine (foldlM_collectRecord messages [] []).trans ?_
  rw [if_pos hfits, List.nil_append, List.nil_append]

/-- A number that does not fit raises `OverflowError`. -/
theorem encodeRecords_eq_error {messages : List WaitingMessage}
    (hfits : ¬∀ message ∈ messages, RecordFits message) :
    encodeRecords messages = .error .overflowError := by
  refine (foldlM_collectRecord messages [] []).trans ?_
  rw [if_neg hfits]

end MessageU.Server
