import MessageU.Server.RequestHandler

/-!
# The stages of a request

Between two calls of `Database` methods a handler only computes. `Stage` lists the calls a request
can be about to make, `Stage.call` is that call, and `Stage.resume` is what follows from its
outcome: either the response or the next stage. `Stage.rest` is the remaining code of
`request_handler_main` at a stage, and `Stage.rest_eq` says that it makes that call and goes on as
`Stage.resume` says. With `requestHandlerMain_eq`, which does the same for the code before the
first call, these two equations are all that the rest of the development knows about the handlers'
control flow.

Every outcome is a response: an exception of a call, or of the code behind it, ends in the general
error response.
-/

set_option autoImplicit false
set_option relaxedAutoImplicit false

namespace MessageU.Server

open Library Interaction

/-- The method calls a request can be about to make. -/
inductive Stage
  /-- `client_exists(requester_id)` in the dispatcher. -/
  | findRequester
  /-- `update_client_last_seen`. -/
  | touchRequester
  /-- `add_client`. -/
  | register
  /-- `list_clients_except`. -/
  | listClients
  /-- `get_public_key_by_id`. -/
  | fetchKey
  /-- `get_waiting_messages`. -/
  | fetchMessages
  /-- `delete_messages` for the messages that were selected. -/
  | removeMessages (messages : List WaitingMessage)
  /-- `client_exists(requested_id)` of a message to send. -/
  | findTarget
  /-- `add_message`. -/
  | storeMessage
  deriving DecidableEq, Repr

/-- How a request goes on: it is answered, or it makes another call. -/
inductive Progress
  | answer (response : Bytes)
  | next (stage : Stage)
  deriving DecidableEq, Repr

/-- The response for what a handler returned or raised. -/
def caught : Except PyError Bytes → Bytes
  | .ok response => response
  | .error _ => errorResponse

/-- The payload of the client list response. -/
def clientListPayload (clients : List (Bytes × Bytes)) : Bytes :=
  clients.flatMap fun client ↦ client.1 ++ nameField client.2

/-- The response to a stored message. -/
def sentResponse (requestedId : Bytes) (msgId : ℕ) : Bytes :=
  caught do
    let idBytes ← toBytes msgId messageId
    buildResponse responseMessageSent (requestedId ++ idBytes)

/-- A registration that `register_handler` accepts as far as it goes without the database. -/
structure ValidRegistration (data : Bytes) : Prop where
  size : data.length = headerSize + nameSize + publicKeySize
  ascii : (rawNameOf data).all (· < 128) = true
  nonempty : rawNameOf data ≠ []

instance (data : Bytes) : Decidable (ValidRegistration data) :=
  decidable_of_iff (data.length = headerSize + nameSize + publicKeySize ∧
      (rawNameOf data).all (· < 128) = true ∧ rawNameOf data ≠ [])
    ⟨fun h ↦ ⟨h.1, h.2.1, h.2.2⟩, fun h ↦ ⟨h.size, h.ascii, h.nonempty⟩⟩

/-- The checks of a message to send behind the lookup of its target. -/
structure ValidMessage (data : Bytes) : Prop where
  type : messageTypeOf data ∈ [symmetricKeyRequest, symmetricKeySend, textMessage]
  size : data.length = minLen + contentSizeOf data
  request_empty : messageTypeOf data = symmetricKeyRequest → contentSizeOf data = 0

instance (data : Bytes) : Decidable (ValidMessage data) :=
  decidable_of_iff (messageTypeOf data ∈ [symmetricKeyRequest, symmetricKeySend, textMessage] ∧
      data.length = minLen + contentSizeOf data ∧
      (messageTypeOf data = symmetricKeyRequest → contentSizeOf data = 0))
    ⟨fun h ↦ ⟨h.1, h.2.1, h.2.2⟩, fun h ↦ ⟨h.type, h.size, h.request_empty⟩⟩

/-- A header that the dispatcher accepts. -/
structure ValidHeader (data : Bytes) : Prop where
  header : headerSize ≤ data.length
  size : data.length = headerSize + payloadSizeOf data
  version : versionOf data = clientVersion

instance (data : Bytes) : Decidable (ValidHeader data) :=
  decidable_of_iff (headerSize ≤ data.length ∧ data.length = headerSize + payloadSizeOf data ∧
      versionOf data = clientVersion)
    ⟨fun h ↦ ⟨h.1, h.2.1, h.2.2⟩, fun h ↦ ⟨h.header, h.size, h.version⟩⟩

/-! ### The calls and what follows from them -/

/-- The method call a stage makes. -/
def Stage.call (data : Bytes) (ambient : Ambient) : Stage → DbCall
  | .findRequester => .clientExists (requesterIdOf data)
  | .touchRequester => .updateClientLastSeen (requesterIdOf data) ambient.now
  | .register => .addClient ambient.token (rawNameOf data) (publicKeyOf data) ambient.now
  | .listClients => .listClientsExcept (requesterIdOf data)
  | .fetchKey => .getPublicKeyById (requestedIdOf data)
  | .fetchMessages => .getWaitingMessages (requesterIdOf data)
  | .removeMessages messages => .deleteMessages (messages.map WaitingMessage.id)
  | .findTarget => .clientExists (requestedIdOf data)
  | .storeMessage =>
    .addMessage (requestedIdOf data) (requesterIdOf data) (messageTypeOf data) (contentOf data)

/-- Where a request of an existing requester goes. -/
def routed (data : Bytes) : Progress :=
  if codeOf data = requestClientsList then
    if data.length = headerSize then .next .listClients else .answer errorResponse
  else if codeOf data = requestPublicKey then
    if data.length = headerSize + clientIdSize then .next .fetchKey else .answer errorResponse
  else if codeOf data = requestWaitingMessages then
    if data.length = headerSize then .next .fetchMessages else .answer errorResponse
  else if codeOf data = requestSendMessage then
    if minLen ≤ data.length then .next .findTarget else .answer errorResponse
  else .answer errorResponse

/-- What follows from the selected messages: the loop over them raises or they are deleted. -/
def selected (messages : List WaitingMessage) : Progress :=
  if ∀ message ∈ messages, RecordFits message then .next (.removeMessages messages)
  else .answer errorResponse

/-- How a request goes on from the outcome of the call it makes at a stage. -/
def Stage.resume (data : Bytes) (ambient : Ambient) :
    (stage : Stage) → Except PyError (stage.call data ambient).Result → Progress
  | .findRequester, .ok none => .answer errorResponse
  | .findRequester, .ok (some _) => .next .touchRequester
  | .touchRequester, .ok _ => routed data
  | .register, .ok _ => .answer (responseFrame responseRegister ambient.token)
  | .listClients, .ok clients =>
    .answer (caught (buildResponse responseClientList (clientListPayload clients)))
  | .fetchKey, .ok none => .answer errorResponse
  | .fetchKey, .ok (some publicKey) =>
    if publicKey.length = publicKeySize then
      .answer (caught (buildResponse responsePublicKey (requestedIdOf data ++ publicKey)))
    else .answer errorResponse
  | .fetchMessages, .ok messages => selected messages
  | .removeMessages messages, .ok _ =>
    .answer (caught (buildResponse responseWaitingMessages (messages.flatMap recordBytes)))
  | .findTarget, .ok none => .answer errorResponse
  | .findTarget, .ok (some _) =>
    if ValidMessage data then .next .storeMessage else .answer errorResponse
  | .storeMessage, .ok msgId => .answer (sentResponse (requestedIdOf data) msgId)
  | .findRequester, .error _ | .touchRequester, .error _ | .register, .error _
  | .listClients, .error _ | .fetchKey, .error _ | .fetchMessages, .error _
  | .removeMessages _, .error _ | .findTarget, .error _ | .storeMessage, .error _ =>
    .answer errorResponse

/-- How a request begins, before any call. -/
def start (data : Bytes) : Progress :=
  if ValidHeader data then
    if codeOf data = requestRegister then
      if ValidRegistration data then .next .register else .answer errorResponse
    else .next .findRequester
  else .answer errorResponse

/-- A request that is answered at once is refused. -/
theorem start_answer {data response : Bytes} (h : start data = .answer response) :
    response = errorResponse := by
  unfold start at h
  split_ifs at h <;> cases h <;> rfl

/-- A request that is answered by the dispatcher is refused. -/
theorem routed_answer {data response : Bytes} (h : routed data = .answer response) :
    response = errorResponse := by
  unfold routed at h
  split_ifs at h <;> cases h <;> rfl

/-! ### The code behind a stage -/

/-- Code inside the `try` block of `request_handler_main`. -/
def guarded (program : Handler) : Handler :=
  program.rescue fun _ ↦ respondError

/-- The remaining code of `request_handler_main` when it is about to make the call of a stage. -/
def Stage.rest (data : Bytes) (ambient : Ambient) : Stage → Handler
  | .findRequester => guarded do
    if (← db (.clientExists (requesterIdOf data))).isNone then respondError
    else do
      db (.updateClientLastSeen (requesterIdOf data) ambient.now)
      route data
  | .touchRequester => guarded do
    db (.updateClientLastSeen (requesterIdOf data) ambient.now)
    route data
  | .register => guarded <|
    (db (.addClient ambient.token (rawNameOf data) (publicKeyOf data) ambient.now)).attempt fun
      | .ok _ => respond responseRegister ambient.token
      | .error .integrityError => respondError
      | .error _ => respondError
  | .listClients => guarded do
    let clients ← db (.listClientsExcept (requesterIdOf data))
    respond responseClientList
      (clients.foldl (fun payload client ↦ payload ++ client.1 ++ nameField client.2) [])
  | .fetchKey => guarded do
    match ← db (.getPublicKeyById (requestedIdOf data)) with
    | none => respondError
    | some publicKey =>
      if publicKey.length ≠ publicKeySize then respondError
      else respond responsePublicKey (requestedIdOf data ++ publicKey)
  | .fetchMessages => guarded do
    let messages ← db (.getWaitingMessages (requesterIdOf data))
    let (payload, ids) ← finished (encodeRecords messages)
    db (.deleteMessages ids)
    respond responseWaitingMessages payload
  | .removeMessages messages => guarded do
    db (.deleteMessages (messages.map WaitingMessage.id))
    respond responseWaitingMessages (messages.flatMap recordBytes)
  | .findTarget => guarded do
    if (← db (.clientExists (requestedIdOf data))).isNone then respondError
    else if messageTypeOf data ∉ [symmetricKeyRequest, symmetricKeySend, textMessage] then
      respondError
    else if data.length ≠ minLen + contentSizeOf data then respondError
    else if messageTypeOf data = symmetricKeyRequest ∧ contentSizeOf data ≠ 0 then respondError
    else do
      let msgId ← db (.addMessage (requestedIdOf data) (requesterIdOf data) (messageTypeOf data)
        (contentOf data))
      let idBytes ← finished (toBytes msgId messageId)
      respond responseMessageSent (requestedIdOf data ++ idBytes)
  | .storeMessage => guarded do
    let msgId ← db (.addMessage (requestedIdOf data) (requesterIdOf data) (messageTypeOf data)
      (contentOf data))
    let idBytes ← finished (toBytes msgId messageId)
    respond responseMessageSent (requestedIdOf data ++ idBytes)

/-- The code that a request goes on with. -/
def Progress.rest (data : Bytes) (ambient : Ambient) : Progress → Handler
  | .answer response => .finished (.ok response)
  | .next stage => stage.rest data ambient

/-! ### The equations of the handlers' control flow -/

/-- An outcome inside the `try` block is the response it is caught as. -/
theorem guarded_finished (outcome : Except PyError Bytes) :
    guarded (.finished outcome) = .finished (.ok (caught outcome)) := by
  cases outcome with
  | ok response => rfl
  | error exception => exact congrArg finished buildErrorResponse_eq

/-- An early error response inside the `try` block. -/
theorem guarded_respondError : guarded respondError = .finished (.ok errorResponse) :=
  (guarded_finished buildErrorResponse).trans (by rw [buildErrorResponse_eq]; rfl)

theorem guarded_respond (code : ℕ) (payload : Bytes) :
    guarded (respond code payload) = .finished (.ok (caught (buildResponse code payload))) :=
  guarded_finished _

/-- The loop of `clients_list_handler` builds the concatenation of its entries. -/
theorem foldl_clientListPayload (clients : List (Bytes × Bytes)) (payload : Bytes) :
    clients.foldl (fun payload client ↦ payload ++ client.1 ++ nameField client.2) payload =
      payload ++ clientListPayload clients := by
  induction clients generalizing payload with
  | nil => rw [List.foldl_nil, clientListPayload, List.flatMap_nil, List.append_nil]
  | cons client rest ih =>
    rw [List.foldl_cons, ih, clientListPayload, clientListPayload, List.flatMap_cons]
    simp only [List.append_assoc]

/-- The code behind the checks of the requester goes to the stage its code asks for. -/
theorem guarded_route (data : Bytes) (ambient : Ambient) :
    guarded (route data) = (routed data).rest data ambient := by
  unfold route routed
  split_ifs with hlist hlistSize hkey hkeySize hwaiting hwaitingSize hsend hsendSize
  · rw [clientsListHandler, if_neg (not_not.mpr hlistSize)]
    rfl
  · rw [clientsListHandler, if_pos hlistSize]
    exact guarded_respondError
  · rw [publicKeyHandler, if_neg (not_not.mpr hkeySize)]
    refine congrArg (request _) (funext fun answer ↦ ?_)
    rcases answer with exception | _ | publicKey <;> rfl
  · rw [publicKeyHandler, if_pos hkeySize]
    exact guarded_respondError
  · rw [waitingMessagesHandler, if_neg (not_not.mpr hwaitingSize)]
    rfl
  · rw [waitingMessagesHandler, if_pos hwaitingSize]
    exact guarded_respondError
  · rw [sendMessageHandler, if_neg (not_lt.mpr hsendSize)]
    rfl
  · rw [sendMessageHandler, if_pos (not_le.mp hsendSize)]
    exact guarded_respondError
  · exact guarded_respondError

/-- A response whose payload fits its length field. -/
theorem caught_buildResponse {code : ℕ} {payload : Bytes} (hcode : code < 2 ^ 16)
    (hsize : payload.length < 2 ^ 32) :
    caught (buildResponse code payload) = responseFrame code payload := by
  rw [buildResponse_eq_ok hcode hsize]
  rfl

/-- A payload too long for its length field is answered with the general error. -/
theorem caught_buildResponse_of_le {code : ℕ} {payload : Bytes}
    (hsize : 2 ^ 32 ≤ payload.length) : caught (buildResponse code payload) = errorResponse := by
  rw [buildResponse_eq_error hsize]
  rfl

/-- The end of `send_message_handler`. -/
theorem guarded_sent (requestedId : Bytes) (msgId : ℕ) :
    guarded ((finished (toBytes msgId messageId)).attempt (proceed fun idBytes ↦
      respond responseMessageSent (requestedId ++ idBytes))) =
      finished (.ok (sentResponse requestedId msgId)) := by
  rw [attempt_finished, sentResponse]
  cases toBytes msgId messageId with
  | ok idBytes => exact guarded_respond _ _
  | error exception => exact guarded_finished (.error exception)

/-- The checks of `send_message_handler` behind the lookup of the target. -/
theorem guarded_checks (data : Bytes) (program : Handler) :
    guarded (if messageTypeOf data ∉ [symmetricKeyRequest, symmetricKeySend, textMessage] then
        respondError
      else if data.length ≠ minLen + contentSizeOf data then respondError
      else if messageTypeOf data = symmetricKeyRequest ∧ contentSizeOf data ≠ 0 then respondError
      else program) =
      if ValidMessage data then guarded program else finished (.ok errorResponse) := by
  by_cases hvalid : ValidMessage data
  · rw [if_neg (not_not.mpr hvalid.type), if_neg (not_not.mpr hvalid.size),
      if_neg fun h ↦ h.2 (hvalid.request_empty h.1), if_pos hvalid]
  · rw [if_neg hvalid]
    by_cases htype : messageTypeOf data ∈ [symmetricKeyRequest, symmetricKeySend, textMessage]
    · rw [if_neg (not_not.mpr htype)]
      by_cases hsize : data.length = minLen + contentSizeOf data
      · have hrequest : messageTypeOf data = symmetricKeyRequest ∧ contentSizeOf data ≠ 0 :=
          not_not.mp fun hnot ↦ hvalid ⟨htype, hsize,
            fun h ↦ not_not.mp fun hnonzero ↦ hnot ⟨h, hnonzero⟩⟩
        rw [if_neg (not_not.mpr hsize), if_pos hrequest]
        exact guarded_respondError
      · rw [if_pos hsize]
        exact guarded_respondError
    · rw [if_pos htype]
      exact guarded_respondError

/-- The remaining code at a stage makes the stage's call and goes on as `Stage.resume` says. -/
theorem Stage.rest_eq (data : Bytes) (ambient : Ambient) (stage : Stage) :
    stage.rest data ambient =
      .request (stage.call data ambient) fun answer ↦
        (stage.resume data ambient answer).rest data ambient := by
  cases stage with
  | findRequester =>
    refine congrArg (request _) (funext fun answer ↦ ?_)
    rcases answer with exception | _ | found
    · exact guarded_respondError
    · exact guarded_respondError
    · rfl
  | touchRequester =>
    refine congrArg (request _) (funext fun answer ↦ ?_)
    rcases answer with exception | _
    · exact guarded_respondError
    · exact guarded_route data ambient
  | register =>
    refine congrArg (request _) (funext fun answer ↦ ?_)
    rcases answer with exception | _
    · cases exception <;> exact guarded_respondError
    · have htoken : ambient.token.length < 2 ^ 32 := by simp [ambient.token_length]
      refine (guarded_respond responseRegister ambient.token).trans ?_
      rw [caught_buildResponse (by simp) htoken]
      rfl
  | listClients =>
    refine congrArg (request _) (funext fun answer ↦ ?_)
    rcases answer with exception | clients
    · exact guarded_respondError
    · refine (guarded_respond responseClientList _).trans ?_
      rw [foldl_clientListPayload, List.nil_append]
      rfl
  | fetchKey =>
    refine congrArg (request _) (funext fun answer ↦ ?_)
    rcases answer with exception | _ | publicKey
    · exact guarded_respondError
    · exact guarded_respondError
    · change guarded (if publicKey.length ≠ publicKeySize then respondError
        else respond responsePublicKey (requestedIdOf data ++ publicKey)) =
          Progress.rest data ambient (if publicKey.length = publicKeySize then _ else _)
      by_cases hsize : publicKey.length = publicKeySize
      · rw [if_neg (not_not.mpr hsize), if_pos hsize]
        exact guarded_respond _ _
      · rw [if_pos hsize, if_neg hsize]
        exact guarded_respondError
  | fetchMessages =>
    refine congrArg (request _) (funext fun answer ↦ ?_)
    rcases answer with exception | messages
    · exact guarded_respondError
    · change guarded (do
        let (payload, ids) ← finished (encodeRecords messages)
        db (.deleteMessages ids)
        respond responseWaitingMessages payload) = (selected messages).rest data ambient
      unfold selected
      split_ifs with hfits
      · rw [encodeRecords_eq_ok hfits]
        rfl
      · rw [encodeRecords_eq_error hfits]
        exact guarded_respondError
  | removeMessages messages =>
    refine congrArg (request _) (funext fun answer ↦ ?_)
    rcases answer with exception | _
    · exact guarded_respondError
    · exact guarded_respond _ _
  | findTarget =>
    refine congrArg (request _) (funext fun answer ↦ ?_)
    rcases answer with exception | _ | found
    · exact guarded_respondError
    · exact guarded_respondError
    · refine (guarded_checks data _).trans ?_
      change _ = Progress.rest data ambient (if ValidMessage data then _ else _)
      split_ifs <;> rfl
  | storeMessage =>
    refine congrArg (request _) (funext fun answer ↦ ?_)
    rcases answer with exception | msgId
    · exact guarded_respondError
    · exact guarded_sent _ _

/-- `register_handler` stores the client when the registration is valid. -/
theorem guarded_registerHandler (data : Bytes) (ambient : Ambient) :
    guarded (registerHandler data ambient) =
      Progress.rest data ambient
        (if ValidRegistration data then .next .register else .answer errorResponse) := by
  by_cases hsize : data.length = headerSize + nameSize + publicKeySize
  · rw [registerHandler, if_neg (not_not.mpr hsize), decodeAscii]
    by_cases hascii : (rawNameOf data).all (· < 128) = true
    · rw [if_pos hascii]
      change guarded (if rawNameOf data = [] then respondError else _) = _
      by_cases hempty : rawNameOf data = []
      · rw [if_pos hempty, if_neg fun h ↦ h.nonempty hempty]
        exact guarded_respondError
      · rw [if_neg hempty, if_pos ⟨hsize, hascii, hempty⟩]
        refine congrArg (request _) (funext fun answer ↦ ?_)
        rcases answer with exception | _
        · cases exception <;> rfl
        · rfl
    · rw [if_neg hascii, if_neg fun h ↦ hascii h.ascii]
      exact guarded_respondError
  · rw [registerHandler, if_pos hsize, if_neg fun h ↦ hsize h.size]
    exact guarded_respondError

/-- `request_handler_main` goes on as `start` says. -/
theorem requestHandlerMain_eq (data : Bytes) (ambient : Ambient) :
    requestHandlerMain data ambient = (start data).rest data ambient := by
  have herror : respondError = finished (.ok errorResponse) :=
    congrArg finished buildErrorResponse_eq
  unfold requestHandlerMain start
  by_cases hvalid : ValidHeader data
  · rw [if_neg (not_lt.mpr hvalid.header), if_neg (not_not.mpr hvalid.size),
      if_neg (not_not.mpr hvalid.version), if_pos hvalid]
    change guarded (dispatch data ambient) = _
    unfold dispatch
    by_cases hcode : codeOf data = requestRegister
    · rw [if_pos hcode, if_pos hcode]
      exact guarded_registerHandler data ambient
    · rw [if_neg hcode, if_neg hcode]
      rfl
  · rw [if_neg hvalid]
    split_ifs with hheader hsize hversion
    · exact herror
    · exact herror
    · exact herror
    · exact absurd ⟨not_lt.mp hheader, not_not.mp hsize, not_not.mp hversion⟩ hvalid

end MessageU.Server
