import MessageU.Client.Actions
import MessageU.Client.ClientList
import MessageU.Server.Environment
import MessageU.Server.HandleClient

/-!
# The server reads the requests of the client

The client builds its requests with `Message::createBuffer` and its handlers, and the server takes
them apart with slices and constants of its own. `Understood` says that they mean the same: a
request is one frame of the stream, it passes every check that needs no database, and its fields are
what the action meant. `understood_of_acted` has one case for each thing an action can do.

What is left to go wrong is in the database. `Refused` lists it, and `ensures_refused` says that a
request that is understood is answered with the general error for no other reason, whatever the
other connections do to the tables between its calls.
-/

set_option autoImplicit false
set_option relaxedAutoImplicit false

namespace MessageU.System

open Library Interaction Client

/-! ### Frames -/

/-- The two reads of `handle_client`. -/
def receiveRequest : Server.Loop Bytes := do
  let header ← Server.receiveExact Server.headerSize
  let payload ← Server.receiveExact (Server.getPayloadSize header)
  pure (header ++ payload)

section Frames

variable {clientId payload : Bytes} {code : ℕ}

/-- The header of a request declares the size of its payload. -/
theorem getPayloadSize_requestFrame (hclient : clientId.length = clientIdSize)
    (hpayload : payload.length < 2 ^ 32) :
    Server.getPayloadSize ((Server.requestFrame clientId code payload).take Server.headerSize) =
      payload.length := by
  have hinside : Server.headerSize ≤ (Server.requestFrame clientId code payload).length := by
    rw [Server.requestFrame_length hclient]
    exact Nat.le_add_right _ _
  rw [← Server.getPayloadSize_take hinside, List.take_length,
    Server.payloadSizeOf_requestFrame hclient hpayload]

/-- The header of a request in front of further data. -/
theorem take_requestFrame_append (hclient : clientId.length = clientIdSize) (rest : Bytes) :
    (Server.requestFrame clientId code payload ++ rest).take Server.headerSize =
      (Server.requestFrame clientId code payload).take Server.headerSize := by
  refine List.take_append_of_le_length ?_
  rw [Server.requestFrame_length hclient]
  exact Nat.le_add_right _ _

/-- A request with a payload that fits its length field is a frame of the stream. -/
theorem framesOf_requestFrame (hclient : clientId.length = clientIdSize)
    (hpayload : payload.length < 2 ^ 32) (rest : Bytes) :
    Server.framesOf (Server.requestFrame clientId code payload ++ rest) =
      Server.requestFrame clientId code payload :: Server.framesOf rest := by
  have hlength : (Server.requestFrame clientId code payload).length =
      Server.headerSize + payload.length := Server.requestFrame_length hclient
  have hframe : Server.frameLength (Server.requestFrame clientId code payload ++ rest) =
      some (Server.requestFrame clientId code payload).length := by
    have hinside : Server.headerSize + payload.length ≤
        (Server.requestFrame clientId code payload ++ rest).length := by
      rw [List.length_append, hlength]
      exact Nat.le_add_right _ _
    rw [Server.frameLength, take_requestFrame_append hclient,
      getPayloadSize_requestFrame hclient hpayload,
      if_pos ⟨(Nat.le_add_right _ _).trans hinside, hinside⟩, hlength]
  rw [(Server.splitFrames_some hframe).1, List.take_left, List.drop_left]

/-- The two reads take exactly the request from the stream, however it is cut. -/
theorem exec_receiveRequest (hclient : clientId.length = clientIdSize)
    (hpayload : payload.length < 2 ^ 32) (limit : Option ℕ) (ambient : ℕ → Server.Ambient)
    {peer : Server.Peer} {rest : Bytes}
    (hstream : peer.stream = Server.requestFrame clientId code payload ++ rest) :
    ∃ cuts, Server.Loop.exec limit ambient receiveRequest peer =
      ({ peer with stream := rest, cuts := cuts },
        .ok (Server.requestFrame clientId code payload)) := by
  let request := Server.requestFrame clientId code payload
  have hlength : request.length = Server.headerSize + payload.length :=
    Server.requestFrame_length hclient
  obtain ⟨headerCuts, hheader⟩ := Server.run_receiveExact limit ambient Server.headerSize peer
  rw [hstream, if_pos (by rw [List.length_append, hlength]; omega),
    take_requestFrame_append hclient] at hheader
  obtain ⟨cuts, hbody⟩ := Server.run_receiveExact limit ambient payload.length
    { peer with stream := (request ++ rest).drop Server.headerSize, cuts := headerCuts }
  have hdrop : (request ++ rest).drop Server.headerSize =
      request.drop Server.headerSize ++ rest :=
    List.drop_append_of_le_length (by rw [hlength]; exact Nat.le_add_right _ _)
  have hrest : (request.drop Server.headerSize).length = payload.length := by
    rw [List.length_drop, hlength, Nat.add_sub_cancel_left]
  rw [hdrop] at hbody
  rw [if_pos (by rw [List.length_append, hrest]; omega), List.take_left' hrest,
    List.drop_left' hrest] at hbody
  refine ⟨cuts, ?_⟩
  rw [receiveRequest, Server.exec_bind, hheader, proceed_ok,
    getPayloadSize_requestFrame hclient hpayload, Server.exec_bind, hdrop, hbody, proceed_ok]
  exact congrArg (fun data ↦ (_, Except.ok data)) (List.take_append_drop _ _)

end Frames

/-! ### What a request means -/

/-- The request code that belongs to a menu choice. -/
def requestCodeOf (choice : ℕ) : ℕ :=
  if choice = registerChoice then 700
  else if choice = clientsListChoice then 701
  else if choice = publicKeyChoice then 702
  else if choice = waitingMessagesChoice then 704
  else 703

/-- The message type that belongs to a menu choice. -/
def messageTypeFor (choice : ℕ) : ℕ :=
  if choice = sendTextChoice then 3 else if choice = requestSymmetricKeyChoice then 1 else 2

/-- The server takes a request from the stream as one frame and reads its header. -/
structure HeaderRead (clientId : Bytes) (code : ℕ) (request : Bytes) : Prop where
  framed : ∀ rest, Server.framesOf (request ++ rest) = request :: Server.framesOf rest
  received : ∀ limit ambient (peer : Server.Peer) rest, peer.stream = request ++ rest →
    ∃ cuts, Server.Loop.exec limit ambient receiveRequest peer =
      ({ peer with stream := rest, cuts := cuts }, .ok request)
  header : Server.ValidHeader request
  requester : Server.requesterIdOf request = clientId
  version : Server.versionOf request = 1
  code : Server.codeOf request = code

/-- The server reads from a request what an action of a client meant. -/
structure Understood (crypto : Crypto) (before : ClientState) (after : ClientContext) (choice : ℕ)
    (request : Bytes) : Prop
    extends HeaderRead before.ctx.clientID.val (requestCodeOf choice) request where
  registration : choice = registerChoice → Server.ValidRegistration request ∧
    (∃ rest, acceptedName before.console = some (Server.rawNameOf request, rest)) ∧
    after.userName = Server.rawNameOf request ∧
    Server.publicKeyOf request = (crypto.publicKeyOf after.privateKey).val
  bare : choice ∈ [clientsListChoice, waitingMessagesChoice] → request.length = Server.headerSize
  target : choice ∈ [publicKeyChoice, sendTextChoice, requestSymmetricKeyChoice,
    sendSymmetricKeyChoice] → ∃ target, typedTarget before = some target ∧
      Server.requestedIdOf request = target.val
  publicKey : choice = publicKeyChoice →
    request.length = Server.headerSize + Server.clientIdSize
  message : choice ∈ [sendTextChoice, requestSymmetricKeyChoice, sendSymmetricKeyChoice] →
    Server.minLen ≤ request.length ∧ Server.ValidMessage request ∧
      Server.messageTypeOf request = messageTypeFor choice
  text : choice = sendTextChoice → ∃ target key, typedTarget before = some target ∧
    before.ctx.symmetricKeyFor target = some key ∧
    Server.contentOf request = crypto.aesEncrypt key
      ((typedText before.console).take ((typedText before.console).length % 2 ^ 32))
  keyRequest : choice = requestSymmetricKeyChoice → Server.contentOf request = []
  keySend : choice = sendSymmetricKeyChoice → ∃ target publicKey,
    typedTarget before = some target ∧ before.ctx.publicKeyFor target = some publicKey ∧
    crypto.rsaEncrypt publicKey before.entropy.rsaSeed before.entropy.aesKey.val =
      .ok (Server.contentOf request)

/-- The fields of a message to send. -/
theorem message_fields {clientId target content : Bytes} (type : ℕ)
    (hclient : clientId.length = clientIdSize) (htarget : target.length = clientIdSize)
    (htype : type ∈ [requestSymmetricKey, sendSymmetricKey, sendText])
    (hempty : type = requestSymmetricKey → content = [])
    (hsize : (Server.messagePayload target type content).length < 2 ^ 32) :
    let request := Server.requestFrame clientId requestAllMessages
      (Server.messagePayload target type content)
    Server.minLen ≤ request.length ∧ Server.ValidMessage request ∧
      Server.requestedIdOf request = target ∧ Server.messageTypeOf request = type ∧
      Server.contentOf request = content := by
  have hcontent : content.length < 2 ^ 32 := by
    rw [Server.messagePayload_length htarget] at hsize
    omega
  have hbyte : type < 2 ^ 8 := by
    simp only [List.mem_cons, List.not_mem_nil, or_false] at htype
    rcases htype with rfl | rfl | rfl <;> simp
  refine ⟨?_, Server.validMessage_requestFrame hclient htarget htype hempty hcontent _,
    Server.requestedIdOf_message hclient htarget _,
    Server.messageTypeOf_message hclient htarget hbyte _,
    Server.contentOf_message hclient htarget hcontent _⟩
  rw [Server.requestFrame_length hclient, Server.messagePayload_length htarget]
  simp
  omega

section Understood

variable {crypto : Crypto} {before : ClientState} {after : ClientContext} {choice : ℕ}

/-- The header of a request is read. -/
theorem headerRead {clientId payload : Bytes} (code choice : ℕ)
    (hclient : clientId.length = clientIdSize) (hpayload : payload.length < 2 ^ 32)
    (hcode : code = requestCodeOf choice) :
    HeaderRead clientId (requestCodeOf choice) (Server.requestFrame clientId code payload) where
  framed := framesOf_requestFrame hclient hpayload
  received limit ambient _ _ hstream := exec_receiveRequest hclient hpayload limit ambient hstream
  header := Server.validHeader_requestFrame hclient hpayload
  requester := Server.requesterIdOf_requestFrame hclient
  version := Server.versionOf_requestFrame hclient
  code := by
    refine (Server.codeOf_requestFrame hclient ?_).trans hcode
    rw [hcode, requestCodeOf]
    split_ifs <;> simp

/-- The server reads from the request of an action what the action meant. Assumes: the payload fits
its length field, and a name that is registered has no zero byte. -/
theorem understood_of_acted {request : Bytes}
    (hacted : Acted crypto before choice after (.ok request))
    (hnonempty : request ≠ []) (hsize : request.length < Server.headerSize + 2 ^ 32)
    (hname : choice = registerChoice →
      ∀ name rest, acceptedName before.console = some (name, rest) →
      ∀ code ∈ name, code ≠ 0) : Understood crypto before after choice request := by
  have hclient : before.ctx.clientID.val.length = clientIdSize := before.ctx.clientID.property
  have hfits : ∀ {code payload}, request =
    Server.requestFrame before.ctx.clientID.val code payload →
      payload.length < 2 ^ 32 := by
    intro code payload heq
    rw [heq, Server.requestFrame_length hclient] at hsize
    omega
  cases hacted with
  | cancelled => exact absurd rfl hnonempty
  | dropped => exact absurd rfl hnonempty
  | registering name rest hchoice hunregistered haccepted =>
    subst hchoice
    have hlength : name.length ≤ Server.nameSize :=
      (acceptedName_length haccepted).trans (Nat.sub_le _ _)
    have hkey : (crypto.publicKeyOf (crypto.generatePrivateKey before.entropy.rsaSeed)).val.length =
        Server.publicKeySize :=
      (crypto.publicKeyOf (crypto.generatePrivateKey before.entropy.rsaSeed)).property
    have hnoNul := hname rfl name rest haccepted
    have hread := headerRead requestRegister registerChoice hclient (hfits rfl) rfl
    have hraw : Server.rawNameOf (Server.requestFrame before.ctx.clientID.val requestRegister
        (Server.registrationPayload name
          (crypto.publicKeyOf (crypto.generatePrivateKey before.entropy.rsaSeed)).val)) = name :=
      Server.rawNameOf_registration hclient hlength hnoNul requestRegister
    obtain ⟨hvalidNonempty, hascii⟩ := acceptedName_valid haccepted
    exact
      { hread with
        registration := fun _ ↦ ⟨Server.validRegistration_requestFrame hclient hlength
          hvalidNonempty hascii hnoNul hkey _, ⟨rest, by rw [hraw]; exact haccepted⟩, hraw.symm,
          Server.publicKeyOf_registration hclient hlength hkey _⟩
        bare := by simp
        target := by simp
        publicKey := by simp
        message := by simp
        text := by simp
        keyRequest := by simp
        keySend := by simp }
  | asking code hchoice =>
    simp only [List.mem_cons, Prod.mk.injEq, List.not_mem_nil, or_false] at hchoice
    have hcodes : code = requestCodeOf choice := by
      rcases hchoice with ⟨rfl, rfl⟩ | ⟨rfl, rfl⟩ <;> rfl
    have hread := headerRead code choice hclient (hfits rfl) hcodes
    have hother : choice = clientsListChoice ∨ choice = waitingMessagesChoice :=
      hchoice.imp And.left And.left
    exact
      { hread with
        registration := fun h ↦ by rcases hother with heq | heq <;> simp [h] at heq
        bare := fun _ ↦ Server.requestFrame_length hclient
        target := fun h ↦ by rcases hother with heq | heq <;> simp [heq] at h
        publicKey := fun h ↦ by rcases hother with heq | heq <;> simp [h] at heq
        message := fun h ↦ by rcases hother with heq | heq <;> simp [heq] at h
        text := fun h ↦ by rcases hother with heq | heq <;> simp [h] at heq
        keyRequest := fun h ↦ by rcases hother with heq | heq <;> simp [h] at heq
        keySend := fun h ↦ by rcases hother with heq | heq <;> simp [h] at heq }
  | askingKey target hchoice htarget =>
    subst hchoice
    have hread := headerRead requestPublicKey publicKeyChoice hclient (hfits rfl) rfl
    have hrequested : Server.requestedIdOf (Server.requestFrame before.ctx.clientID.val
        requestPublicKey target.val) = target.val := by
      refine (Server.slice_requestFrame hclient 0 Server.clientIdSize).trans ?_
      rw [slice, List.drop_zero, List.take_of_length_le target.property.le]
    exact
      { hread with
        registration := by simp
        bare := by simp
        target := fun _ ↦ ⟨target, htarget, hrequested⟩
        publicKey := fun _ ↦ by rw [Server.requestFrame_length hclient, target.property]
        message := by simp
        text := by simp
        keyRequest := by simp
        keySend := by simp }
  | requestingKey target hchoice htarget =>
    subst hchoice
    have hread := headerRead requestAllMessages requestSymmetricKeyChoice hclient (hfits rfl) rfl
    obtain ⟨hmin, hvalid, hrequested, htype, hcontent⟩ := message_fields requestSymmetricKey hclient
      target.property (by simp) (fun _ ↦ rfl) (hfits rfl)
    exact
      { hread with
        registration := by simp
        bare := by simp
        target := fun _ ↦ ⟨target, htarget, hrequested⟩
        publicKey := by simp
        message := fun _ ↦ ⟨hmin, hvalid, htype⟩
        text := by simp
        keyRequest := fun _ ↦ hcontent
        keySend := by simp }
  | sendingText target key hchoice htarget hkey =>
    subst hchoice
    have hread := headerRead requestAllMessages sendTextChoice hclient (hfits rfl) rfl
    obtain ⟨hmin, hvalid, hrequested, htype, hcontent⟩ := message_fields sendText hclient
      target.property (by simp) (by simp) (hfits rfl)
    exact
      { hread with
        registration := by simp
        bare := by simp
        target := fun _ ↦ ⟨target, htarget, hrequested⟩
        publicKey := by simp
        message := fun _ ↦ ⟨hmin, hvalid, htype⟩
        text := fun _ ↦ ⟨target, key, htarget, hkey, hcontent⟩
        keyRequest := by simp
        keySend := by simp }
  | sendingKey target publicKey cipher hchoice htarget hkey hcipher hfull =>
    subst hchoice
    have hread := headerRead requestAllMessages sendSymmetricKeyChoice hclient (hfits rfl) rfl
    obtain ⟨hmin, hvalid, hrequested, htype, hcontent⟩ := message_fields sendSymmetricKey hclient
      target.property (by simp) (by simp) (hfits rfl)
    exact
      { hread with
        registration := by simp
        bare := by simp
        target := fun _ ↦ ⟨target, htarget, hrequested⟩
        publicKey := by simp
        message := fun _ ↦ ⟨hmin, hvalid, htype⟩
        text := by simp
        keyRequest := by simp
        keySend := fun _ ↦ ⟨target, publicKey, htarget, hkey, hcipher.trans (by rw [hcontent])⟩ }

end Understood

/-! ### What is left to go wrong -/

/-- The tables have no place for a request: its requester or target is unknown, the key it asks for
is missing, the name or the generated ID of a registration is taken, or a number or size in the
answer is beyond its field. -/
inductive Refused (limit : Option ℕ) (request : Bytes) (ambient : Server.Ambient)
    (tables : Server.Tables) : Prop
  | taken (hcode : Server.codeOf request = 700)
    (hrow : tables.Registered ambient.token ∨
      Server.rawNameOf request ∈ tables.clients.map Server.ClientRow.userName)
  | unknownRequester (hcode : Server.codeOf request ≠ 700)
    (hrow : ¬tables.Registered (Server.requesterIdOf request))
  | longList (hcode : Server.codeOf request = 701)
    (hsize : 2 ^ 32 ≤ (Server.clientListPayload
      (tables.otherClients (Server.requesterIdOf request))).length)
  | missingKey (hcode : Server.codeOf request = 702)
    (hrow : ∀ row ∈ tables.clients, row.id = Server.requestedIdOf request →
      row.publicKey.length ≠ Server.publicKeySize)
  | unknownTarget (hcode : Server.codeOf request = 703)
    (hrow : ¬tables.Registered (Server.requestedIdOf request))
  | numberTooLarge (hcode : Server.codeOf request = 703) (hsequence : 2 ^ 32 ≤ tables.sequence + 1)
  | mailboxTooLarge (hcode : Server.codeOf request = 704)
    (hmessages : let messages := tables.waitingFor (Server.requesterIdOf request)
      (∃ message ∈ messages, ¬Server.RecordFits message) ∨ limit.any (· < messages.length) ∨
        2 ^ 32 ≤ (messages.flatMap Server.recordBytes).length)

/-- A response is the general error only after a failure or for a reason in the tables. -/
def Excused (limit : Option ℕ) (request : Bytes) (ambient : Server.Ambient)
    (outcome : Except Server.PyError Bytes) (shown : Server.Shown) : Prop :=
  ∃ response, outcome = .ok response ∧ (response = Server.errorResponse →
    shown.failed = true ∨ ∃ tables ∈ shown.contents, Refused limit request ambient tables)

/-- Code behind a call that has failed, or that finds a reason in the tables. -/
theorem excused_error {limit : Option ℕ} {request : Bytes} {ambient : Server.Ambient}
    {shown : Server.Shown}
    (h : shown.failed = true ∨ ∃ tables ∈ shown.contents, Refused limit request ambient tables) :
    Excused limit request ambient (.ok Server.errorResponse) shown :=
  ⟨_, rfl, fun _ ↦ h⟩

/-- A response with another code needs no excuse. -/
theorem excused_responseFrame {limit : Option ℕ} {request : Bytes} {ambient : Server.Ambient}
    {shown : Server.Shown} {code : ℕ} (hcode : code < 2 ^ 16) (hother : code ≠ Server.errorGeneral)
    (payload : Bytes) :
    Excused limit request ambient (.ok (Server.responseFrame code payload)) shown := by
  refine ⟨_, rfl, fun heq ↦ absurd ?_ hother⟩
  rw [← Server.responseCode_responseFrame hcode payload, heq, Server.responseCode_errorResponse]

/-- A payload that is framed, or too long for a reason in the tables. -/
theorem excused_caught {limit : Option ℕ} {request : Bytes} {ambient : Server.Ambient}
    {shown : Server.Shown}
    {code : ℕ} {payload : Bytes} (hcode : code < 2 ^ 16) (hother : code ≠ Server.errorGeneral)
    (hsize : 2 ^ 32 ≤ payload.length →
      ∃ tables ∈ shown.contents, Refused limit request ambient tables) :
    Excused limit request ambient
      (.ok (Server.caught (Server.buildResponse code payload))) shown := by
  by_cases hlong : 2 ^ 32 ≤ payload.length
  · rw [Server.caught_buildResponse_of_le hlong]
    exact excused_error (.inr (hsize hlong))
  · rw [Server.caught_buildResponse hcode (not_le.mp hlong)]
    exact excused_responseFrame hcode hother payload

section Handlers

variable {limit : Option ℕ} {request : Bytes} {ambient : Server.Ambient}

/-- The code that a request goes on with is excused, whatever the database shows. -/
abbrev Ensured (limit : Option ℕ) (request : Bytes) (ambient : Server.Ambient)
    (progress : Server.Progress) (shown : Server.Shown) : Prop :=
  (progress.rest request ambient).Ensures (Server.Shows limit) (Excused limit request ambient) shown

/-- A stage goes on as its call comes out on some tables. -/
theorem ensured_next {stage : Server.Stage} {shown : Server.Shown}
    (h : ∀ tables, Ensured limit request ambient
      (stage.resume request ambient ((stage.call request ambient).exec limit tables).2)
      (shown.tables tables)) :
    Ensured limit request ambient (.next stage) shown :=
  Server.ensures_next (excused_error (.inl rfl)) h

/-- The refusal by the tables that a call has just been made on. -/
theorem refused_here {shown : Server.Shown} {tables : Server.Tables}
    (h : Refused limit request ambient tables) :
    ∃ found ∈ tables :: shown.contents, Refused limit request ambient found :=
  ⟨tables, List.mem_cons_self, h⟩

theorem ensured_register (hcode : Server.codeOf request = 700) (shown : Server.Shown) :
    Ensured limit request ambient (.next .register) shown := by
  refine ensured_next fun tables ↦ ?_
  have hexec : (Server.Stage.register.call request ambient).exec limit tables = _ :=
    Server.exec_addClient limit tables ambient.token (Server.rawNameOf request)
      (Server.publicKeyOf request) ambient.now
  rw [hexec]
  cases hinsert : tables.insertClient ⟨ambient.token, Server.rawNameOf request,
      Server.publicKeyOf request, ambient.now⟩ with
  | ok after => exact excused_responseFrame (by simp) (by simp) _
  | error exception =>
    refine excused_error (.inr (refused_here (.taken hcode ?_)))
    by_contra hfree
    rw [not_or] at hfree
    obtain ⟨after, hok⟩ := Server.Tables.exists_insertClient ⟨ambient.token,
      Server.rawNameOf request, Server.publicKeyOf request, ambient.now⟩ hfree.1 hfree.2
    rw [hok] at hinsert
    cases hinsert

theorem ensured_listClients (hcode : Server.codeOf request = 701) (shown : Server.Shown) :
    Ensured limit request ambient (.next .listClients) shown :=
  ensured_next fun _ ↦ excused_caught (by simp) (by simp) fun hsize ↦
    refused_here (.longList hcode hsize)

theorem ensured_fetchKey (hcode : Server.codeOf request = 702) (shown : Server.Shown) :
    Ensured limit request ambient (.next .fetchKey) shown := by
  refine ensured_next fun tables ↦ ?_
  have hexec : (Server.Stage.fetchKey.call request ambient).exec limit tables = _ :=
    Server.exec_getPublicKeyById limit tables (Server.requestedIdOf request)
  rw [hexec]
  cases hfind : tables.clients.find? fun row ↦ row.id = Server.requestedIdOf request with
  | none =>
    refine excused_error (.inr (refused_here (.missingKey hcode fun row hrow hid ↦ ?_)))
    exact absurd (decide_eq_true hid) (List.find?_eq_none.mp hfind row hrow)
  | some row =>
    have hid : row.id = Server.requestedIdOf request := of_decide_eq_true (List.find?_some hfind :)
    change Ensured limit request ambient (if row.publicKey.length = Server.publicKeySize then _
      else .answer Server.errorResponse) _
    split_ifs with hsize
    · refine excused_caught (by simp) (by simp) fun hlong ↦ ?_
      rw [List.length_append, hsize] at hlong
      have hslice := slice_length_le request Server.headerSize Server.clientIdSize
      rw [← Server.requestedIdOf] at hslice
      simp only [Server.publicKeySize, Server.clientIdSize] at hlong hslice
      omega
    · refine excused_error (.inr (refused_here (.missingKey hcode fun other hother hsame ↦ ?_)))
      have heq : other = row := List.inj_on_of_nodup_map tables.clientIds_nodup hother
        (List.mem_of_find?_eq_some hfind) (hsame.trans hid.symm)
      rwa [heq]

/-- The messages of a mailbox that was shown are deleted and sent, or it is too large. -/
theorem ensured_removeMessages (hcode : Server.codeOf request = 704) {shown : Server.Shown}
    {tables : Server.Tables} (htables : tables ∈ shown.contents) :
    Ensured limit request ambient
      (.next (.removeMessages (tables.waitingFor (Server.requesterIdOf request)))) shown := by
  refine ensured_next fun current ↦ ?_
  generalize hmessages : tables.waitingFor (Server.requesterIdOf request) = messages
  have hexec : ((Server.Stage.removeMessages messages).call request ambient).exec
      limit current = _ :=
    Server.exec_deleteMessages limit current (messages.map Server.WaitingMessage.id)
  rw [List.length_map] at hexec
  rw [hexec]
  split_ifs with hlimit
  · refine excused_error (.inr ⟨tables, List.mem_cons_of_mem _ htables, .mailboxTooLarge hcode ?_⟩)
    rw [hmessages]
    exact .inr (.inl hlimit)
  · refine excused_caught (by simp) (by simp) fun hlong ↦
      ⟨tables, List.mem_cons_of_mem _ htables, .mailboxTooLarge hcode ?_⟩
    rw [hmessages]
    exact .inr (.inr hlong)

theorem ensured_fetchMessages (hcode : Server.codeOf request = 704) (shown : Server.Shown) :
    Ensured limit request ambient (.next .fetchMessages) shown := by
  refine ensured_next fun tables ↦ ?_
  change Ensured limit request ambient
    (Server.selected (tables.waitingFor (Server.requesterIdOf request))) _
  unfold Server.selected
  split_ifs with hfits
  · exact ensured_removeMessages hcode List.mem_cons_self
  · refine excused_error (.inr (refused_here (.mailboxTooLarge hcode (.inl ?_))))
    simpa using hfits

theorem ensured_storeMessage (hcode : Server.codeOf request = 703) (shown : Server.Shown) :
    Ensured limit request ambient (.next .storeMessage) shown := by
  refine ensured_next fun tables ↦ ?_
  have hslice := slice_length_le request Server.headerSize Server.clientIdSize
  rw [← Server.requestedIdOf] at hslice
  change Excused limit request ambient (.ok (Server.sentResponse (Server.requestedIdOf request)
    (tables.sequence + 1))) _
  rw [Server.sentResponse, Server.toBytes_eq]
  by_cases hfits : tables.sequence + 1 < 256 ^ Server.messageId
  · rw [if_pos hfits]
    refine excused_caught (by simp) (by simp) fun hlong ↦ ?_
    rw [List.length_append, littleEndian_length] at hlong
    simp only [Server.messageId, Server.clientIdSize] at hlong hslice
    omega
  · rw [if_neg hfits]
    exact excused_error (.inr (refused_here (.numberTooLarge hcode (not_lt.mp hfits))))

theorem ensured_findTarget (hcode : Server.codeOf request = 703)
    (hmessage : Server.ValidMessage request) (shown : Server.Shown) :
    Ensured limit request ambient (.next .findTarget) shown := by
  refine ensured_next fun tables ↦ ?_
  have hexec : (Server.Stage.findTarget.call request ambient).exec limit tables = _ :=
    Server.exec_clientExists limit tables (Server.requestedIdOf request)
  have hiff := Server.find_client_isSome_iff tables (Server.requestedIdOf request)
  rw [hexec]
  cases hfound : (tables.clients.find? fun row ↦ row.id = Server.requestedIdOf request).map
      Server.ClientRow.id with
  | none =>
    refine excused_error (.inr (refused_here (.unknownTarget hcode fun hrow ↦ ?_)))
    rw [hfound] at hiff
    exact Bool.false_ne_true (hiff.mpr hrow)
  | some found =>
    change Ensured limit request ambient (if Server.ValidMessage request then _ else _) _
    rw [if_pos hmessage]
    exact ensured_storeMessage hcode _

/-- A request of a client goes on when the requester is known. -/
theorem ensured_findRequester (hcode : Server.codeOf request ≠ 700)
    (hrouted : ∀ shown, Ensured limit request ambient (Server.routed request) shown)
    (shown : Server.Shown) : Ensured limit request ambient (.next .findRequester) shown := by
  refine ensured_next fun tables ↦ ?_
  have hexec : (Server.Stage.findRequester.call request ambient).exec limit tables = _ :=
    Server.exec_clientExists limit tables (Server.requesterIdOf request)
  have hiff := Server.find_client_isSome_iff tables (Server.requesterIdOf request)
  rw [hexec]
  cases hfound : (tables.clients.find? fun row ↦ row.id = Server.requesterIdOf request).map
      Server.ClientRow.id with
  | none =>
    refine excused_error (.inr (refused_here (.unknownRequester hcode fun hrow ↦ ?_)))
    rw [hfound] at hiff
    exact Bool.false_ne_true (hiff.mpr hrow)
  | some found => exact ensured_next fun _ ↦ hrouted _

end Handlers

/-- The shape of the request that belongs to the code of an action. -/
theorem requestCodeOf_cases {choice : ℕ}
    (hchoice : choice ∈ clientsListChoice :: waitingMessagesChoice :: promptingChoices) :
    choice = registerChoice ∨
      (choice ∈ [clientsListChoice, waitingMessagesChoice] ∧ requestCodeOf choice ∈ [701, 704]) ∨
      (choice = publicKeyChoice ∧ requestCodeOf choice = 702) ∨
      (choice ∈ [sendTextChoice, requestSymmetricKeyChoice, sendSymmetricKeyChoice] ∧
        requestCodeOf choice = 703) := by
  revert choice
  decide

/-- A request that is understood is answered with the general error only after a failure of the
database or for a reason in the tables. -/
theorem ensures_refused {crypto : Crypto} {before : ClientState} {after : ClientContext}
    {choice : ℕ}
    {request : Bytes} (h : Understood crypto before after choice request)
    (hchoice : choice ∈ clientsListChoice :: waitingMessagesChoice :: promptingChoices)
    (limit : Option ℕ) (ambient : Server.Ambient) (shown : Server.Shown) :
    (Server.requestHandlerMain request ambient).Ensures (Server.Shows limit)
      (Excused limit request ambient)
      shown := by
  have hcode := h.code
  rw [Server.requestHandlerMain_eq, Server.start, if_pos h.header]
  rcases requestCodeOf_cases hchoice with
    rfl | ⟨hbare, hlisted⟩ | ⟨rfl, hfetch⟩ | ⟨hmessage, hsend⟩
  · have hregister : Server.codeOf request = 700 := hcode
    rw [if_pos hregister, if_pos (h.registration rfl).1]
    exact ensured_register hregister shown
  · rw [← hcode, List.mem_pair] at hlisted
    have hrouted : ∀ shown, Ensured limit request ambient (Server.routed request) shown := by
      intro shown
      rcases hlisted with hlist | hpull
      · simp only [Server.routed, hlist]
        rw [if_pos trivial, if_pos (h.bare hbare)]
        exact ensured_listClients hlist shown
      · simp only [Server.routed, hpull]
        rw [if_neg (by simp), if_neg (by simp), if_pos trivial, if_pos (h.bare hbare)]
        exact ensured_fetchMessages hpull shown
    have hother : Server.codeOf request ≠ 700 := by
      rcases hlisted with hlist | hpull
      · rw [hlist]; simp
      · rw [hpull]; simp
    rw [if_neg hother]
    exact ensured_findRequester hother hrouted shown
  · rw [← hcode] at hfetch
    have hother : Server.codeOf request ≠ 700 := by rw [hfetch]; simp
    rw [if_neg hother]
    refine ensured_findRequester hother (fun shown ↦ ?_) shown
    simp only [Server.routed, hfetch]
    rw [if_neg (by simp), if_pos trivial, if_pos (h.publicKey rfl)]
    exact ensured_fetchKey hfetch shown
  · rw [← hcode] at hsend
    obtain ⟨hmin, hvalid, -⟩ := h.message hmessage
    have hother : Server.codeOf request ≠ 700 := by rw [hsend]; simp
    rw [if_neg hother]
    refine ensured_findRequester hother (fun shown ↦ ?_) shown
    simp only [Server.routed, hsend]
    rw [if_neg (by simp), if_neg (by simp), if_neg (by simp), if_pos trivial, if_pos hmin]
    exact ensured_findTarget hsend hvalid shown

/-- An action that sends something is one of those that are listed. -/
theorem choice_of_acted {crypto : Crypto} {before : ClientState} {after : ClientContext}
    {choice : ℕ}
    {request : Bytes} (hacted : Acted crypto before choice after (.ok request))
    (hnonempty : request ≠ []) :
    choice ∈ clientsListChoice :: waitingMessagesChoice :: promptingChoices := by
  cases hacted with
  | cancelled => exact absurd rfl hnonempty
  | dropped => exact absurd rfl hnonempty
  | asking code hchoice =>
    simp only [List.mem_cons, Prod.mk.injEq, List.not_mem_nil, or_false] at hchoice
    rcases hchoice with ⟨rfl, -⟩ | ⟨rfl, -⟩ <;> simp
  | registering name rest hchoice => simp [hchoice, promptingChoices]
  | askingKey target hchoice => simp [hchoice, promptingChoices]
  | requestingKey target hchoice => simp [hchoice, promptingChoices]
  | sendingText target key hchoice => simp [hchoice, promptingChoices]
  | sendingKey target publicKey cipher hchoice => simp [hchoice, promptingChoices]

/-- The encoders of the client and the parsers of the server agree. For every context and console,
what an action sends is one frame of the stream and means to the server what it meant to the client,
and it is answered with the general error only after a failure of the database or for a reason in
the tables. Assumes: more rounds than lines, a payload that fits its length field, and a name that
is registered without zero bytes. -/
theorem request_understood (crypto : Crypto) (state : ClientState) {rounds choice : ℕ}
    {request : Bytes}
    (hrounds : state.console.length < rounds)
    (hresult : ((handleMenuChoice rounds choice).exec crypto state).2 = .ok request)
    (hnonempty : request ≠ []) (hsize : request.length < Server.headerSize + 2 ^ 32)
    (hname : choice = registerChoice → ∀ name rest, acceptedName state.console = some (name, rest) →
      ∀ code ∈ name, code ≠ 0) :
    Understood crypto state ((handleMenuChoice rounds choice).exec crypto state).1.ctx choice
        request ∧
      ∀ limit ambient, (Server.requestHandlerMain request ambient).Ensures (Server.Shows limit)
        (Excused limit request ambient) .nothing := by
  have hacted := handleMenuChoice_acted crypto state rounds choice hrounds
  rw [hresult] at hacted
  have hunderstood := understood_of_acted hacted hnonempty hsize hname
  exact ⟨hunderstood, fun limit ambient ↦
    ensures_refused hunderstood (choice_of_acted hacted hnonempty) limit ambient _⟩

/-- A client without an ID whose user has typed a name. -/
def newcomer : ClientState where
  ctx := .empty
  console := [[66, 111, 98]]
  output := []
  entropy := ⟨.zero _, 7⟩
  disk := ⟨.ok true, true, none⟩

/-- Its registration. -/
def newcomerRequest : Bytes :=
  Server.requestFrame newcomer.ctx.clientID.val 700
    (Server.registrationPayload [66, 111, 98]
      (Crypto.tagged.publicKeyOf (Crypto.tagged.generatePrivateKey 7)).val)

/-- The registration of that client is understood. -/
theorem request_understood_newcomer :
    Understood .tagged newcomer
        ((handleMenuChoice 2 registerChoice).exec .tagged newcomer).1.ctx registerChoice
        newcomerRequest ∧
      ∀ limit ambient, (Server.requestHandlerMain newcomerRequest ambient).Ensures
        (Server.Shows limit)
        (Excused limit newcomerRequest ambient) .nothing := by
  have hlength : newcomerRequest.length =
      Server.headerSize + (Server.nameSize + Server.publicKeySize) := by
    rw [newcomerRequest, Server.requestFrame_length newcomer.ctx.clientID.property,
      Server.registrationPayload_length (by simp)
        (Crypto.tagged.publicKeyOf (Crypto.tagged.generatePrivateKey 7)).property]
  have hresult : ((handleMenuChoice 2 registerChoice).exec .tagged newcomer).2 =
      .ok newcomerRequest := by
    rw [newcomerRequest, Server.registrationPayload, ← nameField_eq (by simp), ← createBuffer_eq]
    rfl
  refine request_understood .tagged newcomer (by decide) hresult ?_ ?_ ?_
  · exact List.ne_nil_of_length_pos (by rw [hlength]; simp)
  · rw [hlength]
    simp
  · intro _ name rest haccepted
    cases haccepted
    simp

end MessageU.System
