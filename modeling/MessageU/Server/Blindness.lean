import MessageU.Server.Linearization

/-!
# What the server does not look into

The server carries two kinds of bytes for its clients: the contents of messages and the public keys.
It stores them and hands them out, and nothing that it does depends on them. The statement compares
two runs: the same requests arrive on the same connections and the same calls fail, but each content
and each key of the second run is another one, in a relation (`Veil`) that keeps the length. Then
every answer of the second run is the answer of the first one, with the contents and keys replaced
(`Veil.Response`), and so are the tables. The clock is another one as well.

`answers_blind` is the theorem for whole runs, with the handlers interleaved as they may. Its proof
relates the states of the two runs step by step: one call of a handler is `Veil.call`.
-/

set_option autoImplicit false
set_option relaxedAutoImplicit false

namespace MessageU.Server

open Library

/-- A relation between the contents of two runs and one between their keys. -/
structure Veil where
  content : Bytes → Bytes → Prop
  key : Bytes → Bytes → Prop
  content_length : ∀ {first second : Bytes}, content first second → first.length = second.length
  key_length : ∀ {first second : Bytes}, key first second → first.length = second.length

namespace Veil

/-! ### Requests -/

/-- The size of a registration in front of its key. -/
@[simp] abbrev keyOffset : ℕ :=
  headerSize + nameSize

/-- A request that holds a content or a key. -/
def Carries (data : Bytes) : Prop :=
  (codeOf data = requestSendMessage ∧ minLen ≤ data.length) ∨
    (codeOf data = requestRegister ∧ keyOffset ≤ data.length)

/-- Two requests that differ in the content of a message or in the key of a registration. -/
inductive Request (veil : Veil) : Bytes → Bytes → Prop
  | same {data : Bytes} (hplain : ¬Carries data) : Request veil data data
  | message {head content other : Bytes} (hhead : head.length = minLen)
    (hcode : codeOf head = requestSendMessage) (hcontent : veil.content content other) :
    Request veil (head ++ content) (head ++ other)
  | registration {head key other : Bytes} (hhead : head.length = keyOffset)
    (hcode : codeOf head = requestRegister) (hkey : veil.key key other) :
    Request veil (head ++ key) (head ++ other)

/-- A field in the part that is the same. -/
theorem slice_append_left {head : Bytes} {offset size : ℕ} (hinside : offset + size ≤ head.length)
    (rest : Bytes) : slice (head ++ rest) offset size = slice head offset size := by
  rw [slice, slice, List.drop_append_of_le_length (by omega), List.take_append_of_le_length]
  rw [List.length_drop]
  omega

section Request

variable {veil : Veil} {data twin : Bytes}

theorem Request.length (h : veil.Request data twin) : data.length = twin.length := by
  cases h with
  | same => rfl
  | message hhead hcode hcontent => simp only [List.length_append, veil.content_length hcontent]
  | registration hhead hcode hkey => simp only [List.length_append, veil.key_length hkey]

/-- What the server reads in front of a content is the same. -/
theorem Request.slice_eq (h : veil.Request data twin) (offset size : ℕ)
    (hinside : offset + size ≤ minLen) : slice data offset size = slice twin offset size := by
  cases h with
  | same => rfl
  | message hhead hcode hcontent =>
    have hhead' := hhead.symm ▸ hinside
    rw [slice_append_left hhead', slice_append_left hhead']
  | registration hhead hcode hkey =>
    have hhead' : offset + size ≤ _ := hinside.trans (hhead.symm ▸ (by decide : minLen ≤ keyOffset))
    rw [slice_append_left hhead', slice_append_left hhead']

theorem Request.requesterIdOf_eq (h : veil.Request data twin) :
    requesterIdOf data = requesterIdOf twin := by
  have hfield := h.slice_eq 0 clientIdSize (by decide)
  rwa [slice, slice, List.drop_zero, List.drop_zero] at hfield

theorem Request.requestedIdOf_eq (h : veil.Request data twin) :
    requestedIdOf data = requestedIdOf twin :=
  h.slice_eq _ _ (by decide)

theorem Request.codeOf_eq (h : veil.Request data twin) : codeOf data = codeOf twin :=
  congrArg fromBytes (h.slice_eq _ _ (by decide))

theorem Request.payloadSizeOf_eq (h : veil.Request data twin) :
    payloadSizeOf data = payloadSizeOf twin :=
  congrArg fromBytes (h.slice_eq _ _ (by decide))

theorem Request.contentSizeOf_eq (h : veil.Request data twin) :
    contentSizeOf data = contentSizeOf twin :=
  congrArg fromBytes (h.slice_eq _ _ (by decide))

theorem Request.byteAt_eq (h : veil.Request data twin) {index : ℕ} (hinside : index < minLen) :
    byteAt data index = byteAt twin index := by
  have hfield := congrArg (·[0]?) (h.slice_eq index 1 hinside)
  simp only [slice, List.getElem?_take_of_lt Nat.zero_lt_one, List.getElem?_drop,
    Nat.add_zero] at hfield
  rw [byteAt, byteAt, List.getD_eq_getElem?_getD, List.getD_eq_getElem?_getD, hfield]

theorem Request.versionOf_eq (h : veil.Request data twin) : versionOf data = versionOf twin :=
  congrArg UInt8.toNat (h.byteAt_eq (by decide))

theorem Request.messageTypeOf_eq (h : veil.Request data twin) :
    messageTypeOf data = messageTypeOf twin :=
  congrArg UInt8.toNat (h.byteAt_eq (by decide))

theorem codeOf_append {head : Bytes} (hhead : codeOffset + codeSize ≤ head.length) (rest : Bytes) :
    codeOf (head ++ rest) = codeOf head :=
  congrArg fromBytes (slice_append_left hhead rest)

/-- The name of a registration is the same. -/
theorem Request.rawNameOf_eq (h : veil.Request data twin) (hcode : codeOf data = requestRegister) :
    rawNameOf data = rawNameOf twin := by
  cases h with
  | same => rfl
  | message hhead hsend hcontent =>
    rw [codeOf_append (hhead.symm ▸ (by decide)), hsend] at hcode
    simp at hcode
  | registration hhead _ hkey =>
    have hinside := hhead.symm ▸ (by decide : headerSize + nameSize ≤ keyOffset)
    rw [rawNameOf, rawNameOf, slice_append_left hinside, slice_append_left hinside]

/-- What the server checks is the same. -/
theorem Request.start_eq (h : veil.Request data twin) : start data = start twin := by
  have hheader : ValidHeader data ↔ ValidHeader twin := by
    constructor
    · rintro ⟨hheader, hsize, hversion⟩
      exact ⟨h.length ▸ hheader, h.length ▸ h.payloadSizeOf_eq ▸ hsize, h.versionOf_eq ▸ hversion⟩
    · rintro ⟨hheader, hsize, hversion⟩
      exact ⟨h.length ▸ hheader, by rw [h.length, h.payloadSizeOf_eq]; exact hsize,
        h.versionOf_eq ▸ hversion⟩
  have hregistration (hcode : codeOf data = requestRegister) :
      ValidRegistration data ↔ ValidRegistration twin := by
    have hname := h.rawNameOf_eq hcode
    constructor
    · rintro ⟨hsize, hascii, hnonempty⟩
      exact ⟨h.length ▸ hsize, hname ▸ hascii, hname ▸ hnonempty⟩
    · rintro ⟨hsize, hascii, hnonempty⟩
      exact ⟨h.length ▸ hsize, hname ▸ hascii, hname ▸ hnonempty⟩
  unfold start
  rw [← h.codeOf_eq]
  refine if_congr hheader ?_ rfl
  by_cases hcode : codeOf data = requestRegister
  · rw [if_pos hcode, if_pos hcode]
    exact if_congr (hregistration hcode) rfl rfl
  · rw [if_neg hcode, if_neg hcode]

theorem Request.routed_eq (h : veil.Request data twin) : routed data = routed twin := by
  unfold routed
  rw [h.codeOf_eq, h.length]

theorem Request.validMessage_iff (h : veil.Request data twin) :
    ValidMessage data ↔ ValidMessage twin := by
  have htype := h.messageTypeOf_eq
  have hsize := h.contentSizeOf_eq
  have hlength := h.length
  constructor
  · rintro ⟨hkind, hwhole, hempty⟩
    exact ⟨htype ▸ hkind, hlength ▸ hsize ▸ hwhole, htype ▸ hsize ▸ hempty⟩
  · rintro ⟨hkind, hwhole, hempty⟩
    refine ⟨htype.symm ▸ hkind, ?_, ?_⟩
    · rw [hlength, hsize]
      exact hwhole
    · rw [htype, hsize]
      exact hempty

/-- The contents of a message that the server accepts. -/
theorem Request.contentOf (h : veil.Request data twin) (hcode : codeOf data = requestSendMessage)
    (hvalid : ValidMessage data) :
    veil.content (Server.contentOf data) (Server.contentOf twin) := by
  have hsize := hvalid.size
  cases h with
  | same hplain => exact absurd (.inl ⟨hcode, by omega⟩) hplain
  | @message head content other hhead hsend hcontent =>
    have htwin := (Request.message hhead hsend hcontent).contentSizeOf_eq
    rw [List.length_append, hhead] at hsize
    have hlength := veil.content_length hcontent
    rw [Server.contentOf, Server.contentOf, slice_append_right hhead, slice_append_right hhead,
      List.take_of_length_le (by omega), List.take_of_length_le (by omega)]
    exact hcontent
  | registration hhead hregister hkey =>
    rw [codeOf_append (hhead.symm ▸ (by decide)), hregister] at hcode
    simp at hcode

/-- The keys of a registration that the server accepts. -/
theorem Request.publicKeyOf (h : veil.Request data twin) (hcode : codeOf data = requestRegister)
    (hvalid : ValidRegistration data) :
    veil.key (Server.publicKeyOf data) (Server.publicKeyOf twin) := by
  have hsize := hvalid.size
  cases h with
  | same hplain => exact absurd (.inr ⟨hcode, hsize ▸ (by decide)⟩) hplain
  | message hhead hsend hcontent =>
    rw [codeOf_append (hhead.symm ▸ (by decide)), hsend] at hcode
    simp at hcode
  | @registration head key other hhead hregister hkey =>
    rw [List.length_append, hhead] at hsize
    have hwhole : key.length = publicKeySize := Nat.add_left_cancel hsize
    have hlength := veil.key_length hkey
    rw [Server.publicKeyOf, Server.publicKeyOf, slice_append_right hhead, slice_append_right hhead,
      List.take_of_length_le (by omega), List.take_of_length_le (by omega)]
    exact hkey

end Request

/-! ### Tables and responses -/

/-- Two rows of clients that differ in the key, and in when the client was seen. -/
structure Row (veil : Veil) (row twin : ClientRow) : Prop where
  id : row.id = twin.id
  userName : row.userName = twin.userName
  key : veil.key row.publicKey twin.publicKey

/-- Two messages that differ in the content. -/
structure Message (veil : Veil) (message twin : WaitingMessage) : Prop where
  id : message.id = twin.id
  fromClient : message.fromClient = twin.fromClient
  type : message.type = twin.type
  content : veil.content message.content twin.content

/-- Two rows of messages that differ in the content. -/
structure Entry (veil : Veil) (row twin : MessageRow) : Prop where
  toClient : row.toClient = twin.toClient
  message : veil.Message row.waiting twin.waiting

/-- Two stores that differ in contents, in keys, and in when clients were seen. -/
structure Store (veil : Veil) (tables twin : Tables) : Prop where
  clients : List.Forall₂ veil.Row tables.clients twin.clients
  messages : List.Forall₂ veil.Entry tables.messages twin.messages
  sequence : tables.sequence = twin.sequence

/-- Two responses that differ in a key or in contents. -/
inductive Response (veil : Veil) : Bytes → Bytes → Prop
  | same (response : Bytes) : Response veil response response
  | key {id key other : Bytes} (hkey : veil.key key other) :
    Response veil (responseFrame responsePublicKey (id ++ key))
      (responseFrame responsePublicKey (id ++ other))
  | messages {messages twins : List WaitingMessage}
    (hmessages : List.Forall₂ veil.Message messages twins) :
    Response veil (responseFrame responseWaitingMessages (messages.flatMap recordBytes))
      (responseFrame responseWaitingMessages (twins.flatMap recordBytes))

section Store

variable {veil : Veil} {tables twin : Tables}

theorem Store.ids_eq (h : veil.Store tables twin) :
    tables.clients.map ClientRow.id = twin.clients.map ClientRow.id := by
  have hids := List.rel_map (P := Eq) (fun _ _ hrow ↦ Row.id hrow) h.clients
  rwa [List.forall₂_eq_eq_eq] at hids

theorem Store.userNames_eq (h : veil.Store tables twin) :
    tables.clients.map ClientRow.userName = twin.clients.map ClientRow.userName := by
  have hnames := List.rel_map (P := Eq) (fun _ _ hrow ↦ Row.userName hrow) h.clients
  rwa [List.forall₂_eq_eq_eq] at hnames

/-- The rows that a `SELECT` by ID finds. -/
theorem Store.find (h : veil.Store tables twin) (clientId : Bytes) :
    Option.Rel veil.Row (tables.clients.find? fun row ↦ row.id = clientId)
      (twin.clients.find? fun row ↦ row.id = clientId) := by
  have hrows := h.clients
  generalize tables.clients = rows at hrows
  generalize twin.clients = twins at hrows
  induction hrows with
  | nil => exact .none
  | @cons row other rest others hrow _ ih =>
    by_cases hid : row.id = clientId
    · rw [List.find?_cons_of_pos (by simpa using hid),
        List.find?_cons_of_pos (by simpa using hrow.id ▸ hid)]
      exact .some hrow
    · rw [List.find?_cons_of_neg (by simpa using hid),
        List.find?_cons_of_neg (by simpa using hrow.id ▸ hid)]
      exact ih

/-- `client_exists` gives the same. -/
theorem Store.found_eq (h : veil.Store tables twin) (clientId : Bytes) :
    (tables.clients.find? fun row ↦ row.id = clientId).map ClientRow.id =
      (twin.clients.find? fun row ↦ row.id = clientId).map ClientRow.id := by
  have hfound := h.find clientId
  revert hfound
  generalize tables.clients.find? (fun row ↦ decide (row.id = clientId)) = found
  generalize twin.clients.find? (fun row ↦ decide (row.id = clientId)) = other
  rintro (hrow | _)
  · exact congrArg some hrow.id
  · rfl

theorem Store.otherClients_eq (h : veil.Store tables twin) (clientId : Bytes) :
    tables.otherClients clientId = twin.otherClients clientId := by
  have hclients : List.Forall₂ Eq (tables.otherClients clientId) (twin.otherClients clientId) :=
    List.rel_map (fun _ _ hrow ↦ Prod.ext (Row.id hrow) (Row.userName hrow))
      (List.rel_filter (fun _ _ hrow ↦ by simp [Row.id hrow]) h.clients)
  rwa [List.forall₂_eq_eq_eq] at hclients

theorem Store.waitingFor (h : veil.Store tables twin) (clientId : Bytes) :
    List.Forall₂ veil.Message (tables.waitingFor clientId) (twin.waitingFor clientId) :=
  List.rel_map (fun _ _ hrow ↦ Entry.message hrow)
    (List.rel_filter (fun _ _ hrow ↦ by simp [Entry.toClient hrow]) h.messages)

/-- Two `INSERT`s of clients are both accepted or both refused. -/
theorem Store.insertClient (h : veil.Store tables twin) {row other : ClientRow}
    (hrow : veil.Row row other) :
    (∃ after twinAfter, tables.insertClient row = .ok after ∧
      twin.insertClient other = .ok twinAfter ∧
        veil.Store after twinAfter) ∨
      tables.insertClient row = .error .integrityError ∧
        twin.insertClient other = .error .integrityError := by
  have hids := h.ids_eq
  have hnames := h.userNames_eq
  unfold Tables.insertClient
  by_cases hid : row.id ∈ tables.clients.map ClientRow.id
  · exact .inr ⟨dif_pos hid, dif_pos (hids ▸ hrow.id ▸ hid)⟩
  have hotherId : other.id ∉ twin.clients.map ClientRow.id := hids ▸ hrow.id ▸ hid
  rw [dif_neg hid, dif_neg hotherId]
  by_cases hname : row.userName ∈ tables.clients.map ClientRow.userName
  · exact .inr ⟨dif_pos hname, dif_pos (hnames ▸ hrow.userName ▸ hname)⟩
  have hotherName : other.userName ∉ twin.clients.map ClientRow.userName :=
    hnames ▸ hrow.userName ▸ hname
  exact .inl ⟨_, _, dif_neg hname, dif_neg hotherName,
    ⟨List.rel_append h.clients (.cons hrow .nil), h.messages, h.sequence⟩⟩

theorem Store.updateLastSeen (h : veil.Store tables twin) (clientId : Bytes)
    (now later : Timestamp) :
    veil.Store (tables.updateLastSeen clientId now) (twin.updateLastSeen clientId later) := by
  refine ⟨List.rel_map (fun _ _ hrow ↦ ⟨?_, ?_, ?_⟩) h.clients, h.messages, h.sequence⟩
  · rw [ClientRow.touch_id, ClientRow.touch_id, Row.id hrow]
  · rw [ClientRow.touch_userName, ClientRow.touch_userName, Row.userName hrow]
  · rw [ClientRow.touch_publicKey, ClientRow.touch_publicKey]
    exact Row.key hrow

theorem Store.insertMessage (h : veil.Store tables twin) (toClient fromClient : Bytes) (type : ℕ)
    {content other : Bytes} (hcontent : veil.content content other) :
    veil.Store (tables.insertMessage toClient fromClient type content)
      (twin.insertMessage toClient fromClient type other) := by
  have hid := congrArg (· + 1) h.sequence
  exact ⟨h.clients, List.rel_append h.messages (.cons ⟨rfl, hid, rfl, rfl, hcontent⟩ .nil), hid⟩

theorem Store.deleteMessages (h : veil.Store tables twin) (ids : List ℕ) :
    veil.Store (tables.deleteMessages ids) (twin.deleteMessages ids) := by
  refine ⟨h.clients, List.rel_filter (fun _ _ hrow ↦ ?_) h.messages, h.sequence⟩
  have hid : _ = _ := Message.id (Entry.message hrow)
  rw [MessageRow.waiting_id, MessageRow.waiting_id] at hid
  simp [hid]

end Store

section Response

variable {veil : Veil}

/-- Related messages have the same numbers. -/
theorem messageIds_eq {messages twins : List WaitingMessage}
    (h : List.Forall₂ veil.Message messages twins) :
    messages.map WaitingMessage.id = twins.map WaitingMessage.id := by
  have hids := List.rel_map (P := Eq) (fun _ _ hmessage ↦ Message.id hmessage) h
  rwa [List.forall₂_eq_eq_eq] at hids

theorem Message.recordFits_iff {message twin : WaitingMessage} (h : veil.Message message twin) :
    RecordFits message ↔ RecordFits twin := by
  rw [RecordFits, RecordFits, h.id, h.type, veil.content_length h.content]

/-- Their records have the same size. -/
theorem records_length_eq {messages twins : List WaitingMessage}
    (h : List.Forall₂ veil.Message messages twins) :
    (messages.flatMap recordBytes).length = (twins.flatMap recordBytes).length := by
  induction h with
  | nil => rfl
  | cons hmessage _ ih =>
    rw [List.flatMap_cons, List.flatMap_cons, List.length_append, List.length_append, ih]
    simp only [recordBytes, List.length_append, littleEndian_length, hmessage.fromClient,
      veil.content_length hmessage.content]

theorem recordFits_forall_iff {messages twins : List WaitingMessage}
    (h : List.Forall₂ veil.Message messages twins) :
    (∀ message ∈ messages, RecordFits message) ↔ ∀ message ∈ twins, RecordFits message := by
  induction h with
  | nil => simp
  | cons hmessage _ ih =>
    rw [List.forall_mem_cons, List.forall_mem_cons, hmessage.recordFits_iff, ih]

/-- Two payloads of one size are framed both, or both are too long. -/
theorem caught_buildResponse_cases (code : ℕ) (hcode : code < 2 ^ 16) {payload other : Bytes}
    (hlength : payload.length = other.length) :
    (caught (buildResponse code payload) = responseFrame code payload ∧
        caught (buildResponse code other) = responseFrame code other) ∨
      caught (buildResponse code payload) = caught (buildResponse code other) := by
  rcases lt_or_ge payload.length (2 ^ 32) with hsize | hsize
  · exact .inl ⟨caught_buildResponse hcode hsize, caught_buildResponse hcode (hlength ▸ hsize)⟩
  · exact .inr ((caught_buildResponse_of_le hsize).trans
      (caught_buildResponse_of_le (hlength ▸ hsize)).symm)

theorem Response.records {messages twins : List WaitingMessage}
    (h : List.Forall₂ veil.Message messages twins) :
    veil.Response (caught (buildResponse responseWaitingMessages (messages.flatMap recordBytes)))
      (caught (buildResponse responseWaitingMessages (twins.flatMap recordBytes))) := by
  rcases caught_buildResponse_cases responseWaitingMessages (by simp) (records_length_eq h) with
    ⟨hfirst, hsecond⟩ | hsame
  · rw [hfirst, hsecond]
    exact .messages h
  · rw [hsame]
    exact .same _

theorem Response.publicKey {key other : Bytes} (h : veil.key key other) (id : Bytes) :
    veil.Response (caught (buildResponse responsePublicKey (id ++ key)))
      (caught (buildResponse responsePublicKey (id ++ other))) := by
  have hlength : (id ++ key).length = (id ++ other).length := by
    rw [List.length_append, List.length_append, veil.key_length h]
  rcases caught_buildResponse_cases responsePublicKey (by simp) hlength with
    ⟨hfirst, hsecond⟩ | hsame
  · rw [hfirst, hsecond]
    exact .key h
  · rw [hsame]
    exact .same _

/-- What an observer of the network sees of a response, which is its code and its size, is the
same. -/
theorem Response.traffic_eq {response twin : Bytes} (h : veil.Response response twin) :
    responseCode response = responseCode twin ∧ response.length = twin.length := by
  have hframe : ∀ {code : ℕ}, code < 2 ^ 16 → ∀ {payload other : Bytes},
      payload.length = other.length →
        responseCode (responseFrame code payload) = responseCode (responseFrame code other) ∧
          (responseFrame code payload).length = (responseFrame code other).length := by
    intro code hcode payload other hlength
    rw [responseCode_responseFrame hcode, responseCode_responseFrame hcode]
    refine ⟨rfl, ?_⟩
    simp only [responseFrame, List.length_append, littleEndian_length, hlength]
  cases h with
  | same => exact ⟨rfl, rfl⟩
  | @key id key other hkey =>
    exact hframe (by simp) (by rw [List.length_append, List.length_append, veil.key_length hkey])
  | messages hmessages => exact hframe (by simp) (records_length_eq hmessages)

end Response

/-! ### One call of a handler -/

/-- What has been checked of a request when its handler has come to a stage. -/
def Checked (data : Bytes) : Stage → Prop
  | .register => codeOf data = requestRegister ∧ ValidRegistration data
  | .findTarget => codeOf data = requestSendMessage
  | .storeMessage => codeOf data = requestSendMessage ∧ ValidMessage data
  | .findRequester | .touchRequester | .listClients | .fetchKey | .fetchMessages
  | .removeMessages _ => True

/-- Two handlers at the same stage. -/
inductive AtStage (veil : Veil) : Stage → Stage → Prop
  | plain {stage : Stage} (hplain : stage.Plain) : AtStage veil stage stage
  | removeMessages {messages twins : List WaitingMessage}
    (hmessages : List.Forall₂ veil.Message messages twins) :
    AtStage veil (.removeMessages messages) (.removeMessages twins)

/-- How two handlers go on. -/
inductive Goes (veil : Veil) (data : Bytes) : Progress → Progress → Prop
  | answer {response twin : Bytes} (hresponse : veil.Response response twin) :
    Goes veil data (.answer response) (.answer twin)
  | next {stage other : Stage} (hstage : veil.AtStage stage other) (hchecked : Checked data stage) :
    Goes veil data (.next stage) (.next other)

theorem goes_error (veil : Veil) (data : Bytes) :
    veil.Goes data (.answer errorResponse) (.answer errorResponse) :=
  .answer (.same _)

/-- A stage without messages. -/
theorem goes_next (veil : Veil) {data : Bytes} {stage : Stage} (hplain : stage.Plain)
    (hchecked : Checked data stage) : veil.Goes data (.next stage) (.next stage) :=
  .next (.plain hplain) hchecked

section Call

variable {veil : Veil} {data twin : Bytes}

theorem goes_start (h : veil.Request data twin) : veil.Goes data (start data) (start twin) := by
  rw [← h.start_eq]
  cases hstart : start data with
  | answer response => exact .answer (.same response)
  | next stage =>
    unfold start at hstart
    split_ifs at hstart with hheader hcode hvalid
    · cases hstart
      exact goes_next veil (fun _ heq ↦ by cases heq) ⟨hcode, hvalid⟩
    · cases hstart
      exact goes_next veil (fun _ heq ↦ by cases heq) trivial

theorem goes_routed (h : veil.Request data twin) : veil.Goes data (routed data) (routed twin) := by
  rw [← h.routed_eq]
  unfold routed
  split_ifs with _ _ _ _ _ _ hsend
  all_goals first
    | exact goes_error veil data
    | exact goes_next veil (fun _ heq ↦ by cases heq) trivial
    | exact goes_next veil (fun _ heq ↦ by cases heq) hsend

theorem goes_selected {messages twins : List WaitingMessage}
    (h : List.Forall₂ veil.Message messages twins) (data : Bytes) :
    veil.Goes data (selected messages) (selected twins) := by
  unfold selected
  by_cases hfits : ∀ message ∈ messages, RecordFits message
  · rw [if_pos hfits, if_pos ((recordFits_forall_iff h).mp hfits)]
    exact .next (.removeMessages h) trivial
  · rw [if_neg hfits, if_neg fun htwin ↦ hfits ((recordFits_forall_iff h).mpr htwin)]
    exact goes_error veil data

/-- The effects of a call that two handlers make at one stage, and how they go on. -/
structure Called (veil : Veil) (data : Bytes) (first second : Tables × Progress) : Prop where
  store : veil.Store first.1 second.1
  goes : veil.Goes data first.2 second.2

/-- A call and what its handler does with the result. -/
def callAt (limit : Option ℕ) (fault : Bool) (tables : Tables) (data : Bytes) (ambient : Ambient)
    (stage : Stage) : Tables × Progress :=
  let result := (stage.call data ambient).perform limit fault tables
  (result.1, stage.resume data ambient result.2)

theorem callAt_of_exec {limit : Option ℕ} {tables : Tables} {ambient : Ambient} {stage : Stage}
    {result : Tables × Except PyError (stage.call data ambient).Result}
    (h : (stage.call data ambient).exec limit tables = result) :
    callAt limit false tables data ambient stage =
      (result.1, stage.resume data ambient result.2) := by
  subst h
  rfl

section Stages

variable {limit : Option ℕ} {tables other : Tables} {ambient ambientTwin : Ambient}

theorem called_register (htables : veil.Store tables other) (h : veil.Request data twin)
    (htoken : ambient.token = ambientTwin.token) (hchecked : Checked data .register) :
    veil.Called data (callAt limit false tables data ambient .register)
      (callAt limit false other twin ambientTwin .register) := by
  rw [callAt_of_exec (exec_addClient limit tables _ _ _ _),
    callAt_of_exec (exec_addClient limit other _ _ _ _)]
  obtain ⟨hcode, hvalid⟩ := hchecked
  have hrow : veil.Row ⟨ambient.token, rawNameOf data, publicKeyOf data, ambient.now⟩
      ⟨ambientTwin.token, rawNameOf twin, publicKeyOf twin, ambientTwin.now⟩ :=
    ⟨htoken, h.rawNameOf_eq hcode, h.publicKeyOf hcode hvalid⟩
  rcases htables.insertClient hrow with
    ⟨after, otherAfter, hfirst, hsecond, hafter⟩ | ⟨hfirst, hsecond⟩
  · rw [hfirst, hsecond]
    refine ⟨hafter, ?_⟩
    show veil.Goes data (.answer (responseFrame responseRegister ambient.token))
      (.answer (responseFrame responseRegister ambientTwin.token))
    rw [← htoken]
    exact .answer (.same _)
  · rw [hfirst, hsecond]
    exact ⟨htables, goes_error veil data⟩

theorem called_fetchKey (htables : veil.Store tables other) (h : veil.Request data twin) :
    veil.Called data (callAt limit false tables data ambient .fetchKey)
      (callAt limit false other twin ambientTwin .fetchKey) := by
  rw [callAt_of_exec (exec_getPublicKeyById limit tables _),
    callAt_of_exec (exec_getPublicKeyById limit other _), ← h.requestedIdOf_eq]
  refine ⟨htables, ?_⟩
  have hfound := htables.find (requestedIdOf data)
  revert hfound
  generalize tables.clients.find? (fun row ↦ decide (row.id = requestedIdOf data)) = found
  generalize other.clients.find? (fun row ↦ decide (row.id = requestedIdOf data)) = foundTwin
  intro hfound
  cases hfound with
  | none => exact goes_error veil data
  | @some row rowTwin hrow =>
    show veil.Goes data
      (if row.publicKey.length = publicKeySize then .answer (caught (buildResponse responsePublicKey
        (requestedIdOf data ++ row.publicKey))) else .answer errorResponse)
      (if rowTwin.publicKey.length = publicKeySize then
        .answer (caught (buildResponse responsePublicKey
        (requestedIdOf twin ++ rowTwin.publicKey))) else .answer errorResponse)
    rw [← veil.key_length hrow.key, ← h.requestedIdOf_eq]
    split_ifs
    · exact .answer (.publicKey hrow.key _)
    · exact goes_error veil data

theorem called_findTarget (htables : veil.Store tables other) (h : veil.Request data twin)
    (hchecked : Checked data .findTarget) :
    veil.Called data (callAt limit false tables data ambient .findTarget)
      (callAt limit false other twin ambientTwin .findTarget) := by
  rw [callAt_of_exec (exec_clientExists limit tables _),
    callAt_of_exec (exec_clientExists limit other _), ← h.requestedIdOf_eq, ← htables.found_eq]
  refine ⟨htables, ?_⟩
  cases (tables.clients.find? fun row ↦ row.id = requestedIdOf data).map ClientRow.id with
  | none => exact goes_error veil data
  | some found =>
    show veil.Goes data (if ValidMessage data then .next .storeMessage else .answer errorResponse)
      (if ValidMessage twin then .next .storeMessage else .answer errorResponse)
    rw [if_congr h.validMessage_iff.symm rfl rfl]
    split_ifs with hvalid
    · exact goes_next veil (fun _ heq ↦ by cases heq) ⟨hchecked, hvalid⟩
    · exact goes_error veil data

theorem called_storeMessage (htables : veil.Store tables other) (h : veil.Request data twin)
    (hchecked : Checked data .storeMessage) :
    veil.Called data (callAt limit false tables data ambient .storeMessage)
      (callAt limit false other twin ambientTwin .storeMessage) := by
  obtain ⟨hcode, hvalid⟩ := hchecked
  rw [callAt_of_exec (exec_addMessage limit tables _ _ _ _),
    callAt_of_exec (exec_addMessage limit other _ _ _ _), ← h.requesterIdOf_eq,
    ← h.requestedIdOf_eq,
    ← h.messageTypeOf_eq, ← htables.sequence]
  refine ⟨htables.insertMessage _ _ _ (h.contentOf hcode hvalid), ?_⟩
  show veil.Goes data (.answer (sentResponse (requestedIdOf data) (tables.sequence + 1)))
    (.answer (sentResponse (requestedIdOf twin) (tables.sequence + 1)))
  rw [← h.requestedIdOf_eq]
  exact .answer (.same _)

end Stages

/-- Two handlers at the same stage make the same call. Assumes: the same ID has been drawn for the
two requests, in case they are registrations. -/
theorem called (limit : Option ℕ) (fault : Bool) {tables other : Tables}
    (htables : veil.Store tables other) (h : veil.Request data twin) {ambient ambientTwin : Ambient}
    (htoken : ambient.token = ambientTwin.token) {stage stageTwin : Stage}
    (hstage : veil.AtStage stage stageTwin) (hchecked : Checked data stage) :
    veil.Called data (callAt limit fault tables data ambient stage)
      (callAt limit fault other twin ambientTwin stageTwin) := by
  have herror := goes_error veil data
  cases fault with
  | true =>
    cases hstage with
    | plain hplain => cases stage <;> exact ⟨htables, herror⟩
    | removeMessages hmessages => exact ⟨htables, herror⟩
  | false =>
    have hrequester := h.requesterIdOf_eq
    cases hstage with
    | @removeMessages messages twins hmessages =>
      rw [callAt_of_exec (exec_deleteMessages limit tables _),
        callAt_of_exec (exec_deleteMessages limit other _), ← messageIds_eq hmessages]
      split_ifs
      · exact ⟨htables, herror⟩
      · exact ⟨htables.deleteMessages _, .answer (.records hmessages)⟩
    | plain hplain =>
      cases stage with
      | findRequester =>
        rw [callAt_of_exec (exec_clientExists limit tables _),
          callAt_of_exec (exec_clientExists limit other _), ← hrequester, ← htables.found_eq]
        refine ⟨htables, ?_⟩
        cases (tables.clients.find? fun row ↦ row.id = requesterIdOf data).map ClientRow.id with
        | none => exact herror
        | some found => exact goes_next veil (fun _ heq ↦ by cases heq) trivial
      | touchRequester =>
        rw [callAt_of_exec (exec_updateClientLastSeen limit tables _ _),
          callAt_of_exec (exec_updateClientLastSeen limit other _ _), ← hrequester]
        exact ⟨htables.updateLastSeen _ _ _, goes_routed h⟩
      | register => exact called_register htables h htoken hchecked
      | listClients =>
        rw [callAt_of_exec (exec_listClientsExcept limit tables _),
          callAt_of_exec (exec_listClientsExcept limit other _), ← hrequester]
        refine ⟨htables, ?_⟩
        show veil.Goes data (.answer (caught (buildResponse responseClientList
            (clientListPayload (tables.otherClients (requesterIdOf data))))))
          (.answer (caught (buildResponse responseClientList
            (clientListPayload (other.otherClients (requesterIdOf data))))))
        rw [htables.otherClients_eq]
        exact .answer (.same _)
      | fetchKey => exact called_fetchKey htables h
      | fetchMessages =>
        rw [callAt_of_exec (exec_getWaitingMessages limit tables _),
          callAt_of_exec (exec_getWaitingMessages limit other _), ← hrequester]
        exact ⟨htables, goes_selected (htables.waitingFor _) data⟩
      | removeMessages messages => exact absurd rfl (hplain messages)
      | findTarget => exact called_findTarget htables h hchecked
      | storeMessage => exact called_storeMessage htables h hchecked

end Call

/-! ### Runs -/

/-- Two events that differ in a request and in the clock. -/
inductive Happening (veil : Veil) : Event → Event → Prop
  | arrive (connection : ℕ) {request twin : Bytes} {ambient ambientTwin : Ambient}
    (hrequest : veil.Request request twin) (htoken : ambient.token = ambientTwin.token) :
    Happening veil (.arrive connection request ambient) (.arrive connection twin ambientTwin)
  | call (connection : ℕ) (fault : Bool) :
    Happening veil (.call connection fault) (.call connection fault)

/-- Two answers on the same connection. -/
structure Reply (veil : Veil) (answer twin : Answer) : Prop where
  connection : answer.connection = twin.connection
  request : veil.Request answer.request twin.request
  response : veil.Response answer.response twin.response

/-- Two connections whose handlers are at the same stage. -/
inductive SamePlace (veil : Veil) : Connection Staged → Connection Staged → Prop
  | idle : SamePlace veil .idle .idle
  | busy {request twin : Bytes} {ambient ambientTwin : Ambient} {stage stageTwin : Stage}
    (hrequest : veil.Request request twin) (htoken : ambient.token = ambientTwin.token)
    (hstage : veil.AtStage stage stageTwin) (hchecked : Checked request stage) :
    SamePlace veil (.busy request (ambient, stage)) (.busy twin (ambientTwin, stageTwin))
  | returned {request twin response responseTwin : Bytes} (hrequest : veil.Request request twin)
    (hresponse : veil.Response response responseTwin) :
    SamePlace veil (.returned request response) (.returned twin responseTwin)
  | stopped : SamePlace veil .stopped .stopped

/-- Two servers that have come equally far. -/
structure Abreast (veil : Veil) (server twin : ServerState Staged) : Prop where
  store : veil.Store server.tables twin.tables
  answered : List.Forall₂ veil.Reply server.answered twin.answered
  connections : ∀ connection,
    veil.SamePlace (server.connections connection) (twin.connections connection)

section Runs

variable {veil : Veil} {server twin : ServerState Staged}

/-- A call has had its effect. -/
theorem Abreast.afterCall (h : veil.Abreast server twin) {tables other : Tables}
    (hstore : veil.Store tables other) (row rowTwin : Option MessageRow) :
    veil.Abreast (server.afterCall tables row) (twin.afterCall other rowTwin) :=
  ⟨hstore, h.answered, h.connections⟩

/-- Two handlers go on. -/
theorem Abreast.settle (h : veil.Abreast server twin) (connection : ℕ) {request requestTwin : Bytes}
    (hrequest : veil.Request request requestTwin) {ambient ambientTwin : Ambient}
    (htoken : ambient.token = ambientTwin.token) {progress progressTwin : Progress}
    (hgoes : veil.Goes request progress progressTwin) :
    veil.Abreast (server.settle connection request (ServerState.stagedOutcome ambient progress))
      (twin.settle connection requestTwin
        (ServerState.stagedOutcome ambientTwin progressTwin)) := by
  have hconnections : ∀ {place placeTwin : Connection Staged}, veil.SamePlace place placeTwin →
      ∀ other, veil.SamePlace (Function.update server.connections connection place other)
        (Function.update twin.connections connection placeTwin other) := by
    intro place placeTwin hplace other
    by_cases hother : other = connection
    · subst hother
      rw [Function.update_self, Function.update_self]
      exact hplace
    · rw [Function.update_of_ne hother, Function.update_of_ne hother]
      exact h.connections other
  cases hgoes with
  | answer hresponse =>
    exact ⟨h.store, List.rel_append h.answered (.cons ⟨rfl, hrequest, hresponse⟩ .nil),
      hconnections (.returned hrequest hresponse)⟩
  | next hstage hchecked =>
    exact ⟨h.store, h.answered, hconnections (.busy hrequest htoken hstage hchecked)⟩

theorem Abreast.step (h : veil.Abreast server twin) (limit : Option ℕ) {event other : Event}
    (hevent : veil.Happening event other) :
    veil.Abreast (ServerState.stagedStep limit server event)
      (ServerState.stagedStep limit twin other) := by
  cases hevent with
  | @arrive connection request requestTwin ambient ambientTwin hrequest htoken =>
    have hplace := h.connections connection
    have hsettled := h.settle connection hrequest htoken (goes_start hrequest)
    simp only [ServerState.stagedStep]
    generalize server.connections connection = place at hplace
    generalize twin.connections connection = placeTwin at hplace
    cases hplace with
    | idle => exact hsettled
    | returned _ _ => exact hsettled
    | busy _ _ _ _ => exact h
    | stopped => exact h
  | call connection fault =>
    have hplace := h.connections connection
    simp only [ServerState.stagedStep]
    generalize server.connections connection = place at hplace
    generalize twin.connections connection = placeTwin at hplace
    cases hplace with
    | idle => exact h
    | returned _ _ => exact h
    | busy hrequest htoken hstage hchecked =>
      have hcalled := called limit fault h.store hrequest htoken hstage hchecked
      exact (h.afterCall hcalled.store _ _).settle connection hrequest htoken hcalled.goes
    | stopped => exact h

theorem abreast_initial (veil : Veil) : veil.Abreast (.initial Staged) (.initial Staged) where
  store := ⟨.nil, .nil, rfl⟩
  answered := .nil
  connections := fun _ ↦ .idle

end Runs

/-- What an observer of the network sees of the answers: the connection, the code and the size. -/
def traffic (answered : List Answer) : List (ℕ × ℕ × ℕ) :=
  answered.map fun answer ↦
    (answer.connection, responseCode answer.response, answer.response.length)

theorem traffic_eq {veil : Veil} {answered twins : List Answer}
    (h : List.Forall₂ veil.Reply answered twins) : traffic answered = traffic twins := by
  have hseen : List.Forall₂ Eq (traffic answered) (traffic twins) :=
    List.rel_map (fun _ _ hreply ↦ Prod.ext (Reply.connection hreply)
      (Prod.ext (Reply.response hreply).traffic_eq.1 (Reply.response hreply).traffic_eq.2)) h
  rwa [List.forall₂_eq_eq_eq] at hseen

/-- The server does not look into what it carries. Two runs in which the same requests come to the
same connections, up to the contents of messages and the keys of registrations, and the same calls
fail, give the same answers, up to these contents and keys, at the same moments; the tables differ
in the contents, the keys and the times at which clients were seen. An observer of the answers sees
no difference. Assumes: a content or a key of one run has the size of the one in the other run. -/
theorem answers_blind (veil : Veil) (limit : Option ℕ) {events twins : List Event}
    (h : List.Forall₂ veil.Happening events twins) :
    let server := runEvents (ServerState.step limit) (.initial Handler) events
    let twin := runEvents (ServerState.step limit) (.initial Handler) twins
    veil.Store server.tables twin.tables ∧ List.Forall₂ veil.Reply server.answered twin.answered ∧
      traffic server.answered = traffic twin.answered := by
  intro server twin
  have habreast : veil.Abreast (runEvents (ServerState.stagedStep limit) (.initial Staged) events)
      (runEvents (ServerState.stagedStep limit) (.initial Staged) twins) :=
    List.rel_foldl (P := veil.Abreast) (R := veil.Happening)
      (fun _ _ hservers _ _ hevent ↦ Abreast.step hservers limit hevent)
      (abreast_initial veil) h
  have hserver : server = ServerState.unstage _ := ServerState.run_unstage limit events
  have htwin : twin = ServerState.unstage _ := ServerState.run_unstage limit twins
  rw [hserver, htwin]
  exact ⟨habreast.store, habreast.answered, traffic_eq habreast.answered⟩

/-- Any contents and any keys, as long as they have one size. -/
def sizes : Veil where
  content first second := first.length = second.length
  key first second := first.length = second.length
  content_length := id
  key_length := id

theorem codeOf_take {data : Bytes} {size : ℕ} (hsize : codeOffset + codeSize ≤ size)
    (hlength : size ≤ data.length) : codeOf (data.take size) = codeOf data := by
  have hhead : codeOffset + codeSize ≤ (data.take size).length := by
    rw [List.length_take_of_le hlength]
    exact hsize
  rw [← codeOf_append hhead (data.drop size), List.take_append_drop]

/-- Two messages to send that agree in front of their contents. -/
theorem request_of_take {data twin : Bytes} (hcode : codeOf data = requestSendMessage)
    (hsize : minLen ≤ data.length) (hlength : data.length = twin.length)
    (hhead : data.take minLen = twin.take minLen) : sizes.Request data twin := by
  have hcontent : sizes.content (data.drop minLen) (twin.drop minLen) := by
    show (data.drop minLen).length = (twin.drop minLen).length
    rw [List.length_drop, List.length_drop, hlength]
  have hcodeHead := (codeOf_take (by decide) hsize).trans hcode
  rw [← List.take_append_drop minLen data, ← List.take_append_drop minLen twin, ← hhead]
  exact .message (List.length_take_of_le hsize) hcodeHead hcontent

/-- A request and itself. -/
theorem request_refl (data : Bytes) : sizes.Request data data := by
  by_cases hcarries : Carries data
  · rcases hcarries with ⟨hcode, hsize⟩ | ⟨hcode, hsize⟩
    · exact request_of_take hcode hsize rfl rfl
    · have hkey : sizes.key (data.drop keyOffset) (data.drop keyOffset) :=
        (rfl : (data.drop keyOffset).length = _)
      have hhead := Request.registration (List.length_take_of_le hsize)
        ((codeOf_take (by decide) hsize).trans hcode) hkey
      rwa [List.take_append_drop] at hhead
  · exact .same hcarries

theorem happening_refl (event : Event) : sizes.Happening event event := by
  cases event with
  | arrive connection request ambient => exact .arrive connection (request_refl request) rfl
  | call connection fault => exact .call connection fault

/-- A client registers, sends itself a letter and pulls. -/
def letterRun (content : Bytes) : List Event :=
  session 0 soloRegistration soloAmbient ++
    (.arrive 0 (soloSend content) soloAmbient :: (List.replicate 4 (.call 0 false) ++
      session 0 soloPull soloAmbient))

/-- Two letters of one byte. -/
theorem answers_blind_letter :
    traffic (runEvents (ServerState.step none) (.initial Handler) (letterRun [7])).answered =
      traffic (runEvents (ServerState.step none) (.initial Handler) (letterRun [8])).answered := by
  refine (answers_blind sizes none (List.rel_append ?_ (.cons ?_ ?_))).2.2
  · exact List.forall₂_same.mpr fun event _ ↦ happening_refl event
  · exact .arrive 0 (request_of_take (by decide) (by decide) rfl (by decide)) rfl
  · exact List.forall₂_same.mpr fun event _ ↦ happening_refl event

end Veil

end MessageU.Server
