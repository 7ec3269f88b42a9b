import Mathlib.Data.List.TakeWhile
import MessageU.Server.Concurrent

/-!
# The store invariant

What holds of the tables at every moment of every run that starts from empty tables, whatever
bytes arrive on whatever connections and however the handlers interleave. `Store` is the invariant
of the tables: every client row and every message row is well formed. It is not inductive on its
own, since a handler writes what it has validated before other handlers ran, so `Sound` adds that
every running handler is ready for the call it makes (`Stage.Ready`): a message about to be stored
has been validated and its two parties are registered.

`StageStep.store` and `StageStep.ready` are the step lemmas, one case for each thing a call can
do; that clients are never removed or renamed (`StageStep.identities`) is what keeps the handlers
of other connections ready.
-/

set_option autoImplicit false
set_option relaxedAutoImplicit false

namespace MessageU.Server

open Library

/-! ### Well-formed rows -/

/-- A client row as `register_handler` stores it. -/
structure ClientRow.WellFormed (row : ClientRow) : Prop where
  id : row.id.length = clientIdSize
  name_nonempty : row.userName ≠ []
  name_ascii : ∀ code ∈ row.userName, code < 128
  name_noNul : ∀ code ∈ row.userName, code ≠ 0
  name_length : row.userName.length ≤ nameSize
  publicKey : row.publicKey.length = publicKeySize

/-- A message row as `send_message_handler` stores it. -/
structure MessageRow.WellFormed (tables : Tables) (row : MessageRow) : Prop where
  toClient : tables.Registered row.toClient
  fromClient : tables.Registered row.fromClient
  type : row.type ∈ [symmetricKeyRequest, symmetricKeySend, textMessage]
  request_empty : row.type = symmetricKeyRequest → row.content = []

/-- Every row of the tables is well formed. -/
structure Store (tables : Tables) : Prop where
  clients : ∀ row ∈ tables.clients, row.WellFormed
  messages : ∀ row ∈ tables.messages, row.WellFormed tables

/-- Registered IDs have the length of an ID. -/
theorem Store.id_length {tables : Tables} (h : Store tables) {clientId : Bytes}
    (hregistered : tables.Registered clientId) : clientId.length = clientIdSize := by
  obtain ⟨row, hrow, rfl⟩ := List.mem_map.mp hregistered
  exact (h.clients row hrow).id

/-- The sender of a waiting message fills its field of a record. -/
theorem Store.fromClient_length {tables : Tables} (h : Store tables) {clientId : Bytes}
    {message : WaitingMessage} (hmessage : message ∈ tables.waitingFor clientId) :
    message.fromClient.length = clientIdSize := by
  obtain ⟨row, hrow, rfl⟩ := List.mem_map.mp hmessage
  exact h.id_length (h.messages row (List.mem_of_mem_filter hrow)).fromClient

/-- What never changes of the registered clients: ID, name and key. -/
def Tables.identities (tables : Tables) : List (Bytes × Bytes × Bytes) :=
  tables.clients.map fun row ↦ (row.id, row.userName, row.publicKey)

theorem Tables.registered_iff (tables : Tables) (clientId : Bytes) :
    tables.Registered clientId ↔ clientId ∈ tables.identities.map Prod.fst := by
  rw [Registered, identities, List.map_map]
  rfl

/-- A client that is registered stays registered when no identity is removed. -/
theorem Tables.Registered.of_extends {tables after : Tables} {clientId : Bytes}
    (h : tables.Registered clientId) (hextends : tables.identities <+: after.identities) :
    after.Registered clientId := by
  rw [Tables.registered_iff] at h ⊢
  exact (hextends.map Prod.fst).subset h

theorem MessageRow.WellFormed.of_extends {tables after : Tables} {row : MessageRow}
    (h : row.WellFormed tables) (hextends : tables.identities <+: after.identities) :
    row.WellFormed after :=
  ⟨h.toClient.of_extends hextends, h.fromClient.of_extends hextends, h.type, h.request_empty⟩

@[simp] theorem Tables.identities_updateLastSeen (tables : Tables) (clientId : Bytes)
    (now : Timestamp) : (tables.updateLastSeen clientId now).identities = tables.identities := by
  simp [identities, updateLastSeen]

theorem Tables.identities_insertClient {tables after : Tables} {row : ClientRow}
    (h : tables.insertClient row = .ok after) :
    after.identities = tables.identities ++ [(row.id, row.userName, row.publicKey)] := by
  rw [identities, (insertClient_eq_ok h).1, List.map_append]
  rfl

/-! ### What the handlers have validated -/

/-- What a handler has established before it makes the call of a stage. -/
def Stage.Ready (tables : Tables) (request : Bytes) : Stage → Prop
  | .findRequester => True
  | .register => ValidRegistration request
  | .storeMessage =>
    tables.Registered (requesterIdOf request) ∧ tables.Registered (requestedIdOf request) ∧
      ValidMessage request
  | .fetchMessages =>
    tables.Registered (requesterIdOf request) ∧ codeOf request = requestWaitingMessages
  | .removeMessages messages =>
    tables.Registered (requesterIdOf request) ∧ codeOf request = requestWaitingMessages ∧
      ∀ message ∈ messages, Encodable message
  | .touchRequester | .listClients | .fetchKey | .findTarget =>
    tables.Registered (requesterIdOf request)

/-- What a handler has established when it goes on. -/
def Progress.Ready (tables : Tables) (request : Bytes) : Progress → Prop
  | .answer _ => True
  | .next stage => stage.Ready tables request

theorem Stage.Ready.of_extends {tables after : Tables} {request : Bytes} {stage : Stage}
    (h : stage.Ready tables request) (hextends : tables.identities <+: after.identities) :
    stage.Ready after request := by
  cases stage with
  | findRequester => trivial
  | register => exact h
  | storeMessage => exact ⟨h.1.of_extends hextends, h.2.1.of_extends hextends, h.2.2⟩
  | fetchMessages => exact ⟨h.1.of_extends hextends, h.2⟩
  | removeMessages messages => exact ⟨h.1.of_extends hextends, h.2⟩
  | _ => exact Tables.Registered.of_extends h hextends

/-- The name field of a registration has no zero byte before its end. -/
theorem rawNameOf_noNul (data : Bytes) : ∀ code ∈ rawNameOf data, code ≠ 0 := by
  intro code hcode
  simpa using List.mem_takeWhile_imp hcode

theorem rawNameOf_length_le (data : Bytes) : (rawNameOf data).length ≤ nameSize :=
  (List.takeWhile_sublist _).length_le.trans (slice_length_le data headerSize nameSize)

/-- A valid registration is stored as a well-formed row. -/
theorem ValidRegistration.wellFormed {data : Bytes} (h : ValidRegistration data)
    (ambient : Ambient) :
    ClientRow.WellFormed ⟨ambient.token, rawNameOf data, publicKeyOf data, ambient.now⟩ where
  id := ambient.token_length
  name_nonempty := h.nonempty
  name_ascii := fun code hcode ↦ by simpa using List.all_eq_true.mp h.ascii code hcode
  name_noNul := rawNameOf_noNul data
  name_length := rawNameOf_length_le data
  publicKey := slice_length (by rw [h.size])

/-! ### One call -/

section Call

variable {tables after : Tables} {request : Bytes} {ambient : Ambient} {stage : Stage}
  {row : Option MessageRow} {progress : Progress}

/-- A call removes, renames or rekeys no client. -/
theorem StageStep.identities (h : StageStep tables request ambient stage after row progress) :
    tables.identities <+: after.identities := by
  cases h with
  | requesterTouched => exact (Tables.identities_updateLastSeen _ _ _).symm ▸ List.prefix_rfl
  | registered hinsert =>
    rw [Tables.identities_insertClient hinsert]
    exact List.prefix_append _ _
  | _ => exact List.prefix_rfl

/-- A call keeps every row well formed. -/
theorem StageStep.store (h : StageStep tables request ambient stage after row progress)
    (hstore : Store tables) (hready : stage.Ready tables request) : Store after := by
  have hextends := h.identities
  have hkeep : after.messages = tables.messages → ∀ row ∈ after.messages, row.WellFormed after :=
    fun hsame row hrow ↦ (hstore.messages row (hsame ▸ hrow)).of_extends hextends
  cases h with
  | requesterTouched =>
    refine ⟨fun row hrow ↦ ?_, hkeep rfl⟩
    obtain ⟨old, hold, rfl⟩ := List.mem_map.mp hrow
    have hwell := hstore.clients old hold
    unfold ClientRow.touch
    split_ifs
    · exact ⟨hwell.id, hwell.name_nonempty, hwell.name_ascii, hwell.name_noNul,
        hwell.name_length, hwell.publicKey⟩
    · exact hwell
  | registered hinsert =>
    obtain ⟨hclients, hmessages, -, -, -⟩ := Tables.insertClient_eq_ok hinsert
    refine ⟨fun row hrow ↦ ?_, hkeep hmessages⟩
    rw [hclients] at hrow
    rcases List.mem_append.mp hrow with hold | hnew
    · exact hstore.clients row hold
    · rw [List.mem_singleton.mp hnew]
      exact ValidRegistration.wellFormed hready ambient
  | messagesRemoved messages =>
    exact ⟨hstore.clients, fun row hrow ↦
      (hstore.messages row (List.mem_of_mem_filter hrow)).of_extends hextends⟩
  | messageStored =>
    refine ⟨hstore.clients, fun row hrow ↦ ?_⟩
    rcases List.mem_append.mp hrow with hold | hnew
    · exact (hstore.messages row hold).of_extends hextends
    · rw [List.mem_singleton.mp hnew]
      exact ⟨hready.2.1, hready.1, hready.2.2.type, fun htype ↦ by
        rw [contentOf, hready.2.2.request_empty htype, slice, List.take_zero]⟩
  | _ => exact hstore

/-- A row is inserted with the next ID, and its parties are registered. -/
theorem StageStep.inserted (h : StageStep tables request ambient stage after row progress)
    (hready : stage.Ready tables request) {inserted : MessageRow} (hrow : row = some inserted) :
    inserted.id = tables.sequence + 1 ∧ after.sequence = tables.sequence + 1 ∧
      inserted.WellFormed after := by
  cases h with
  | messageStored =>
    cases hrow
    exact ⟨rfl, rfl, hready.2.1, hready.1, hready.2.2.type, fun htype ↦ by
      rw [contentOf, hready.2.2.request_empty htype, slice, List.take_zero]⟩
  | _ => cases hrow

/-- The rows of the table stay among the rows ever inserted. -/
theorem StageStep.messages_inserted
    (h : StageStep tables request ambient stage after row progress) {inserted : List MessageRow}
    (hinserted : tables.messages.Sublist inserted) :
    after.messages.Sublist (inserted ++ row.toList) := by
  have hkeep : tables.messages.Sublist (inserted ++ []) := by rwa [List.append_nil]
  cases h with
  | registered hinsert =>
    rw [(Tables.insertClient_eq_ok hinsert).2.1]
    exact hkeep
  | messagesRemoved messages => exact List.filter_sublist.trans hkeep
  | messageStored => exact hinserted.append (List.Sublist.refl _)
  | _ => exact hkeep

/-- IDs are never taken back. -/
theorem StageStep.sequence_le (h : StageStep tables request ambient stage after row progress) :
    tables.sequence ≤ after.sequence := by
  cases h with
  | registered hinsert => rw [(Tables.insertClient_eq_ok hinsert).2.2.1]
  | messageStored => exact Nat.le_succ _
  | _ => exact le_rfl

/-- A handler goes on only with what the next call needs established. -/
theorem StageStep.ready (h : StageStep tables request ambient stage after row progress)
    (hstore : Store tables) (hready : stage.Ready tables request) :
    progress.Ready after request := by
  have hextends := h.identities
  cases h with
  | requesterFound hrequester => exact hrequester
  | requesterTouched =>
    have hrequester := Tables.Registered.of_extends hready hextends
    unfold routed
    split_ifs with hlist hlistSize hkey hkeySize hwaiting
    all_goals first | exact hrequester | exact ⟨hrequester, hwaiting⟩ | trivial
  | messagesFetched =>
    unfold selected
    split_ifs with hfits
    · refine ⟨hready.1, hready.2, fun message hmessage ↦ ?_⟩
      obtain ⟨hid, htype, hsize⟩ := hfits message hmessage
      exact ⟨hstore.fromClient_length hmessage, hid, htype, hsize⟩
    · trivial
  | targetFound htarget hvalid => exact ⟨hready, htarget, hvalid⟩
  | _ => trivial

end Call

/-- A request begins with nothing established, or as a valid registration. -/
theorem start_ready (tables : Tables) (request : Bytes) : (start request).Ready tables request := by
  unfold start
  split_ifs with hvalid hcode hregistration
  · exact hregistration
  · trivial
  · trivial
  · trivial

/-! ### Response codes -/

/-- A built response has the code it was built with or is the general error. -/
theorem responseCode_caught_buildResponse {code : ℕ} (hcode : code < 2 ^ 16) (payload : Bytes) :
    responseCode (caught (buildResponse code payload)) = code ∨
      caught (buildResponse code payload) = errorResponse := by
  by_cases hsize : payload.length < 2 ^ 32
  · left
    rw [caught_buildResponse hcode hsize, responseCode_responseFrame hcode]
  · exact .inr (caught_buildResponse_of_le (not_lt.mp hsize))

/-- The response to a stored message, when its ID fits its field. -/
theorem sentResponse_eq {requestedId : Bytes} {msgId : ℕ} (hid : msgId < 2 ^ 32)
    (hrequested : requestedId.length ≤ clientIdSize) :
    sentResponse requestedId msgId =
      responseFrame responseMessageSent (requestedId ++ littleEndian messageId msgId) := by
  have hbytes : toBytes msgId messageId = .ok (littleEndian messageId msgId) := if_pos hid
  have hsize : (requestedId ++ littleEndian messageId msgId).length < 2 ^ 32 := by
    rw [List.length_append, littleEndian_length]
    simp only [clientIdSize, messageId] at *
    omega
  rw [sentResponse, hbytes]
  exact caught_buildResponse (by simp) hsize

/-- The response to a stored message whose ID does not fit is the general error. -/
theorem sentResponse_eq_error {requestedId : Bytes} {msgId : ℕ} (hid : 2 ^ 32 ≤ msgId) :
    sentResponse requestedId msgId = errorResponse := by
  have hbytes : toBytes msgId messageId = .error .overflowError := if_neg (not_lt.mpr hid)
  rw [sentResponse, hbytes]
  rfl

theorem requestedIdOf_length_le (data : Bytes) : (requestedIdOf data).length ≤ clientIdSize :=
  slice_length_le data headerSize clientIdSize

/-- The response to a stored message is a `2103` or the general error. -/
theorem responseCode_sentResponse (data : Bytes) (msgId : ℕ) :
    responseCode (sentResponse (requestedIdOf data) msgId) = responseMessageSent ∨
      sentResponse (requestedIdOf data) msgId = errorResponse := by
  by_cases hid : msgId < 2 ^ 32
  · left
    rw [sentResponse_eq hid (requestedIdOf_length_le data), responseCode_responseFrame (by simp)]
  · exact .inr (sentResponse_eq_error (not_lt.mp hid))

/-- The names whose registration was answered with `2100`, in the order of the answers. -/
def registeredNames (answers : List Answer) : List Bytes :=
  (answers.filter fun answer ↦ responseCode answer.response = responseRegister).map
    fun answer ↦ rawNameOf answer.request

theorem registeredNames_append (first second : List Answer) :
    registeredNames (first ++ second) = registeredNames first ++ registeredNames second := by
  rw [registeredNames, List.filter_append, List.map_append]
  rfl

/-- An answer with another code registers nobody. -/
theorem registeredNames_singleton_of_ne {connection : ℕ} {request response : Bytes}
    (h : responseCode response ≠ responseRegister) :
    registeredNames [⟨connection, request, response⟩] = [] := by
  rw [registeredNames, List.filter_cons_of_neg]
  · rfl
  · exact fun heq ↦ h (of_decide_eq_true heq)

/-- A response that can only have the code of its request or the general one registers nobody. -/
theorem registeredNames_of_code {connection code : ℕ} {request response : Bytes}
    (h : responseCode response = code ∨ response = errorResponse)
    (hcode : code ≠ responseRegister) :
    registeredNames [⟨connection, request, response⟩] = [] := by
  refine registeredNames_singleton_of_ne ?_
  rcases h with heq | heq
  · rwa [heq]
  · rw [heq, responseCode_errorResponse]
    simp

/-- A client row is added exactly by a registration that is answered with `2100`. -/
theorem StageStep.names {tables after : Tables} {request : Bytes} {ambient : Ambient}
    {stage : Stage} {row : Option MessageRow} {progress : Progress}
    (h : StageStep tables request ambient stage after row progress) (connection : ℕ) :
    after.clients.map ClientRow.userName =
      tables.clients.map ClientRow.userName ++
        registeredNames (progress.answers connection request) := by
  have hnone : ∀ {code : ℕ} {response : Bytes}, code ≠ responseRegister →
      responseCode response = code ∨ response = errorResponse →
      tables.clients.map ClientRow.userName = tables.clients.map ClientRow.userName ++
        registeredNames (Progress.answers connection request (.answer response)) := by
    intro code response hcode hresponse
    rw [Progress.answers, registeredNames_of_code hresponse hcode, List.append_nil]
  have hgoing : ∀ progress : Progress, (∀ response, progress = .answer response →
        response = errorResponse) →
      tables.clients.map ClientRow.userName = tables.clients.map ClientRow.userName ++
        registeredNames (progress.answers connection request) := by
    intro progress herror
    cases progress with
    | answer response =>
      exact hnone (by simp) (.inr (herror response rfl) : responseCode response = errorGeneral ∨ _)
    | next stage => exact (List.append_nil _).symm
  cases h with
  | failed => exact hgoing _ fun response h ↦ by cases h; rfl
  | requesterFound => exact hgoing _ fun response h ↦ by cases h
  | requesterTouched =>
    rw [Tables.updateLastSeen, List.map_map,
      List.map_congr_left (g := ClientRow.userName) fun row _ ↦ by simp]
    exact hgoing _ fun response ↦ routed_answer
  | registered hinsert =>
    rw [(Tables.insertClient_eq_ok hinsert).1, List.map_append, Progress.answers,
      registeredNames, List.filter_cons_of_pos (by
        rw [decide_eq_true_iff, responseCode_responseFrame (by simp)])]
    rfl
  | clientsListed => exact hnone (by simp) (responseCode_caught_buildResponse (by simp) _)
  | keyFetched => exact hnone (by simp) (responseCode_caught_buildResponse (by simp) _)
  | messagesFetched =>
    refine hgoing _ fun response h ↦ ?_
    unfold selected at h
    split_ifs at h
    cases h
    rfl
  | messagesRemoved => exact hnone (by simp) (responseCode_caught_buildResponse (by simp) _)
  | targetFound => exact hgoing _ fun response h ↦ by cases h
  | messageStored => exact hnone (by simp) (responseCode_sentResponse request _)

/-! ### Whole runs -/

namespace ServerState

/-- What holds at every moment of every run of the stages. -/
structure Sound (server : ServerState Staged) : Prop where
  store : Store server.tables
  ready : ∀ connection request ambient stage,
    server.connections connection = .busy request (ambient, stage) →
      stage.Ready server.tables request
  messages_inserted : server.tables.messages.Sublist server.inserted
  inserted_increasing : (server.inserted.map MessageRow.id).Pairwise (· < ·)
  inserted_le : ∀ row ∈ server.inserted, row.id ≤ server.tables.sequence
  inserted_wellFormed : ∀ row ∈ server.inserted, row.WellFormed server.tables
  names : registeredNames server.answered = server.tables.clients.map ClientRow.userName

theorem sound_initial : Sound (initial Staged) where
  store := ⟨fun _ h ↦ absurd h List.not_mem_nil, fun _ h ↦ absurd h List.not_mem_nil⟩
  ready := fun _ _ _ _ h ↦ by cases h
  messages_inserted := List.Sublist.slnil
  inserted_increasing := List.Pairwise.nil
  inserted_le := fun _ h ↦ absurd h List.not_mem_nil
  inserted_wellFormed := fun _ h ↦ absurd h List.not_mem_nil
  names := rfl

/-- A request that arrives keeps the server sound. -/
theorem Sound.arrive {server : ServerState Staged} (h : Sound server) (connection : ℕ)
    (request : Bytes) (ambient : Ambient) :
    Sound (server.settle connection request (stagedOutcome ambient (start request))) where
  store := by rw [settle_tables]; exact h.store
  ready := fun other otherRequest otherAmbient stage hbusy ↦ by
    rw [settle_tables]
    rcases busy_of_settle hbusy with ⟨-, hold⟩ | ⟨-, rfl, -, hstart⟩
    · exact h.ready other otherRequest otherAmbient stage hold
    · have hready := start_ready server.tables otherRequest
      rwa [hstart] at hready
  messages_inserted := by rw [settle_tables, settle_inserted]; exact h.messages_inserted
  inserted_increasing := by rw [settle_inserted]; exact h.inserted_increasing
  inserted_le := by rw [settle_tables, settle_inserted]; exact h.inserted_le
  inserted_wellFormed := by rw [settle_tables, settle_inserted]; exact h.inserted_wellFormed
  names := by
    have hnone : registeredNames ((start request).answers connection request) = [] := by
      unfold start
      split_ifs
      · rfl
      · exact registeredNames_singleton_of_ne (by simp)
      · rfl
      · exact registeredNames_singleton_of_ne (by simp)
    rw [settle_tables, settle_answered, registeredNames_append, hnone, List.append_nil]
    exact h.names

/-- A call of a running handler keeps the server sound. -/
theorem Sound.call {server : ServerState Staged} (h : Sound server) {connection : ℕ}
    {request : Bytes} {ambient : Ambient} {stage : Stage} {after : Tables}
    {row : Option MessageRow} {progress : Progress}
    (hbusy : server.connections connection = .busy request (ambient, stage))
    (hstep : StageStep server.tables request ambient stage after row progress) :
    Sound ((server.afterCall after row).settle connection request
      (stagedOutcome ambient progress)) := by
  have hready := h.ready connection request ambient stage hbusy
  have hextends := hstep.identities
  have hrow : ∀ inserted ∈ row.toList, inserted.id = server.tables.sequence + 1 ∧
      after.sequence = server.tables.sequence + 1 ∧ inserted.WellFormed after :=
    fun inserted hmem ↦ hstep.inserted hready (Option.mem_toList.mp hmem)
  have htables : ((server.afterCall after row).settle connection request
      (stagedOutcome ambient progress)).tables = after := settle_tables _ _ _ _
  have hinserted : ((server.afterCall after row).settle connection request
      (stagedOutcome ambient progress)).inserted = server.inserted ++ row.toList :=
    settle_inserted _ _ _ _
  refine ⟨?_, ?_, ?_, ?_, ?_, ?_, ?_⟩
  · rw [htables]
    exact hstep.store h.store hready
  · intro other otherRequest otherAmbient otherStage hother
    rw [htables]
    rcases busy_of_settle hother with ⟨-, hold⟩ | ⟨-, rfl, -, hnext⟩
    · exact (h.ready other otherRequest otherAmbient otherStage hold).of_extends hextends
    · have hgoing := hstep.ready h.store hready
      rwa [hnext] at hgoing
  · rw [htables, hinserted]
    exact hstep.messages_inserted h.messages_inserted
  · rw [hinserted, List.map_append, List.pairwise_append]
    refine ⟨h.inserted_increasing, ?_, ?_⟩
    · cases row with
      | none => exact List.Pairwise.nil
      | some inserted => exact List.pairwise_singleton _ _
    · intro old hold new hnew
      obtain ⟨oldRow, holdRow, rfl⟩ := List.mem_map.mp hold
      obtain ⟨newRow, hnewRow, rfl⟩ := List.mem_map.mp hnew
      rw [(hrow newRow hnewRow).1]
      exact Nat.lt_succ_of_le (h.inserted_le oldRow holdRow)
  · intro inserted hmem
    rw [htables]
    rw [hinserted] at hmem
    rcases List.mem_append.mp hmem with hold | hnew
    · exact (h.inserted_le inserted hold).trans hstep.sequence_le
    · obtain ⟨hid, hsequence, -⟩ := hrow inserted hnew
      rw [hid, hsequence]
  · intro inserted hmem
    rw [htables]
    rw [hinserted] at hmem
    rcases List.mem_append.mp hmem with hold | hnew
    · exact (h.inserted_wellFormed inserted hold).of_extends hextends
    · exact (hrow inserted hnew).2.2
  · rw [htables, settle_answered, registeredNames_append, hstep.names connection, ← h.names]
    rfl

/-- Every event keeps the server sound. -/
theorem Sound.step {server : ServerState Staged} (h : Sound server) (limit : Option ℕ)
    (event : Event) : Sound (stagedStep limit server event) :=
  stagedStep_cases limit server event h (fun connection request ambient _ _ ↦
    h.arrive connection request ambient) fun _ _ _ _ _ _ _ _ _ hbusy hstep ↦ h.call hbusy hstep

/-- Every run from empty tables ends in a sound server. -/
theorem sound_run (limit : Option ℕ) (events : List Event) :
    Sound (runEvents (stagedStep limit) (initial Staged) events) :=
  runEvents_invariant (P := Sound) (fun _ event h ↦ h.step limit event) sound_initial events

/-- No event removes, renames or rekeys a client. -/
theorem identities_step (limit : Option ℕ) (server : ServerState Staged) (event : Event) :
    server.tables.identities <+: (stagedStep limit server event).tables.identities := by
  refine stagedStep_cases (motive := fun after ↦
    server.tables.identities <+: after.tables.identities) limit server event List.prefix_rfl
    (fun _ _ _ _ _ ↦ ?_) fun _ _ _ _ _ _ _ _ _ _ hstep ↦ ?_
  · exact (settle_tables server _ _ _).symm ▸ List.prefix_rfl
  · rw [settle_tables]
    exact hstep.identities

/-- No run removes, renames or rekeys a client. -/
theorem identities_run (limit : Option ℕ) (server : ServerState Staged) (events : List Event) :
    server.tables.identities <+:
      (runEvents (stagedStep limit) server events).tables.identities :=
  runEvents_related (R := fun before after ↦ before.tables.identities <+:
    after.tables.identities) (fun _ ↦ List.prefix_rfl) List.IsPrefix.trans
    (identities_step limit) server events

/-- In a list of distinct names, one name is answered for at most once. -/
theorem length_filter_le_one {answers : List Answer} (h : (registeredNames answers).Nodup)
    (name : Bytes) :
    (answers.filter fun answer ↦ rawNameOf answer.request = name ∧
      responseCode answer.response = responseRegister).length ≤ 1 := by
  have hcount : (answers.filter fun answer ↦ rawNameOf answer.request = name ∧
      responseCode answer.response = responseRegister).length =
        (registeredNames answers).count name := by
    rw [registeredNames, List.count, List.countP_map, List.countP_filter,
      List.countP_eq_length_filter]
    refine congrArg List.length (List.filter_congr fun answer _ ↦ ?_)
    rw [Bool.eq_iff_iff]
    simp
  rw [hcount]
  exact List.nodup_iff_count_le_one.mp h name

/-- The store invariant over whole runs. In every run from empty tables, over any number of
connections, any bytes, any interleaving of method calls and any failing calls: every row is well
formed, client IDs and user names are pairwise distinct, the ID, name and key of a registered client
are the same in every later state, message IDs are pairwise distinct, and the IDs ever assigned
increase in the order of the insertions, so that of the registrations of one name at most one is
answered with `2100`. -/
theorem store_invariant (limit : Option ℕ) (events later : List Event) (name : Bytes) :
    let server := runEvents (step limit) (initial Handler) events
    Store server.tables ∧
      (server.tables.clients.map ClientRow.id).Nodup ∧
      (server.tables.clients.map ClientRow.userName).Nodup ∧
      server.tables.identities <+:
        (runEvents (step limit) server later).tables.identities ∧
      (server.tables.messages.map MessageRow.id).Nodup ∧
      server.tables.messages.Sublist server.inserted ∧
      (server.inserted.map MessageRow.id).Pairwise (· < ·) ∧
      (server.answered.filter fun answer ↦ rawNameOf answer.request = name ∧
        responseCode answer.response = responseRegister).length ≤ 1 := by
  intro server
  have hview : server = (runEvents (stagedStep limit) (initial Staged) events).unstage :=
    run_unstage limit events
  have hlater : (runEvents (step limit) server later).tables =
      (runEvents (stagedStep limit) (runEvents (stagedStep limit) (initial Staged) events)
        later).tables := by
    rw [hview, runEvents_comm (step_unstage limit)]
    rfl
  have hsound := sound_run limit events
  have hnames : (registeredNames server.answered).Nodup := by
    rw [hview]
    exact hsound.names ▸ (unstage _).tables.userNames_nodup
  rw [hlater]
  rw [hview] at hnames ⊢
  exact ⟨hsound.store, Tables.clientIds_nodup _, Tables.userNames_nodup _,
    identities_run limit _ later, (Tables.messageIds_increasing _).imp fun h ↦ h.ne,
    hsound.messages_inserted, hsound.inserted_increasing, length_filter_le_one hnames name⟩

end ServerState

end MessageU.Server
