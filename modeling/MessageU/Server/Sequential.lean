import MessageU.Server.Requests
import MessageU.Server.StoreInvariant

/-!
# One request at a time

`serve` is `request_handler_main` run on tables that nothing else changes. `Progress.run` is the
same from any stage on, and `run_next` unfolds it by one call, so the effect of a request is read
off its stages (`serve_register`, `serve_requester`, `run_fetchMessages`, `run_findTarget`).

`session` is the same request as events of the concurrent server: it arrives at a free connection
and makes all its calls before anything else happens. `run_session` says that a session leaves the
tables and the answer that `serve` computes, so that whatever tables a sequence of requests leads to
are tables of a run (`Reachable.after_request`). `Reachable.flood` is the run that the limits of the
protocol are about: a client registers and sends itself any number of messages.
-/

set_option autoImplicit false
set_option relaxedAutoImplicit false

namespace MessageU.Server

open Library

/-- Answer a request on tables that nothing else changes. -/
def serve (limit : Option ℕ) (tables : Tables) (data : Bytes) (ambient : Ambient) :
    Tables × Except PyError Bytes :=
  (requestHandlerMain data ambient).run (DbCall.exec limit) tables

/-- Go on with a request on tables that nothing else changes. -/
def Progress.run (limit : Option ℕ) (data : Bytes) (ambient : Ambient) (progress : Progress)
    (tables : Tables) : Tables × Except PyError Bytes :=
  (progress.rest data ambient).run (DbCall.exec limit) tables

section Run

variable (limit : Option ℕ) (tables : Tables) (data : Bytes) (ambient : Ambient)

theorem serve_eq : serve limit tables data ambient =
    (start data).run limit data ambient tables := by
  rw [serve, requestHandlerMain_eq]
  rfl

@[simp] theorem run_answer (response : Bytes) :
    (Progress.answer response).run limit data ambient tables = (tables, .ok response) :=
  rfl

/-- A stage makes its call and goes on. -/
theorem run_next (stage : Stage) :
    (Progress.next stage).run limit data ambient tables =
      (stage.resume data ambient ((stage.call data ambient).exec limit tables).2).run limit data
        ambient ((stage.call data ambient).exec limit tables).1 := by
  rw [Progress.run, Progress.rest, Stage.rest_eq]
  rfl

/-! ### The handlers on tables of their own -/

/-- A request that fails the checks of the header is answered with the general error. -/
theorem serve_invalid (hvalid : ¬ValidHeader data) :
    serve limit tables data ambient = (tables, .ok errorResponse) := by
  rw [serve_eq, start, if_neg hvalid, run_answer]

/-- A registration adds its client, or changes nothing and is answered with the general error. -/
theorem serve_register (hvalid : ValidHeader data) (hcode : codeOf data = requestRegister) :
    serve limit tables data ambient =
      if ValidRegistration data then
        match tables.insertClient
          ⟨ambient.token, rawNameOf data, publicKeyOf data, ambient.now⟩ with
        | .ok after => (after, .ok (responseFrame responseRegister ambient.token))
        | .error _ => (tables, .ok errorResponse)
      else (tables, .ok errorResponse) := by
  rw [serve_eq, start, if_pos hvalid, if_pos hcode]
  split_ifs with hregistration
  · have hexec : (Stage.register.call data ambient).exec limit tables = _ :=
      exec_addClient limit tables ambient.token (rawNameOf data) (publicKeyOf data) ambient.now
    rw [run_next, hexec]
    cases tables.insertClient ⟨ambient.token, rawNameOf data, publicKeyOf data, ambient.now⟩ <;> rfl
  · rfl

/-- A request of a client that is not registered is answered with the general error. -/
theorem serve_unregistered (hvalid : ValidHeader data) (hcode : codeOf data ≠ requestRegister)
    (hrequester : ¬tables.Registered (requesterIdOf data)) :
    serve limit tables data ambient = (tables, .ok errorResponse) := by
  have hnone : (tables.clients.find? fun row ↦ row.id = requesterIdOf data).map ClientRow.id =
      none := by
    rw [← Option.not_isSome_iff_eq_none, find_client_isSome_iff]
    exact hrequester
  have hexec : (Stage.findRequester.call data ambient).exec limit tables = _ :=
    exec_clientExists limit tables (requesterIdOf data)
  rw [serve_eq, start, if_pos hvalid, if_neg hcode, run_next, hexec, hnone]
  rfl

/-- A request of a registered client first moves its `LastSeen`. -/
theorem serve_requester (hvalid : ValidHeader data) (hcode : codeOf data ≠ requestRegister)
    (hrequester : tables.Registered (requesterIdOf data)) :
    serve limit tables data ambient =
      (routed data).run limit data ambient
        (tables.updateLastSeen (requesterIdOf data) ambient.now) := by
  have hsome := (find_client_isSome_iff tables (requesterIdOf data)).mpr hrequester
  obtain ⟨found, hfound⟩ := Option.isSome_iff_exists.mp hsome
  have hexec : (Stage.findRequester.call data ambient).exec limit tables = _ :=
    exec_clientExists limit tables (requesterIdOf data)
  rw [serve_eq, start, if_pos hvalid, if_neg hcode, run_next, hexec, hfound]
  exact run_next limit tables data ambient .touchRequester

/-- A pull of messages: what is selected is deleted and sent, unless a number does not fit its field
or the messages are more than a statement can name. -/
theorem run_fetchMessages :
    (Progress.next .fetchMessages).run limit data ambient tables =
      if ∀ message ∈ tables.waitingFor (requesterIdOf data), RecordFits message then
        if limit.any (· < (tables.waitingFor (requesterIdOf data)).length) then
          (tables, .ok errorResponse)
        else
          (tables.deleteMessages ((tables.waitingFor (requesterIdOf data)).map WaitingMessage.id),
            .ok (caught (buildResponse responseWaitingMessages
              ((tables.waitingFor (requesterIdOf data)).flatMap recordBytes))))
      else (tables, .ok errorResponse) := by
  have hselected : (Progress.next .fetchMessages).run limit data ambient tables =
    (selected (tables.waitingFor (requesterIdOf data))).run limit data ambient tables :=
      run_next limit tables data ambient .fetchMessages
  generalize tables.waitingFor (requesterIdOf data) = messages at hselected ⊢
  rw [hselected, selected]
  have hexec : ((Stage.removeMessages messages).call data ambient).exec limit tables = _ :=
    exec_deleteMessages limit tables (messages.map WaitingMessage.id)
  rw [List.length_map] at hexec
  split_ifs with hfits hlimit
  · rw [run_next, hexec, if_pos hlimit]
    rfl
  · rw [run_next, hexec, if_neg hlimit]
    rfl
  · rfl

/-- A message to send: it is stored when its target is registered and it passes the checks. -/
theorem run_findTarget :
    (Progress.next .findTarget).run limit data ambient tables =
      if tables.Registered (requestedIdOf data) ∧ ValidMessage data then
        (tables.insertMessage (requestedIdOf data) (requesterIdOf data) (messageTypeOf data)
          (contentOf data), .ok (sentResponse (requestedIdOf data) (tables.sequence + 1)))
      else (tables, .ok errorResponse) := by
  have hexec : (Stage.findTarget.call data ambient).exec limit tables = _ :=
    exec_clientExists limit tables (requestedIdOf data)
  have hiff := find_client_isSome_iff tables (requestedIdOf data)
  rw [run_next, hexec]
  cases hfound : (tables.clients.find? fun row ↦ row.id = requestedIdOf data).map ClientRow.id with
  | none =>
    rw [hfound] at hiff
    rw [if_neg fun h ↦ Bool.false_ne_true (hiff.mpr h.1)]
    rfl
  | some found =>
    rw [hfound] at hiff
    have htarget : tables.Registered (requestedIdOf data) := hiff.mp rfl
    change Progress.run limit data ambient (if ValidMessage data then .next .storeMessage
      else .answer errorResponse) tables = _
    by_cases hvalid : ValidMessage data
    · rw [if_pos hvalid, if_pos ⟨htarget, hvalid⟩, run_next]
      rfl
    · rw [if_neg hvalid, if_neg fun h ↦ hvalid h.2]
      rfl

end Run

/-! ### A request as events of the server -/

/-- An upper bound for the calls that a request still makes at a stage. -/
def Stage.rank : Stage → ℕ
  | .findRequester => 4
  | .touchRequester => 3
  | .fetchMessages | .findTarget => 2
  | .register | .listClients | .fetchKey | .removeMessages _ | .storeMessage => 1

/-- An upper bound for the calls that a request still makes. -/
def Progress.rank : Progress → ℕ
  | .answer _ => 0
  | .next stage => stage.rank

/-- A call brings a request closer to its answer. -/
theorem resume_rank_lt (data : Bytes) (ambient : Ambient) (stage : Stage)
    (outcome : Except PyError (stage.call data ambient).Result) :
    (stage.resume data ambient outcome).rank < stage.rank := by
  cases stage with
  | findRequester =>
    rcases outcome with exception | _ | found
    · exact Nat.zero_lt_succ 3
    · exact Nat.zero_lt_succ 3
    · exact Nat.lt_succ_self 3
  | touchRequester =>
    rcases outcome with exception | _
    · exact Nat.zero_lt_succ 2
    · change (routed data).rank < 3
      unfold routed
      split_ifs <;> simp [Progress.rank, Stage.rank]
  | fetchMessages =>
    rcases outcome with exception | messages
    · exact Nat.zero_lt_succ 1
    · change (selected messages).rank < 2
      unfold selected
      split_ifs <;> simp [Progress.rank, Stage.rank]
  | findTarget =>
    rcases outcome with exception | _ | found
    · exact Nat.zero_lt_succ 1
    · exact Nat.zero_lt_succ 1
    · change (if ValidMessage data then Progress.next .storeMessage
        else .answer errorResponse).rank < 2
      split_ifs <;> simp [Progress.rank, Stage.rank]
  | fetchKey =>
    rcases outcome with exception | _ | publicKey
    · exact Nat.zero_lt_succ 0
    · exact Nat.zero_lt_succ 0
    · change (if publicKey.length = publicKeySize then Progress.answer _
        else .answer errorResponse).rank < 1
      split_ifs <;> exact Nat.zero_lt_succ 0
  | _ => rcases outcome with exception | result <;> exact Nat.zero_lt_succ 0

/-- A request that arrives at a connection and makes all its calls before anything else happens. -/
def session (connection : ℕ) (data : Bytes) (ambient : Ambient) : List Event :=
  .arrive connection data ambient :: List.replicate 4 (.call connection false)

namespace ServerState

/-- The server after a request has been answered. -/
def afterAnswer (server : ServerState Staged) (connection : ℕ) (data response : Bytes)
    (tables : Tables) (rows : List MessageRow) : ServerState Staged where
  tables := tables
  connections := Function.update server.connections connection (.returned data response)
  answered := server.answered ++ [⟨connection, data, response⟩]
  inserted := server.inserted ++ rows

/-- Calls of a connection whose handler has returned change nothing. -/
theorem run_replicate_returned {limit : Option ℕ} {server : ServerState Staged} {connection : ℕ}
    {data response : Bytes} (h : server.connections connection = .returned data response) (n : ℕ) :
    runEvents (stagedStep limit) server (List.replicate n (.call connection false)) = server := by
  have hstay : stagedStep limit server (.call connection false) = server := by
    simp only [stagedStep, h]
  induction n with
  | zero => rfl
  | succ n ih => rw [List.replicate_succ, runEvents_cons, hstay, ih]

/-- A handler that makes its remaining calls in a row answers as it does alone. -/
theorem run_calls (limit : Option ℕ) (data : Bytes) (ambient : Ambient) (connection : ℕ) (n : ℕ)
    (server : ServerState Staged) (progress : Progress) (hrank : progress.rank ≤ n) :
    ∃ response rows,
      (progress.run limit data ambient server.tables).2 = .ok response ∧
        runEvents (stagedStep limit)
            (server.settle connection data (stagedOutcome ambient progress))
            (List.replicate n (.call connection false)) =
          server.afterAnswer connection data response
            (progress.run limit data ambient server.tables).1 rows := by
  induction n generalizing server progress with
  | zero =>
    cases progress with
    | answer response => exact ⟨response, [], rfl, by simp [afterAnswer, settle, stagedOutcome]⟩
    | next stage => cases stage <;> exact absurd hrank (by simp [Progress.rank, Stage.rank])
  | succ n ih =>
    cases progress with
    | answer response =>
      refine ⟨response, [], rfl, ?_⟩
      have hreturned : (server.settle connection data
          (stagedOutcome ambient (.answer response))).connections connection =
            .returned data response := Function.update_self _ _ _
      rw [run_replicate_returned hreturned]
      simp [afterAnswer, settle, stagedOutcome]
    | next stage =>
      let settled := server.settle connection data (stagedOutcome ambient (.next stage))
      let result := (stage.call data ambient).exec limit server.tables
      let row := (stage.call data ambient).insertedRow result.2
      have hconnection : settled.connections connection = .busy data (ambient, stage) :=
        Function.update_self _ _ _
      have hstep : stagedStep limit settled (.call connection false) =
          (settled.afterCall result.1 row).settle connection data
            (stagedOutcome ambient (stage.resume data ambient result.2)) := by
        simp only [stagedStep, hconnection]
        rfl
      have hcloser := resume_rank_lt data ambient stage result.2
      have hnext : (stage.resume data ambient result.2).rank ≤ n := by
        change stage.rank ≤ n + 1 at hrank
        omega
      obtain ⟨response, rows, hresponse, hrun⟩ :=
        ih (settled.afterCall result.1 row) (stage.resume data ambient result.2) hnext
      refine ⟨response, row.toList ++ rows, ?_, ?_⟩
      · rw [run_next]
        exact hresponse
      · rw [List.replicate_succ, runEvents_cons, hstep, hrun, run_next]
        simp [afterAnswer, afterCall, settled, settle, stagedOutcome, result, List.append_assoc]

/-- A session answers as the request does alone and leaves the tables it leaves. -/
theorem run_session (limit : Option ℕ) (data : Bytes) (ambient : Ambient) (connection : ℕ)
    (server : ServerState Staged) (hfree : server.connections connection = .idle ∨
      ∃ earlier response, server.connections connection = .returned earlier response) :
    ∃ response rows, serve limit server.tables data ambient =
        ((serve limit server.tables data ambient).1, .ok response) ∧
      runEvents (stagedStep limit) server (session connection data ambient) =
        server.afterAnswer connection data response
          (serve limit server.tables data ambient).1 rows := by
  have hrank : (start data).rank ≤ 4 := by
    unfold start
    split_ifs <;> simp [Progress.rank, Stage.rank]
  have harrive : stagedStep limit server (.arrive connection data ambient) =
      server.settle connection data (stagedOutcome ambient (start data)) := by
    rcases hfree with h | ⟨earlier, response, h⟩ <;> simp only [stagedStep, h]
  obtain ⟨response, rows, hresponse, hrun⟩ :=
    run_calls limit data ambient connection 4 server (start data) hrank
  rw [← serve_eq] at hresponse hrun
  refine ⟨response, rows, Prod.ext rfl hresponse, ?_⟩
  rw [session, runEvents_cons, harrive, hrun]

/-- No handler is running, and none has raised. -/
def Quiet (server : ServerState Staged) : Prop :=
  ∀ connection, server.connections connection = .idle ∨
    ∃ earlier response, server.connections connection = .returned earlier response

theorem Quiet.running {server : ServerState Staged} (h : server.Quiet) (connection : ℕ) :
    server.running connection = none := by
  rw [ServerState.running]
  rcases h connection with hidle | ⟨earlier, response, hreturned⟩
  · rw [hidle]
  · rw [hreturned]

/-- A session leaves no handler running. -/
theorem Quiet.session {server : ServerState Staged} (h : server.Quiet) (limit : Option ℕ)
    (connection : ℕ) (data : Bytes) (ambient : Ambient) :
    (runEvents (stagedStep limit) server (session connection data ambient)).Quiet := by
  obtain ⟨response, rows, -, hrun⟩ :=
    run_session limit data ambient connection server (h connection)
  rw [hrun]
  intro other
  by_cases hsame : other = connection
  · subst hsame
    exact .inr ⟨data, response, Function.update_self ..⟩
  · have hkept : (server.afterAnswer connection data response
        (serve limit server.tables data ambient).1 rows).connections other =
          server.connections other :=
      Function.update_of_ne hsame ..
    rw [hkept]
    exact h other

/-- From some connection on, all connections are idle. -/
theorem eventually_idle (limit : Option ℕ) (events : List Event) :
    ∃ bound, ∀ connection, bound ≤ connection →
      (runEvents (stagedStep limit) (initial Staged) events).connections connection = .idle := by
  have hsettle : ∀ (server after : ServerState Staged) (used : ℕ),
      (∀ other, other ≠ used → after.connections other = server.connections other) →
      (∃ bound, ∀ connection, bound ≤ connection → server.connections connection = .idle) →
      ∃ bound, ∀ connection, bound ≤ connection → after.connections connection = .idle := by
    rintro server after used hother ⟨bound, hidle⟩
    refine ⟨max bound (used + 1), fun connection hconnection ↦ ?_⟩
    rw [hother connection (by omega)]
    exact hidle connection (le_of_max_le_left hconnection)
  refine runEvents_invariant (P := fun server : ServerState Staged ↦
    ∃ bound, ∀ connection, bound ≤ connection →
    server.connections connection = .idle) (fun server event h ↦ ?_) ⟨0, fun _ _ ↦ rfl⟩ events
  exact stagedStep_cases (motive := fun after ↦ ∃ bound, ∀ connection, bound ≤ connection →
      after.connections connection = .idle) limit server event h
    (fun connection request ambient _ _ ↦ hsettle server _ connection
      (fun other hother ↦ settle_connections_of_ne server request _ hother) h)
    fun connection _ request _ _ after row _ _ _ _ ↦ hsettle server _ connection
      (fun other hother ↦ settle_connections_of_ne (server.afterCall after row) request _ hother) h

end ServerState

/-! ### Reachable tables -/

/-- The tables at some moment of some run from empty tables. -/
def Reachable (limit : Option ℕ) (tables : Tables) : Prop :=
  ∃ events, (runEvents (ServerState.step limit) (.initial Handler) events).tables = tables


theorem reachable_empty (limit : Option ℕ) : Reachable limit Tables.empty :=
  ⟨[], rfl⟩

/-- The tables after a request on reachable tables are reachable. -/
theorem Reachable.after_request {limit : Option ℕ} {tables : Tables} (h : Reachable limit tables)
    (data : Bytes) (ambient : Ambient) :
    Reachable limit (serve limit tables data ambient).1 := by
  obtain ⟨events, rfl⟩ := h
  obtain ⟨bound, hidle⟩ := ServerState.eventually_idle limit events
  obtain ⟨response, rows, -, hrun⟩ := ServerState.run_session limit data ambient bound
    (runEvents (ServerState.stagedStep limit) (.initial Staged) events)
    (.inl (hidle bound le_rfl))
  refine ⟨events ++ session bound data ambient, ?_⟩
  rw [ServerState.run_unstage, runEvents_append, hrun, ServerState.run_unstage]
  rfl

/-- Reachable tables satisfy the store invariant. -/
theorem Reachable.store {limit : Option ℕ} {tables : Tables} (h : Reachable limit tables) :
    Store tables := by
  obtain ⟨events, rfl⟩ := h
  rw [ServerState.run_unstage]
  exact (ServerState.sound_run limit events).store

/-! ### What the requests of a client do -/

section Client

variable {limit : Option ℕ} {tables : Tables} {ambient : Ambient} {clientId : Bytes}

/-- A client that registers a free name under a free ID is added. -/
theorem serve_registration {name publicKey : Bytes}
    (hclient : clientId.length = clientIdSize) (hname : name.length ≤ nameSize)
    (hnonempty : name ≠ []) (hascii : ∀ code ∈ name, code < 128) (hnoNul : ∀ code ∈ name, code ≠ 0)
    (hkey : publicKey.length = publicKeySize) :
    serve limit tables
        (requestFrame clientId requestRegister (registrationPayload name publicKey)) ambient =
      match tables.insertClient ⟨ambient.token, name, publicKey, ambient.now⟩ with
      | .ok after => (after, .ok (responseFrame responseRegister ambient.token))
      | .error _ => (tables, .ok errorResponse) := by
  have hlength : (registrationPayload name publicKey).length = nameSize + publicKeySize :=
    registrationPayload_length hname hkey
  have hvalid := validRegistration_requestFrame hclient hname hnonempty hascii hnoNul hkey
    requestRegister
  rw [serve_register _ _ _ _ (validHeader_requestFrame hclient (by rw [hlength]; simp))
    (codeOf_requestFrame hclient (by simp)), if_pos hvalid,
      rawNameOf_registration hclient hname hnoNul,
    publicKeyOf_registration hclient hname hkey]

/-- A request that `send_message_handler` accepts: a valid message between registered clients. -/
structure Sends (tables : Tables) (data : Bytes) : Prop where
  header : ValidHeader data
  code : codeOf data = requestSendMessage
  requester : tables.Registered (requesterIdOf data)
  target : tables.Registered (requestedIdOf data)
  message : ValidMessage data

/-- A message that is accepted is stored under the next ID. -/
theorem serve_sends {data : Bytes} (hsends : Sends tables data) :
    serve limit tables data ambient =
      ((tables.updateLastSeen (requesterIdOf data) ambient.now).insertMessage (requestedIdOf data)
          (requesterIdOf data) (messageTypeOf data) (contentOf data),
        .ok (sentResponse (requestedIdOf data) (tables.sequence + 1))) := by
  have hmin : minLen ≤ data.length := by
    rw [hsends.message.size]
    exact Nat.le_add_right _ _
  have hrouted : routed data = .next .findTarget := by
    simp only [routed, hsends.code]
    rw [if_neg (by simp), if_neg (by simp), if_neg (by simp), if_pos trivial, if_pos hmin]
  have htarget : (tables.updateLastSeen (requesterIdOf data) ambient.now).Registered
      (requestedIdOf data) := by
    rw [Tables.registered_iff, Tables.identities_updateLastSeen, ← Tables.registered_iff]
    exact hsends.target
  rw [serve_requester _ _ _ _ hsends.header (by rw [hsends.code]; simp) hsends.requester, hrouted,
    run_findTarget, if_pos ⟨htarget, hsends.message⟩]
  rfl

/-- A message between registered clients is accepted. -/
theorem sends_requestFrame {target content : Bytes} {type : ℕ}
    (hclient : clientId.length = clientIdSize) (htarget : target.length = clientIdSize)
    (htype : type ∈ [symmetricKeyRequest, symmetricKeySend, textMessage])
    (hempty : type = symmetricKeyRequest → content = [])
    (hcontent : (messagePayload target type content).length < 2 ^ 32)
    (hrequester : tables.Registered clientId) (hregistered : tables.Registered target) :
    Sends tables (requestFrame clientId requestSendMessage
      (messagePayload target type content)) where
  header := validHeader_requestFrame hclient hcontent
  code := codeOf_requestFrame hclient (by simp)
  requester := by rwa [requesterIdOf_requestFrame hclient]
  target := by rwa [requestedIdOf_message hclient htarget]
  message := by
    refine validMessage_requestFrame hclient htarget htype hempty ?_ _
    rw [messagePayload_length htarget] at hcontent
    omega

/-- A message between registered clients is stored with its content. -/
theorem serve_message {target content : Bytes} {type : ℕ}
    (hclient : clientId.length = clientIdSize) (htarget : target.length = clientIdSize)
    (htype : type ∈ [symmetricKeyRequest, symmetricKeySend, textMessage])
    (hempty : type = symmetricKeyRequest → content = [])
    (hcontent : (messagePayload target type content).length < 2 ^ 32)
    (hrequester : tables.Registered clientId) (hregistered : tables.Registered target) :
    serve limit tables (requestFrame clientId requestSendMessage
        (messagePayload target type content)) ambient =
      ((tables.updateLastSeen clientId ambient.now).insertMessage target clientId type content,
        .ok (sentResponse target (tables.sequence + 1))) := by
  have hsize : content.length < 2 ^ 32 := by
    rw [messagePayload_length htarget] at hcontent
    omega
  have hbyte : type < 2 ^ 8 := by
    simp only [List.mem_cons, List.not_mem_nil, or_false] at htype
    rcases htype with rfl | rfl | rfl <;> simp
  rw [serve_sends (sends_requestFrame hclient htarget htype hempty hcontent hrequester hregistered),
    requestedIdOf_message hclient htarget, requesterIdOf_requestFrame hclient,
    messageTypeOf_message hclient htarget hbyte, contentOf_message hclient htarget hsize]

/-- A well-formed request of a client that is a header without payload. -/
structure IsBare (code : ℕ) (clientId data : Bytes) : Prop where
  size : data.length = headerSize
  payloadSize : payloadSizeOf data = 0
  version : versionOf data = clientVersion
  code : codeOf data = code
  requester : requesterIdOf data = clientId

theorem isBare_requestFrame {code : ℕ} (hclient : clientId.length = clientIdSize)
    (hcode : code < 2 ^ 16) : IsBare code clientId (requestFrame clientId code []) where
  size := requestFrame_length hclient
  payloadSize := payloadSizeOf_requestFrame hclient (by simp)
  version := versionOf_requestFrame hclient
  code := codeOf_requestFrame hclient hcode
  requester := requesterIdOf_requestFrame hclient

theorem IsBare.validHeader {code : ℕ} {data : Bytes} (h : IsBare code clientId data) :
    ValidHeader data :=
  ⟨h.size.ge, by rw [h.size, h.payloadSize], h.version⟩

/-- A well-formed `704` request of a client. -/
abbrev IsPull (clientId data : Bytes) : Prop :=
  IsBare requestWaitingMessages clientId data

theorem isPull_requestFrame (hclient : clientId.length = clientIdSize) :
    IsPull clientId (requestFrame clientId requestWaitingMessages []) :=
  isBare_requestFrame hclient (by simp)

/-- A well-formed `701` request of a client. -/
abbrev IsListRequest (clientId data : Bytes) : Prop :=
  IsBare requestClientsList clientId data

/-- A registered client is told of all other clients, and only its `LastSeen` moves. -/
theorem serve_list {data : Bytes} (hlist : IsListRequest clientId data)
    (hrequester : tables.Registered clientId) :
    serve limit tables data ambient =
      (tables.updateLastSeen clientId ambient.now,
        .ok (caught (buildResponse responseClientList
          (clientListPayload (tables.otherClients clientId))))) := by
  have hrouted : routed data = .next .listClients := by
    simp only [routed, hlist.code]
    rw [if_pos trivial, if_pos hlist.size]
  have hexec : (Stage.listClients.call data ambient).exec limit
      (tables.updateLastSeen clientId ambient.now) = _ :=
    exec_listClientsExcept limit _ (requesterIdOf data)
  rw [serve_requester _ _ _ _ hlist.validHeader (by rw [hlist.code]; simp)
    (by rwa [hlist.requester]), hrouted, run_next, hlist.requester, hexec, hlist.requester,
    ← Tables.otherClients, tables.otherClients_updateLastSeen clientId]
  rfl

/-- A pull of a registered client. -/
theorem serve_pull {data : Bytes} (hpull : IsPull clientId data)
    (hrequester : tables.Registered clientId) :
    serve limit tables data ambient =
      if ∀ message ∈ tables.waitingFor clientId, RecordFits message then
        if limit.any (· < (tables.waitingFor clientId).length) then
          (tables.updateLastSeen clientId ambient.now, .ok errorResponse)
        else
          ((tables.updateLastSeen clientId ambient.now).deleteMessages
              ((tables.waitingFor clientId).map WaitingMessage.id),
            .ok (caught (buildResponse responseWaitingMessages
              ((tables.waitingFor clientId).flatMap recordBytes))))
      else (tables.updateLastSeen clientId ambient.now, .ok errorResponse) := by
  have hrouted : routed data = .next .fetchMessages := by
    simp only [routed, hpull.code]
    rw [if_neg (by simp), if_neg (by simp), if_pos trivial, if_pos hpull.size]
  rw [serve_requester _ _ _ _ hpull.validHeader (by rw [hpull.code]; simp)
    (by rwa [hpull.requester]), hrouted,
    run_fetchMessages, hpull.requester]
  rfl

end Client

/-! ### A client that floods itself -/

/-- The client that registers first. -/
def soloRow : ClientRow where
  id := List.replicate clientIdSize 1
  userName := [65]
  publicKey := List.replicate publicKeySize 0
  lastSeen := ""

/-- What its requests read from outside the database. -/
def soloAmbient : Ambient where
  token := soloRow.id
  now := soloRow.lastSeen
  token_length := List.length_replicate

/-- Its registration. -/
def soloRegistration : Bytes :=
  requestFrame soloRow.id requestRegister
    (registrationPayload soloRow.userName soloRow.publicKey)

/-- Its request to send itself a text message. -/
def soloSend (content : Bytes) : Bytes :=
  requestFrame soloRow.id requestSendMessage (messagePayload soloRow.id textMessage content)

/-- Its pull. -/
def soloPull : Bytes :=
  requestFrame soloRow.id requestWaitingMessages []

/-- The message with a given number of those it sends itself. -/
def soloMessage (content : Bytes) (number : ℕ) : MessageRow where
  id := number + 1
  toClient := soloRow.id
  fromClient := soloRow.id
  type := textMessage
  content := content

theorem soloRow_id_length : soloRow.id.length = clientIdSize :=
  List.length_replicate

/-- The client registers on empty tables. -/
theorem serve_soloRegistration (limit : Option ℕ) :
    ∃ after, serve limit Tables.empty soloRegistration soloAmbient =
        (after, .ok (responseFrame responseRegister soloRow.id)) ∧
      after.clients = [soloRow] ∧ after.messages = [] ∧ after.sequence = 0 := by
  have hserve : serve limit Tables.empty soloRegistration soloAmbient = _ :=
    serve_registration soloRow_id_length (by simp [soloRow]) (by simp [soloRow])
      (by simp [soloRow]) (by simp [soloRow]) List.length_replicate
  exact ⟨_, hserve, rfl, rfl, rfl⟩

/-- A client can have any number of messages of any sendable size waiting. -/
theorem Reachable.flood (limit : Option ℕ) {content : Bytes}
    (hcontent : clientIdSize + messageTypeSize + contentSize + content.length < 2 ^ 32)
    (count : ℕ) :
    ∃ tables, Reachable limit tables ∧ tables.clients = [soloRow] ∧
      tables.messages = (List.range count).map (soloMessage content) ∧
      tables.sequence = count := by
  induction count with
  | zero =>
    obtain ⟨after, hserve, hclients, hmessages, hsequence⟩ := serve_soloRegistration limit
    have hreachable := (reachable_empty limit).after_request soloRegistration soloAmbient
    rw [hserve] at hreachable
    exact ⟨after, hreachable, hclients, hmessages, hsequence⟩
  | succ count ih =>
    obtain ⟨tables, hreachable, hclients, hmessages, hsequence⟩ := ih
    have hregistered : tables.Registered soloRow.id := by
      rw [Tables.Registered, hclients]
      exact List.mem_singleton_self _
    have hserve : serve limit tables (soloSend content) soloAmbient = _ :=
      serve_message soloRow_id_length soloRow_id_length (by simp) (by simp)
        (by rwa [messagePayload_length soloRow_id_length]) hregistered hregistered
    refine ⟨_, hreachable.after_request (soloSend content) soloAmbient, ?_⟩
    rw [hserve]
    refine ⟨?_, ?_, ?_⟩
    · change tables.clients.map (ClientRow.touch soloRow.id soloAmbient.now) = [soloRow]
      rw [hclients]
      exact congrArg (fun row ↦ [row]) (if_pos rfl)
    · change tables.messages ++ [⟨tables.sequence + 1, _, _, _, _⟩] = _
      rw [hmessages, hsequence, List.range_succ, List.map_append]
      rfl
    · exact congrArg (· + 1) hsequence

/-- What is waiting for the client that has sent itself messages. -/
theorem waitingFor_flood {tables : Tables} {content : Bytes} {count : ℕ}
    (h : tables.messages = (List.range count).map (soloMessage content)) :
    tables.waitingFor soloRow.id =
      (List.range count).map fun number ↦ (soloMessage content number).waiting := by
  have hall : ((List.range count).map (soloMessage content)).filter
      (fun row ↦ row.toClient = soloRow.id) = (List.range count).map (soloMessage content) := by
    refine List.filter_eq_self.mpr fun row hrow ↦ ?_
    obtain ⟨number, -, rfl⟩ := List.mem_map.mp hrow
    exact decide_eq_true rfl
  rw [Tables.waitingFor, h, hall, List.map_map]
  rfl

/-! ### A second client -/

/-- A client that registers a name after the first one. -/
def secondRow (name : Bytes) : ClientRow where
  id := List.replicate clientIdSize 2
  userName := name
  publicKey := List.replicate publicKeySize 0
  lastSeen := ""

/-- What its registration reads from outside the database. -/
def secondAmbient : Ambient where
  token := List.replicate clientIdSize 2
  now := ""
  token_length := List.length_replicate

/-- Its registration. -/
def secondRegistration (name : Bytes) : Bytes :=
  requestFrame (List.replicate clientIdSize 0) requestRegister
    (registrationPayload name (List.replicate publicKeySize 0))

/-- The tables after both registrations. -/
def pairTables (name : Bytes) : Tables :=
  (serve none (serve none Tables.empty soloRegistration soloAmbient).1 (secondRegistration name)
    secondAmbient).1

theorem reachable_pairTables (name : Bytes) : Reachable none (pairTables name) :=
  ((reachable_empty none).after_request soloRegistration soloAmbient).after_request
    (secondRegistration name) secondAmbient

/-- Both clients are registered. Assumes: a valid name that is not the first client's. -/
theorem pairTables_clients {name : Bytes} (hname : name.length ≤ nameSize) (hnonempty : name ≠ [])
    (hascii : ∀ code ∈ name, code < 128) (hnoNul : ∀ code ∈ name, code ≠ 0)
    (hother : name ≠ soloRow.userName) :
    (pairTables name).clients = [soloRow, secondRow name] := by
  obtain ⟨first, hfirst, hclients, -, -⟩ := serve_soloRegistration none
  obtain ⟨after, hinsert⟩ : ∃ after, first.insertClient (secondRow name) = .ok after := by
    refine Tables.exists_insertClient _ ?_ ?_
    · rw [Tables.Registered, hclients]
      exact fun h ↦ absurd (List.mem_singleton.mp h) (by simp [secondRow, soloRow])
    · rw [hclients]
      exact fun h ↦ hother (List.mem_singleton.mp h)
  have hserve : serve none first (secondRegistration name) secondAmbient = _ :=
    serve_registration List.length_replicate hname hnonempty hascii hnoNul List.length_replicate
  have hrow : first.insertClient ⟨secondAmbient.token, name, List.replicate publicKeySize 0,
      secondAmbient.now⟩ = .ok after := hinsert
  rw [hrow] at hserve
  rw [pairTables, hfirst, hserve]
  exact (Tables.insertClient_eq_ok hinsert).1.trans (by rw [hclients]; rfl)

end MessageU.Server
