import Mathlib.Logic.Function.Basic
import MessageU.Library.EventRun
import MessageU.Server.Stages

/-!
# Many connections over one database

Every accepted connection has a thread of its own that runs `request_handler_main` on the requests
it receives. The threads interleave between `Database` method calls, and each call is one atomic
step on the tables. `ServerState` is the state of all threads, `ServerState.step` the system, and
its events are the arrival of a request at a connection and the next method call of a connection. An
event that a connection cannot take changes nothing, so a run is an arbitrary list of events. A call
event may carry a fault, which raises `sqlite3.OperationalError` without an effect.

The state is generic in what a thread still has to do: the faithful system `step` keeps
the remaining program of the handler, and `stagedStep` keeps its stage. `step_unstage` says
that the second is the first under `unstage`, so that every run of the programs is a run of
the stages. `answered` and `inserted` are logs of the run: the responses in the order in which they
were built and the rows in the order in which they were inserted.
-/

set_option autoImplicit false
set_option relaxedAutoImplicit false

namespace MessageU.Server

open Library

/-! ### Connections and the state of the server -/

/-- A running handler as the stage it is at, with what it reads from outside the database. -/
abbrev Staged := Ambient × Stage

/-- A connection's thread. `Rest` is what a running handler still has to do. -/
inductive Connection (Rest : Type)
  /-- No request has been received yet. -/
  | idle
  /-- The handler of a request is waiting for a method call. -/
  | busy (request : Bytes) (rest : Rest)
  /-- The handler has returned a response. -/
  | returned (request response : Bytes)
  /-- The handler has raised and `handle_client` has left its loop. -/
  | stopped

/-- A response that was built, with the connection and the request it answers. -/
structure Answer where
  connection : ℕ
  request : Bytes
  response : Bytes
  deriving DecidableEq, Repr

/-- The state of the server. -/
structure ServerState (Rest : Type) where
  tables : Tables
  connections : ℕ → Connection Rest
  answered : List Answer
  inserted : List MessageRow

/-- The server before any connection is accepted, on empty tables. -/
def ServerState.initial (Rest : Type) : ServerState Rest where
  tables := Tables.empty
  connections := fun _ ↦ .idle
  answered := []
  inserted := []

/-- What a handler has come to when it stops computing. -/
inductive Outcome (Rest : Type)
  | answer (response : Bytes)
  | going (rest : Rest)
  | raised

/-- Something happens at a connection: a request arrives, or its handler's next method call is
made and fails if `fault` is set. -/
inductive Event
  | arrive (connection : ℕ) (request : Bytes) (ambient : Ambient)
  | call (connection : ℕ) (fault : Bool)

/-- The connection something happens at. -/
def Event.connection : Event → ℕ
  | .arrive connection _ _ | .call connection _ => connection

/-- A method call inside a run. -/
def DbCall.perform (limit : Option ℕ) (fault : Bool) (tables : Tables) (call : DbCall) :
    Tables × Except PyError call.Result :=
  if fault then (tables, .error .operationalError) else call.exec limit tables

/-- The row that a call has inserted. -/
def DbCall.insertedRow : (call : DbCall) → Except PyError call.Result → Option MessageRow
  | .addMessage toClient fromClient messageType content, .ok msgId =>
    some ⟨msgId, toClient, fromClient, messageType, content⟩
  | _, _ => none

namespace ServerState

variable {Rest Other : Type}

/-- The handler of a connection's request has come to an outcome. -/
def settle (server : ServerState Rest) (connection : ℕ) (request : Bytes) :
    Outcome Rest → ServerState Rest
  | .answer response =>
    { server with
      connections := Function.update server.connections connection (.returned request response)
      answered := server.answered ++ [⟨connection, request, response⟩] }
  | .going rest =>
    { server with
      connections := Function.update server.connections connection (.busy request rest) }
  | .raised =>
    { server with connections := Function.update server.connections connection .stopped }

/-- A method call has changed the tables. -/
def afterCall (server : ServerState Rest) (tables : Tables) (row : Option MessageRow) :
    ServerState Rest :=
  { server with
    tables := tables
    inserted := server.inserted ++ row.toList }

/-- Settling changes no other connection. -/
theorem settle_connections_of_ne {Rest : Type} (server : ServerState Rest) {connection other : ℕ}
    (request : Bytes) (outcome : Outcome Rest) (h : other ≠ connection) :
    (server.settle connection request outcome).connections other = server.connections other := by
  cases outcome <;> exact Function.update_of_ne h _ _

/-! ### The system of the programs -/

/-- What a program has come to. -/
def programOutcome : Handler → Outcome Handler
  | .finished (.ok response) => .answer response
  | .finished (.error _) => .raised
  | .request call resume => .going (.request call resume)

/-- One event. A request that arrives while the handler of the connection is running is not read
yet, so it is no event of the connection; neither is a call of a handler that is not running. -/
def step (limit : Option ℕ) (server : ServerState Handler) :
    Event → ServerState Handler
  | .arrive connection request ambient =>
    match server.connections connection with
    | .idle | .returned _ _ =>
      server.settle connection request (programOutcome (requestHandlerMain request ambient))
    | .busy _ _ | .stopped => server
  | .call connection fault =>
    match server.connections connection with
    | .busy request (.request call resume) =>
      let result := call.perform limit fault server.tables
      (server.afterCall result.1 (call.insertedRow result.2)).settle connection request
        (programOutcome (resume result.2))
    | .busy _ (.finished _) | .idle | .returned _ _ | .stopped => server

/-- An event changes no other connection. -/
theorem step_connections_of_ne (limit : Option ℕ) (server : ServerState Handler) (event : Event)
    {other : ℕ} (h : other ≠ event.connection) :
    (step limit server event).connections other = server.connections other := by
  cases event with
  | arrive connection request ambient =>
    simp only [step]
    cases server.connections connection with
    | idle | returned => exact settle_connections_of_ne server request _ h
    | busy | stopped => rfl
  | call connection fault =>
    simp only [step]
    cases server.connections connection with
    | idle | returned | stopped => rfl
    | busy request program =>
      cases program with
      | finished outcome => rfl
      | request call resume => exact settle_connections_of_ne (server.afterCall _ _) request _ h

/-- The method call that the handler of a connection is about to make. -/
def nextCall (server : ServerState Handler) (connection : ℕ) : Option DbCall :=
  match server.connections connection with
  | .busy _ (.request call _) => some call
  | _ => none

/-- The request whose handler is running on a connection. -/
def running (server : ServerState Rest) (connection : ℕ) : Option Bytes :=
  match server.connections connection with
  | .busy request _ => some request
  | _ => none

/-! ### The system of the stages -/

/-- What a handler has come to, as a stage. -/
def stagedOutcome (ambient : Ambient) : Progress → Outcome Staged
  | .answer response => .answer response
  | .next stage => .going (ambient, stage)

/-- One event, with the handlers kept as their stages. -/
def stagedStep (limit : Option ℕ) (server : ServerState Staged) :
    Event → ServerState Staged
  | .arrive connection request ambient =>
    match server.connections connection with
    | .idle | .returned _ _ =>
      server.settle connection request (stagedOutcome ambient (start request))
    | .busy _ _ | .stopped => server
  | .call connection fault =>
    match server.connections connection with
    | .busy request (ambient, stage) =>
      let result := (stage.call request ambient).perform limit fault server.tables
      (server.afterCall result.1 ((stage.call request ambient).insertedRow result.2)).settle
        connection request (stagedOutcome ambient (stage.resume request ambient result.2))
    | .idle | .returned _ _ | .stopped => server

/-! ### The programs as stages -/

end ServerState

/-- A connection with its stage replaced by the remaining program. -/
def Connection.unstage : Connection Staged → Connection Handler
  | .idle => .idle
  | .busy request (ambient, stage) => .busy request (stage.rest request ambient)
  | .returned request response => .returned request response
  | .stopped => .stopped

namespace ServerState

/-- The server with every stage replaced by the remaining program. -/
def unstage (server : ServerState Staged) : ServerState Handler where
  tables := server.tables
  connections := fun connection ↦ (server.connections connection).unstage
  answered := server.answered
  inserted := server.inserted

@[simp] theorem unstage_initial :
    (initial Staged).unstage = initial Handler :=
  rfl

/-- Settling with the remaining program is settling with its stage. -/
theorem settle_unstage (server : ServerState Staged) (connection : ℕ) (request : Bytes)
    (ambient : Ambient) (progress : Progress) :
    server.unstage.settle connection request (programOutcome (progress.rest request ambient)) =
      (server.settle connection request (stagedOutcome ambient progress)).unstage := by
  have hupdate : ∀ value : Connection Staged,
      Function.update server.unstage.connections connection value.unstage =
        fun other ↦ (Function.update server.connections connection value other).unstage := by
    intro value
    funext other
    exact (Function.apply_update (fun _ ↦ Connection.unstage) server.connections connection value
      other).symm
  cases progress with
  | answer response =>
    exact congrArg (fun connections ↦ ServerState.mk server.tables connections
      (server.answered ++ [⟨connection, request, response⟩]) server.inserted)
      (hupdate (.returned request response))
  | next stage =>
    have hgoing : programOutcome (stage.rest request ambient) =
        .going (stage.rest request ambient) := by
      rw [Stage.rest_eq]
      rfl
    rw [Progress.rest, hgoing]
    exact congrArg (fun connections ↦ ServerState.mk server.tables connections server.answered
      server.inserted) (hupdate (.busy request (ambient, stage)))

/-- Every event does to the programs what it does to the stages. -/
theorem step_unstage (limit : Option ℕ) (server : ServerState Staged) (event : Event) :
    step limit server.unstage event = (stagedStep limit server event).unstage := by
  cases event with
  | arrive connection request ambient =>
    have hconnection : server.unstage.connections connection =
      (server.connections connection).unstage := rfl
    have hsettle := settle_unstage server connection request ambient (start request)
    rw [← requestHandlerMain_eq] at hsettle
    simp only [step, stagedStep, hconnection]
    cases server.connections connection with
    | idle => exact hsettle
    | busy running rest => rfl
    | returned earlier response => exact hsettle
    | stopped => rfl
  | call connection fault =>
    have hconnection : server.unstage.connections connection =
      (server.connections connection).unstage := rfl
    simp only [step, stagedStep, hconnection]
    cases server.connections connection with
    | idle => rfl
    | busy request rest =>
      obtain ⟨ambient, stage⟩ := rest
      simp only [Connection.unstage, Stage.rest_eq]
      exact settle_unstage (server.afterCall _ _) connection request ambient _
    | returned earlier response => rfl
    | stopped => rfl

/-- The call that a connection is about to make, at its stage. -/
theorem nextCall_unstage {server : ServerState Staged} {connection : ℕ} {request : Bytes}
    {ambient : Ambient} {stage : Stage}
    (h : server.connections connection = .busy request (ambient, stage)) :
    server.unstage.nextCall connection = some (stage.call request ambient) := by
  have hconnection : server.unstage.connections connection =
      .busy request (stage.rest request ambient) := congrArg Connection.unstage h
  rw [nextCall, hconnection, Stage.rest_eq]

theorem running_unstage (server : ServerState Staged) (connection : ℕ) :
    server.unstage.running connection = server.running connection := by
  have hconnection : server.unstage.connections connection =
      (server.connections connection).unstage := rfl
  rw [running, running, hconnection]
  cases server.connections connection <;> rfl

/-- A run of the programs is a run of the stages. -/
theorem run_unstage (limit : Option ℕ) (events : List Event) :
    runEvents (step limit) (initial _) events =
      (runEvents (stagedStep limit) (initial _) events).unstage :=
  runEvents_comm (step_unstage limit) (initial _) events

/-! ### What settling leaves and changes -/

@[simp] theorem settle_tables {Rest : Type} (server : ServerState Rest) (connection : ℕ)
    (request : Bytes) (outcome : Outcome Rest) :
    (server.settle connection request outcome).tables = server.tables := by
  cases outcome <;> rfl

@[simp] theorem settle_inserted {Rest : Type} (server : ServerState Rest) (connection : ℕ)
    (request : Bytes) (outcome : Outcome Rest) :
    (server.settle connection request outcome).inserted = server.inserted := by
  cases outcome <;> rfl

end ServerState

/-- The answer that a request has come to. -/
def Progress.answers (connection : ℕ) (request : Bytes) : Progress → List Answer
  | .answer response => [⟨connection, request, response⟩]
  | .next _ => []

namespace ServerState

theorem settle_answered (server : ServerState Staged) (connection : ℕ) (request : Bytes)
    (ambient : Ambient) (progress : Progress) :
    (server.settle connection request (stagedOutcome ambient progress)).answered =
      server.answered ++ progress.answers connection request := by
  cases progress with
  | answer response => rfl
  | next stage => exact (List.append_nil _).symm

/-- A handler that is running after settling was running before, or has gone on to its stage. -/
theorem busy_of_settle {server : ServerState Staged} {connection other : ℕ}
    {request otherRequest : Bytes} {ambient otherAmbient : Ambient} {progress : Progress}
    {stage : Stage}
    (h : (server.settle connection request (stagedOutcome ambient progress)).connections other =
      .busy otherRequest (otherAmbient, stage)) :
    (other ≠ connection ∧ server.connections other = .busy otherRequest (otherAmbient, stage)) ∨
      (other = connection ∧ otherRequest = request ∧ otherAmbient = ambient ∧
        progress = .next stage) := by
  by_cases hsame : other = connection
  · right
    subst hsame
    cases progress with
    | answer response => simp [settle, stagedOutcome] at h
    | next gone =>
      simp only [settle, stagedOutcome, Function.update_self, Connection.busy.injEq,
        Prod.mk.injEq] at h
      exact ⟨rfl, h.1.symm, h.2.1.symm, by rw [h.2.2]⟩
  · left
    refine ⟨hsame, ?_⟩
    cases progress with
    | answer response => simpa [settle, stagedOutcome, hsame] using h
    | next gone => simpa [settle, stagedOutcome, hsame] using h

/-- What is running after settling was running before, or is the request of the connection. -/
theorem running_of_settle {Rest : Type} {server : ServerState Rest} {connection other : ℕ}
    {request running : Bytes} {outcome : Outcome Rest}
    (h : (server.settle connection request outcome).running other = some running) :
    (other ≠ connection ∧ server.running other = some running) ∨
      (other = connection ∧ running = request) := by
  by_cases hsame : other = connection
  · right
    subst hsame
    cases outcome with
    | answer response => simp [settle, ServerState.running] at h
    | going rest =>
      simp only [settle, ServerState.running, Function.update_self, Option.some.injEq] at h
      exact ⟨rfl, h.symm⟩
    | raised => simp [settle, ServerState.running] at h
  · left
    refine ⟨hsame, ?_⟩
    cases outcome <;> simpa [settle, ServerState.running, hsame] using h

end ServerState

/-- What the call of a stage can do: the tables after it, the row it inserts and how the request
goes on. Every failure, of the call or of a check behind it, looks the same. -/
inductive StageStep (tables : Tables) (request : Bytes) (ambient : Ambient) :
    Stage → Tables → Option MessageRow → Progress → Prop
  | failed (stage : Stage) :
    StageStep tables request ambient stage tables none (.answer errorResponse)
  | requesterFound (hrequester : tables.Registered (requesterIdOf request)) :
    StageStep tables request ambient .findRequester tables none (.next .touchRequester)
  | requesterTouched :
    StageStep tables request ambient .touchRequester
      (tables.updateLastSeen (requesterIdOf request) ambient.now) none (routed request)
  | registered {after : Tables}
    (hinsert : tables.insertClient
      ⟨ambient.token, rawNameOf request, publicKeyOf request, ambient.now⟩ = .ok after) :
    StageStep tables request ambient .register after none
      (.answer (responseFrame responseRegister ambient.token))
  | clientsListed :
    StageStep tables request ambient .listClients tables none
      (.answer (caught (buildResponse responseClientList (clientListPayload
        ((tables.clients.filter fun row ↦ row.id ≠ requesterIdOf request).map fun row ↦
          (row.id, row.userName))))))
  | keyFetched {row : ClientRow} (hrow : row ∈ tables.clients)
    (hid : row.id = requestedIdOf request) :
    StageStep tables request ambient .fetchKey tables none
      (.answer (caught (buildResponse responsePublicKey (requestedIdOf request ++ row.publicKey))))
  | messagesFetched :
    StageStep tables request ambient .fetchMessages tables none
      (selected (tables.waitingFor (requesterIdOf request)))
  | messagesRemoved (messages : List WaitingMessage) :
    StageStep tables request ambient (.removeMessages messages)
      (tables.deleteMessages (messages.map WaitingMessage.id)) none
      (.answer (caught (buildResponse responseWaitingMessages (messages.flatMap recordBytes))))
  | targetFound (htarget : tables.Registered (requestedIdOf request))
    (hvalid : ValidMessage request) :
    StageStep tables request ambient .findTarget tables none (.next .storeMessage)
  | messageStored :
    StageStep tables request ambient .storeMessage
      (tables.insertMessage (requestedIdOf request) (requesterIdOf request)
        (messageTypeOf request) (contentOf request))
      (some ⟨tables.sequence + 1, requestedIdOf request, requesterIdOf request,
        messageTypeOf request, contentOf request⟩)
      (.answer (sentResponse (requestedIdOf request) (tables.sequence + 1)))

/-- The call of a stage does one of these. -/
theorem stageStep (limit : Option ℕ) (fault : Bool) (tables : Tables) (request : Bytes)
    (ambient : Ambient) (stage : Stage) :
    StageStep tables request ambient stage
      ((stage.call request ambient).perform limit fault tables).1
      ((stage.call request ambient).insertedRow
        ((stage.call request ambient).perform limit fault tables).2)
      (stage.resume request ambient
        ((stage.call request ambient).perform limit fault tables).2) := by
  cases fault with
  | true => cases stage <;> exact .failed _
  | false =>
    have hperform : (stage.call request ambient).perform limit false tables =
        (stage.call request ambient).exec limit tables := rfl
    rw [hperform]
    cases stage with
    | findRequester =>
      have hexec : (Stage.findRequester.call request ambient).exec limit tables = _ :=
        exec_clientExists limit tables (requesterIdOf request)
      rw [hexec]
      cases hfound : (tables.clients.find? fun row ↦ row.id = requesterIdOf request).map
        ClientRow.id with
      | none => exact .failed _
      | some found =>
        refine .requesterFound ((find_client_isSome_iff tables _).mp ?_)
        rw [hfound]
        rfl
    | touchRequester => exact .requesterTouched
    | register =>
      have hexec : (Stage.register.call request ambient).exec limit tables = _ :=
        exec_addClient limit tables ambient.token (rawNameOf request) (publicKeyOf request)
          ambient.now
      rw [hexec]
      cases hinsert : tables.insertClient
        ⟨ambient.token, rawNameOf request, publicKeyOf request, ambient.now⟩ with
      | ok after => exact .registered hinsert
      | error exception => exact .failed _
    | listClients => exact .clientsListed
    | fetchKey =>
      have hexec : (Stage.fetchKey.call request ambient).exec limit tables = _ :=
        exec_getPublicKeyById limit tables (requestedIdOf request)
      rw [hexec]
      cases hfound : tables.clients.find? fun row ↦ row.id = requestedIdOf request with
      | none => exact .failed _
      | some row =>
        have hid : row.id = requestedIdOf request := by simpa using List.find?_some hfound
        change StageStep tables request ambient .fetchKey tables none
          (if row.publicKey.length = publicKeySize then _ else .answer errorResponse)
        split_ifs with hsize
        · exact .keyFetched (List.mem_of_find?_eq_some hfound) hid
        · exact .failed _
    | fetchMessages => exact .messagesFetched
    | removeMessages messages =>
      have hexec : ((Stage.removeMessages messages).call request ambient).exec limit tables = _ :=
        exec_deleteMessages limit tables (messages.map WaitingMessage.id)
      rw [hexec]
      split_ifs with hlimit
      · exact .failed _
      · exact .messagesRemoved messages
    | findTarget =>
      have hexec : (Stage.findTarget.call request ambient).exec limit tables = _ :=
        exec_clientExists limit tables (requestedIdOf request)
      rw [hexec]
      cases hfound : (tables.clients.find? fun row ↦ row.id = requestedIdOf request).map
        ClientRow.id with
      | none => exact .failed _
      | some found =>
        have htarget : tables.Registered (requestedIdOf request) :=
          (find_client_isSome_iff tables _).mp (by rw [hfound]; rfl)
        change StageStep tables request ambient .findTarget tables none
          (if ValidMessage request then .next .storeMessage else .answer errorResponse)
        split_ifs with hvalid
        · exact .targetFound htarget hvalid
        · exact .failed _
    | storeMessage => exact .messageStored

/-- An event leaves the server alone, begins a request on a connection without a running handler,
or makes the call of a running handler. This is all that the invariants know about a step. -/
theorem ServerState.stagedStep_cases {motive : ServerState Staged → Prop} (limit : Option ℕ)
    (server : ServerState Staged) (event : Event) (hsame : motive server)
    (harrive : ∀ connection request ambient, event = .arrive connection request ambient →
      server.running connection = none →
      motive (server.settle connection request (stagedOutcome ambient (start request))))
    (hcall : ∀ connection fault request ambient stage after row progress,
      event = .call connection fault →
      server.connections connection = .busy request (ambient, stage) →
      StageStep server.tables request ambient stage after row progress →
      motive ((server.afterCall after row).settle connection request
        (stagedOutcome ambient progress))) :
    motive (stagedStep limit server event) := by
  cases event with
  | arrive connection request ambient =>
    have hmotive := harrive connection request ambient rfl
    simp only [running] at hmotive
    simp only [stagedStep]
    cases hconnection : server.connections connection with
    | idle => exact hmotive (by rw [hconnection])
    | busy earlier rest => exact hsame
    | returned earlier response => exact hmotive (by rw [hconnection])
    | stopped => exact hsame
  | call connection fault =>
    simp only [stagedStep]
    cases hconnection : server.connections connection with
    | idle => exact hsame
    | busy request rest =>
      exact hcall connection fault request rest.1 rest.2 _ _ _ rfl hconnection
        (stageStep limit fault server.tables request rest.1 rest.2)
    | returned earlier response => exact hsame
    | stopped => exact hsame

end MessageU.Server
