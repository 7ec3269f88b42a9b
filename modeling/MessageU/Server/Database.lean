import MessageU.Server.Tables

/-!
# The `Database` class

Each method of `database.py` is a program over SQL statements: the statement it executes and, when
it writes, the `commit` behind it. `DbCall` lists the methods as the operations that the request
handlers request, and `DbCall.body` is the program of each.

`DbCall.exec` is a method run on its own from a connection without an open transaction, which is
the granularity at which handlers of different connections interleave: each method is one atomic
step on the tables. It is not a second definition of the methods but their bodies run with
`autocommit`. One lemma per method says what it does and returns.
-/

set_option autoImplicit false
set_option relaxedAutoImplicit false

namespace MessageU.Server

open Library Interaction

/-! ### The methods -/

namespace Database

/-- `self.conn.execute` with the fetch behind it, and `self.conn.commit`. -/
def execute (statement : Statement) : Interaction Sql PyError statement.Result :=
  .request statement .finished

@[simp] theorem execute_eq (statement : Statement) :
    execute statement = .request statement .finished :=
  rfl

/-- `Database.add_client`. -/
def addClient (clientId name publicKey : Bytes) (now : Timestamp) :
    Interaction Sql PyError Unit := do
  execute (.insertClient clientId name publicKey now)
  execute .commit

/-- `Database.update_client_last_seen`. -/
def updateClientLastSeen (clientId : Bytes) (now : Timestamp) :
    Interaction Sql PyError Unit := do
  execute (.updateLastSeen clientId now)
  execute .commit

/-- `Database.client_exists`. -/
def clientExists (clientId : Bytes) : Interaction Sql PyError (Option Bytes) :=
  execute (.selectClient clientId)

/-- `Database.list_clients_except`. -/
def listClientsExcept (requesterId : Bytes) : Interaction Sql PyError (List (Bytes × Bytes)) :=
  execute (.selectOtherClients requesterId)

/-- `Database.get_public_key_by_id`. -/
def getPublicKeyById (clientId : Bytes) : Interaction Sql PyError (Option Bytes) :=
  execute (.selectPublicKey clientId)

/-- `Database.add_message`: returns `cur.lastrowid`. -/
def addMessage (toClient fromClient : Bytes) (messageType : ℕ) (content : Bytes) :
    Interaction Sql PyError ℕ := do
  let lastRowId ← execute (.insertMessage toClient fromClient messageType content)
  execute .commit
  return lastRowId

/-- `Database.get_waiting_messages`. -/
def getWaitingMessages (toClient : Bytes) : Interaction Sql PyError (List WaitingMessage) :=
  execute (.selectMessages toClient)

/-- `Database.delete_messages`: nothing is executed for an empty list. -/
def deleteMessages (messageIds : List ℕ) : Interaction Sql PyError Unit :=
  if messageIds = [] then pure ()
  else do
    execute (.deleteMessages messageIds)
    execute .commit

end Database

/-- The methods a request handler calls, with their arguments. `now` is the time that the method
reads. -/
inductive DbCall
  | addClient (clientId name publicKey : Bytes) (now : Timestamp)
  | updateClientLastSeen (clientId : Bytes) (now : Timestamp)
  | clientExists (clientId : Bytes)
  | listClientsExcept (requesterId : Bytes)
  | getPublicKeyById (clientId : Bytes)
  | addMessage (toClient fromClient : Bytes) (messageType : ℕ) (content : Bytes)
  | getWaitingMessages (toClient : Bytes)
  | deleteMessages (messageIds : List ℕ)
  deriving DecidableEq, Repr

/-- What a method returns. -/
abbrev DbCall.Result : DbCall → Type
  | .addClient .. | .updateClientLastSeen .. | .deleteMessages _ => Unit
  | .clientExists _ | .getPublicKeyById _ => Option Bytes
  | .listClientsExcept _ => List (Bytes × Bytes)
  | .addMessage .. => ℕ
  | .getWaitingMessages _ => List WaitingMessage

/-- The program of a method. -/
def DbCall.body : (call : DbCall) → Interaction Sql PyError call.Result
  | .addClient clientId name publicKey now => Database.addClient clientId name publicKey now
  | .updateClientLastSeen clientId now => Database.updateClientLastSeen clientId now
  | .clientExists clientId => Database.clientExists clientId
  | .listClientsExcept requesterId => Database.listClientsExcept requesterId
  | .getPublicKeyById clientId => Database.getPublicKeyById clientId
  | .addMessage toClient fromClient messageType content =>
    Database.addMessage toClient fromClient messageType content
  | .getWaitingMessages toClient => Database.getWaitingMessages toClient
  | .deleteMessages messageIds => Database.deleteMessages messageIds

/-- The methods as the operations of a request handler. -/
abbrev Db : Signature where
  Operation := DbCall
  Result := DbCall.Result

/-! ### Methods as atomic steps -/

/-- One statement on tables that no other connection is changing. A statement that raises leaves
them alone. -/
def autocommit (limit : Option ℕ) (tables : Tables) (statement : Statement) :
    Tables × Except PyError statement.Result :=
  if statement.exceeds limit then (tables, .error .operationalError)
  else
    match statement.apply tables with
    | .ok (after, result) => (after, .ok result)
    | .error exception => (tables, .error exception)

/-- A method as one atomic step on the tables. -/
def DbCall.exec (limit : Option ℕ) (tables : Tables) (call : DbCall) :
    Tables × Except PyError call.Result :=
  call.body.run (autocommit limit) tables

section Exec

variable (limit : Option ℕ) (tables : Tables)

/-- `add_client` either inserts the row or raises `IntegrityError` and changes nothing. -/
theorem exec_addClient (clientId name publicKey : Bytes) (now : Timestamp) :
    DbCall.exec limit tables (.addClient clientId name publicKey now) =
      match tables.insertClient ⟨clientId, name, publicKey, now⟩ with
      | .ok after => (after, .ok ())
      | .error exception => (tables, .error exception) := by
  simp only [DbCall.exec, DbCall.body, Database.addClient, Database.execute_eq, bind_eq,
    attempt_request, attempt_finished, run_request, autocommit, Statement.exceeds, Statement.apply]
  cases tables.insertClient ⟨clientId, name, publicKey, now⟩ <;> rfl

@[simp] theorem exec_updateClientLastSeen (clientId : Bytes) (now : Timestamp) :
    DbCall.exec limit tables (.updateClientLastSeen clientId now) =
      (tables.updateLastSeen clientId now, .ok ()) :=
  rfl

@[simp] theorem exec_clientExists (clientId : Bytes) :
    DbCall.exec limit tables (.clientExists clientId) =
      (tables, .ok ((tables.clients.find? fun row ↦ row.id = clientId).map ClientRow.id)) :=
  rfl

@[simp] theorem exec_listClientsExcept (requesterId : Bytes) :
    DbCall.exec limit tables (.listClientsExcept requesterId) =
      (tables, .ok ((tables.clients.filter fun row ↦ row.id ≠ requesterId).map fun row ↦
        (row.id, row.userName))) :=
  rfl

@[simp] theorem exec_getPublicKeyById (clientId : Bytes) :
    DbCall.exec limit tables (.getPublicKeyById clientId) =
      (tables,
        .ok ((tables.clients.find? fun row ↦ row.id = clientId).map ClientRow.publicKey)) :=
  rfl

@[simp] theorem exec_addMessage (toClient fromClient : Bytes) (messageType : ℕ)
    (content : Bytes) :
    DbCall.exec limit tables (.addMessage toClient fromClient messageType content) =
      (tables.insertMessage toClient fromClient messageType content,
        .ok (tables.sequence + 1)) :=
  rfl

@[simp] theorem exec_getWaitingMessages (toClient : Bytes) :
    DbCall.exec limit tables (.getWaitingMessages toClient) =
      (tables, .ok (tables.waitingFor toClient)) :=
  rfl

/-- `delete_messages` removes the rows, unless they are more than a statement can name. -/
theorem exec_deleteMessages (messageIds : List ℕ) :
    DbCall.exec limit tables (.deleteMessages messageIds) =
      if limit.any (· < messageIds.length) then (tables, .error .operationalError)
      else (tables.deleteMessages messageIds, .ok ()) := by
  by_cases hempty : messageIds = []
  · subst hempty
    have hlimit : ¬limit.any (· < ([] : List ℕ).length) = true := by simp
    rw [if_neg hlimit, tables.deleteMessages_nil]
    rfl
  · by_cases hlimit : limit.any (· < messageIds.length) = true
    · simp [DbCall.exec, DbCall.body, Database.deleteMessages, hempty, autocommit,
        Statement.exceeds, hlimit]
    · simp [DbCall.exec, DbCall.body, Database.deleteMessages, hempty, autocommit,
        Statement.exceeds, Statement.apply, hlimit]

end Exec

/-! ### What the lookups find -/

/-- `client_exists` returns a row exactly for the registered clients. -/
theorem find_client_isSome_iff (tables : Tables) (clientId : Bytes) :
    ((tables.clients.find? fun row ↦ row.id = clientId).map ClientRow.id).isSome ↔
      tables.Registered clientId := by
  simp [Tables.Registered]

end MessageU.Server
