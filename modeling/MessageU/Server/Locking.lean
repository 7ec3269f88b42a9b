import MessageU.Library.Transactions
import MessageU.Server.Sequential

/-!
# Transactions of the connections

Below the method calls are the statements. Every thread has a `Database` object of its own, hence a
connection of its own to the SQLite file, and the threads interleave between statements: a write
opens a transaction on the connection of its thread and takes the write lock of the file, and the
`commit` behind it ends the transaction. `SqlServer` is the system of the threads at this level; the
handlers are the same programs, with every method replaced by its statements.

A request is meant to leave nothing behind on its connection. Every method whose write is accepted
commits (`body_closes`), so in every run in which all writes are accepted a connection between
requests is in no transaction and holds no lock (`answered_released`). A write that is not accepted
raises, nothing rolls back, and the request is answered with the transaction still open
(`duplicate_registration_keeps_lock`).
-/

set_option autoImplicit false
set_option relaxedAutoImplicit false

namespace MessageU.Server

open Library

/-! ### The system of the statements -/

/-- A handler as a program over statements. -/
abbrev SqlHandler := Interaction Sql PyError Bytes

/-- `request_handler_main`, down to its statements. -/
def sqlHandlerMain (data : Bytes) (ambient : Ambient) : SqlHandler :=
  (requestHandlerMain data ambient).expand DbCall.body

/-- A statement on a connection. A statement that names too many rows raises before it is begun. -/
def Statement.execute (limit : Option ℕ) (store : Transactions Tables) (connection : ℕ)
    (statement : Statement) : Transactions Tables × Except PyError statement.Result :=
  if statement.exceeds limit then (store, .error .operationalError)
  else if statement.isWrite then
    store.write connection .operationalError statement.apply
  else
    (if statement = .commit then store.commit connection else store,
      (statement.apply (store.view connection)).map Prod.snd)

/-- The threads and the file they share. -/
structure SqlServer where
  store : Transactions Tables
  connections : ℕ → Connection SqlHandler

/-- Something happens at a connection: a request arrives, the next statement of its handler is
executed, or `handle_client` has left its loop and closes the database connection. -/
inductive SqlEvent
  | arrive (connection : ℕ) (request : Bytes) (ambient : Ambient)
  | execute (connection : ℕ)
  | close (connection : ℕ)

/-- What a connection has come to with the remaining program of its handler. -/
def Connection.settled (request : Bytes) : SqlHandler → Connection SqlHandler
  | .finished (.ok response) => .returned request response
  | .finished (.error _) => .stopped
  | .request statement resume => .busy request (.request statement resume)

namespace SqlServer

/-- The server before any connection is accepted, on empty tables. -/
def initial : SqlServer where
  store := .quiet Tables.empty
  connections := fun _ ↦ .idle

/-- The server with a connection that has come to a program and a store. -/
def settle (server : SqlServer) (connection : ℕ) (request : Bytes) (program : SqlHandler)
    (store : Transactions Tables) : SqlServer where
  store := store
  connections := Function.update server.connections connection (.settled request program)

/-- One event. -/
def step (limit : Option ℕ) (server : SqlServer) : SqlEvent → SqlServer
  | .arrive connection request ambient =>
    match server.connections connection with
    | .idle | .returned _ _ =>
      server.settle connection request (sqlHandlerMain request ambient) server.store
    | .busy _ _ | .stopped => server
  | .execute connection =>
    match server.connections connection with
    | .busy request (.request statement resume) =>
      let result := statement.execute limit server.store connection
      server.settle connection request (resume result.2) result.1
    | .busy _ (.finished _) | .idle | .returned _ _ | .stopped => server
  | .close connection =>
    match server.connections connection with
    | .idle | .returned _ _ | .stopped =>
      { store := server.store.rollback connection
        connections := Function.update server.connections connection .idle }
    | .busy _ _ => server

/-- The statement that the handler of a connection is about to execute. -/
def nextStatement (server : SqlServer) (connection : ℕ) : Option Statement :=
  match server.connections connection with
  | .busy _ (.request statement _) => some statement
  | _ => none

/-- A handler is running on the connection. -/
def running (server : SqlServer) (connection : ℕ) : Bool :=
  match server.connections connection with
  | .busy _ _ => true
  | .idle | .returned _ _ | .stopped => false

/-- Answered requests leave nothing behind: a connection without a running handler is in no
transaction, and whoever holds the write lock is running a handler. -/
structure Released (server : SqlServer) : Prop where
  closed : ∀ connection, server.running connection = false →
    server.store.opened connection = false
  unlocked : ∀ connection ∈ server.store.holder, server.running connection = true

/-! ### Runs whose writes are accepted -/

/-- A write that SQLite accepts: the statement keeps the constraints of the tables. The limit of
SQLite on the size of a value is left out: every content is taken to be below it. -/
def Keeps (tables : Tables) : Statement → Prop
  | .insertClient clientId name _ _ =>
    ¬tables.Registered clientId ∧ name ∉ tables.clients.map ClientRow.userName
  | _ => True

instance (tables : Tables) (statement : Statement) : Decidable (Keeps tables statement) := by
  cases statement <;> unfold Keeps Tables.Registered <;> infer_instance

/-- A statement that is not refused: if it is a write, no other connection holds the write lock and
it breaks no constraint. -/
def Accepted (server : SqlServer) : SqlEvent → Prop
  | .execute connection => ∀ statement ∈ server.nextStatement connection,
    statement.isWrite → server.store.Free connection ∧
      Keeps (server.store.view connection) statement
  | .arrive _ _ _ | .close _ => True

instance (server : SqlServer) (event : SqlEvent) : Decidable (server.Accepted event) := by
  cases event <;> unfold Accepted <;> infer_instance

end SqlServer

/-! ### Methods end their transactions -/

/-- What an accepted statement does to the transaction of its connection: a write opens it unless it
raises before it is begun, and `commit` ends it. -/
def Statement.Moves (opened : Bool) (statement : Statement)
    (answer : Except PyError statement.Result) (after : Bool) : Prop :=
  if statement.isWrite then after = (answer.isOk || opened)
  else if statement = .commit then after = false
  else after = opened

/-- The program ends outside a transaction, if it is now inside one or not as given. -/
abbrev Closes {α : Type} (program : Interaction Sql PyError α) (opened : Bool) : Prop :=
  Interaction.Ensures Statement.Moves (fun _ after ↦ after = false) program opened

section Closes

variable {α : Type} {statement : Statement}
  {resume : Except PyError statement.Result → Interaction Sql PyError α}

/-- A write closes if what follows it does: inside a transaction if it returns, outside if it
raises. -/
theorem closes_write (hwrite : statement.isWrite = true)
    (hok : ∀ result, Closes (resume (.ok result)) true)
    (herror : ∀ exception, Closes (resume (.error exception)) false) :
    Closes (.request statement resume) false := by
  intro answer after hmoves
  unfold Statement.Moves at hmoves
  rw [if_pos hwrite] at hmoves
  cases answer with
  | ok result =>
    subst hmoves
    exact hok result
  | error exception =>
    subst hmoves
    exact herror exception

/-- A `commit` closes if what follows it closes. -/
theorem closes_commit {opened : Bool}
    {resume : Except PyError Unit → Interaction Sql PyError α}
    (hrest : ∀ answer, Closes (resume answer) false) :
    Closes (.request .commit resume) opened := by
  intro answer after hmoves
  have hafter : after = false := hmoves
  subst hafter
  exact hrest answer

/-- A read closes if what follows it closes. -/
theorem closes_read {opened : Bool} (hwrite : statement.isWrite = false)
    (hcommit : statement ≠ .commit) (hrest : ∀ answer, Closes (resume answer) opened) :
    Closes (.request statement resume) opened := by
  intro answer after hmoves
  unfold Statement.Moves at hmoves
  rw [if_neg (by simp [hwrite]), if_neg hcommit] at hmoves
  subst hmoves
  exact hrest answer

end Closes

/-- Every method that begins outside a transaction ends outside one. -/
theorem body_closes (call : DbCall) : Closes call.body false := by
  cases call with
  | addClient clientId name publicKey now =>
    exact closes_write rfl (fun _ ↦ closes_commit fun _ ↦ rfl) fun _ ↦ rfl
  | updateClientLastSeen clientId now =>
    exact closes_write rfl (fun _ ↦ closes_commit fun _ ↦ rfl) fun _ ↦ rfl
  | addMessage toClient fromClient messageType content =>
    refine closes_write rfl (fun _ ↦ closes_commit fun answer ↦ ?_) fun _ ↦ rfl
    cases answer <;> rfl
  | deleteMessages messageIds =>
    change Closes (Database.deleteMessages messageIds) false
    unfold Database.deleteMessages
    split_ifs
    · rfl
    · exact closes_write rfl (fun _ ↦ closes_commit fun _ ↦ rfl) fun _ ↦ rfl
  | clientExists | listClientsExcept | getPublicKeyById | getWaitingMessages =>
    exact closes_read rfl (fun h ↦ Statement.noConfusion h) fun _ ↦ rfl

/-- So does every request, whatever its handler does. -/
theorem sqlHandlerMain_closes (data : Bytes) (ambient : Ambient) :
    Closes (sqlHandlerMain data ambient) false :=
  Interaction.Ensures.expand (P := fun opened ↦ opened = false)
    (fun call _ hopened ↦ by
      subst hopened
      exact body_closes call) (requestHandlerMain data ambient) rfl

/-! ### What an accepted statement does -/

section Execute

variable (limit : Option ℕ) (store : Transactions Tables) (connection : ℕ) (statement : Statement)

/-- Only writes name rows. -/
theorem isWrite_of_exceeds {limit : Option ℕ} {statement : Statement}
    (h : statement.exceeds limit = true) : statement.isWrite = true := by
  cases statement with
  | deleteMessages ids => rfl
  | _ => cases h

/-- A write that keeps the constraints does not raise by itself. -/
theorem exists_apply_of_keeps {tables : Tables} {statement : Statement}
    (h : SqlServer.Keeps tables statement) :
    ∃ after result, statement.apply tables = .ok (after, result) := by
  cases statement with
  | insertClient clientId name publicKey now =>
    obtain ⟨after, hinsert⟩ :=
      Tables.exists_insertClient ⟨clientId, name, publicKey, now⟩ h.1 h.2
    refine ⟨after, (), ?_⟩
    rw [Statement.apply, hinsert]
    rfl
  | _ => exact ⟨_, _, rfl⟩

/-- A statement moves no other connection's transaction. -/
theorem execute_opened_of_ne {other : ℕ} (hother : other ≠ connection) :
    (statement.execute limit store connection).1.opened other = store.opened other := by
  unfold Statement.execute
  split_ifs
  · rfl
  · rw [Transactions.write_opened, Function.update_of_ne hother]
  · exact (congrFun (store.commit_opened connection) other).trans (Function.update_of_ne hother _ _)
  · rfl

theorem execute_holderOpen {store : Transactions Tables} (h : store.HolderOpen) :
    (statement.execute limit store connection).1.HolderOpen := by
  unfold Statement.execute
  split_ifs
  · exact h
  · exact h.write connection _ _
  · exact h.commit connection
  · exact h

/-- An accepted statement moves the transaction of its connection as it should. -/
theorem execute_moves {limit : Option ℕ} {store : Transactions Tables} {connection : ℕ}
    {statement : Statement} (haccepted : statement.isWrite = true →
      store.Free connection ∧ SqlServer.Keeps (store.view connection) statement) :
    statement.Moves (store.opened connection) (statement.execute limit store connection).2
      ((statement.execute limit store connection).1.opened connection) := by
  unfold Statement.Moves
  by_cases hexceeds : statement.exceeds limit = true
  · have hexecute : statement.execute limit store connection =
        (store, .error .operationalError) := if_pos hexceeds
    rw [hexecute, if_pos (isWrite_of_exceeds hexceeds)]
    rfl
  · by_cases hwrite : statement.isWrite = true
    · obtain ⟨hfree, hkeeps⟩ := haccepted hwrite
      obtain ⟨after, result, happly⟩ := exists_apply_of_keeps hkeeps
      have hexecute : statement.execute limit store connection =
          store.write connection .operationalError statement.apply :=
        (if_neg hexceeds).trans (if_pos hwrite)
      rw [hexecute, Transactions.write_of_ok connection hfree happly, if_pos hwrite]
      exact Function.update_self _ _ _
    · have hexecute : statement.execute limit store connection =
          (if statement = .commit then store.commit connection else store,
            (statement.apply (store.view connection)).map Prod.snd) :=
        (if_neg hexceeds).trans (if_neg hwrite)
      rw [hexecute, if_neg hwrite]
      split_ifs
      · exact (congrFun (store.commit_opened connection) connection).trans
          (Function.update_self _ _ _)
      · rfl

end Execute

/-! ### Runs -/

/-- The transaction of a connection is open only while its handler runs, and will be ended. -/
def Connection.Closing : Connection SqlHandler → (opened : Bool) → Prop
  | .busy _ program, opened => Closes program opened
  | .idle, opened | .returned _ _, opened | .stopped, opened => opened = false

theorem closing_settled (request : Bytes) {program : SqlHandler} {opened : Bool}
    (h : Closes program opened) : (Connection.settled request program).Closing opened := by
  cases program with
  | finished outcome => cases outcome <;> exact h
  | request statement resume => exact h

namespace SqlServer

/-- What carries the release of transactions through a run. -/
structure Sound (server : SqlServer) : Prop where
  holder : server.store.HolderOpen
  closing : ∀ connection, (server.connections connection).Closing (server.store.opened connection)

theorem sound_initial : Sound initial :=
  ⟨Transactions.holderOpen_quiet _, fun _ ↦ rfl⟩

/-- A connection that comes to a program that closes, with the other connections and transactions as
they were. -/
theorem Sound.settle {server : SqlServer} (h : Sound server) (connection : ℕ) (request : Bytes)
    {program : SqlHandler} {store : Transactions Tables} (hholder : store.HolderOpen)
    (hothers : ∀ other, other ≠ connection → store.opened other = server.store.opened other)
    (hcloses : Closes program (store.opened connection)) :
    Sound (server.settle connection request program store) := by
  refine ⟨hholder, fun other ↦ ?_⟩
  change ((Function.update server.connections connection (.settled request program)) other).Closing
    (store.opened other)
  by_cases hother : other = connection
  · subst hother
    rw [Function.update_self]
    exact closing_settled request hcloses
  · rw [Function.update_of_ne hother, hothers other hother]
    exact h.closing other

/-- An accepted event keeps it. -/
theorem Sound.step {server : SqlServer} (h : Sound server) {event : SqlEvent} (limit : Option ℕ)
    (haccepted : server.Accepted event) : Sound (step limit server event) := by
  cases event with
  | arrive connection request ambient =>
    have hclosing := h.closing connection
    simp only [SqlServer.step]
    cases hconnection : server.connections connection with
    | busy | stopped => exact h
    | idle | returned =>
      rw [hconnection] at hclosing
      refine h.settle connection request h.holder (fun _ _ ↦ rfl) ?_
      rw [show server.store.opened connection = false from hclosing]
      exact sqlHandlerMain_closes request ambient
  | execute connection =>
    have hclosing := h.closing connection
    simp only [SqlServer.step]
    cases hconnection : server.connections connection with
    | idle | returned | stopped => exact h
    | busy request program =>
      cases program with
      | finished outcome => exact h
      | request statement resume =>
        rw [hconnection] at hclosing
        have hnext : statement ∈ server.nextStatement connection := by
          rw [nextStatement, hconnection]
          rfl
        exact h.settle connection request (execute_holderOpen limit connection statement h.holder)
          (fun other hother ↦ execute_opened_of_ne limit _ connection statement hother)
          (hclosing _ _ (execute_moves (haccepted statement hnext)))
  | close connection =>
    have hrollback : Sound
        { store := server.store.rollback connection
          connections := Function.update server.connections connection .idle } := by
      refine ⟨h.holder.rollback connection, fun other ↦ ?_⟩
      change ((Function.update server.connections connection .idle) other).Closing
        (Function.update server.store.opened connection false other)
      by_cases hother : other = connection
      · subst hother
        rw [Function.update_self, Function.update_self]
        exact rfl
      · rw [Function.update_of_ne hother, Function.update_of_ne hother]
        exact h.closing other
    simp only [SqlServer.step]
    cases server.connections connection with
    | busy => exact h
    | idle | returned | stopped => exact hrollback

/-- A sound server has released what answered requests held. -/
theorem Sound.released {server : SqlServer} (h : Sound server) : Released server := by
  have hclosed : ∀ connection, server.running connection = false →
      server.store.opened connection = false := by
    intro connection hrunning
    have hclosing := h.closing connection
    unfold running at hrunning
    cases hconnection : server.connections connection with
    | busy request program => simp [hconnection] at hrunning
    | idle | returned | stopped =>
      rw [hconnection] at hclosing
      exact hclosing
  refine ⟨hclosed, fun connection hholder ↦ ?_⟩
  by_contra hrunning
  have hopen := h.holder connection hholder
  rw [hclosed connection (Bool.eq_false_iff.mpr hrunning)] at hopen
  cases hopen

/-- No request leaves its connection inside a transaction. Assumes: a run from empty tables, over
any connections and requests, in which every write is accepted: it is executed while no other
connection holds the write lock, and a registration inserts a free ID and a free name. Then a
connection whose handler is not running is in no transaction and does not hold the write lock. -/
theorem answered_released (limit : Option ℕ) (events : List SqlEvent)
    (hrun : Along (step limit) Accepted initial events) :
    Released (runEvents (step limit) initial events) :=
  (Along.invariant (fun _ _ haccepted h ↦ h.step limit haccepted) sound_initial hrun).released

/-! ### A registration that is refused -/

/-- All statements of a request that nothing comes between. -/
def sqlSession (connection : ℕ) (data : Bytes) (ambient : Ambient) (statements : ℕ) :
    List SqlEvent :=
  .arrive connection data ambient :: List.replicate statements (.execute connection)

/-- A client that has registered asks for its messages while another client registers: the one reads
while the other one holds the write lock, and writes when it has been released. -/
def sqlInterleavedRun : List SqlEvent :=
  sqlSession 0 soloRegistration soloAmbient 2 ++
    [.arrive 1 (secondRegistration [66]) secondAmbient, .arrive 0 soloPull soloAmbient,
      .execute 1, .execute 0, .execute 1] ++ List.replicate 4 (.execute 0)

/-- A run whose writes are accepted. -/
theorem answered_released_interleavedRun :
    Released (runEvents (step none) initial sqlInterleavedRun) :=
  answered_released none sqlInterleavedRun (by decide +kernel)

/-- The same name is registered on two connections, one after the other. -/
def duplicateRun : List SqlEvent :=
  sqlSession 0 soloRegistration soloAmbient 2 ++
    sqlSession 1 (secondRegistration soloRow.userName) secondAmbient 1

/-- The registration of a name that is taken is answered while its connection holds the write
lock. -/
theorem duplicate_registration_keeps_lock :
    ¬∀ (limit : Option ℕ) (events : List SqlEvent),
      Released (runEvents (step limit) initial events) := by
  intro h
  have hholder : 1 ∈ (runEvents (step none) initial duplicateRun).store.holder := by
    decide +kernel
  have hanswered : (runEvents (step none) initial duplicateRun).running 1 = false := by
    decide +kernel
  rw [(h none duplicateRun).unlocked 1 hholder] at hanswered
  cases hanswered

end SqlServer

end MessageU.Server
