import Mathlib.Data.List.Nodup
import MessageU.Library.Interaction
import MessageU.Server.Protocol

/-!
# The SQLite tables and what one statement does to them

`Tables` holds the two tables that `Database._create_tables` declares. The constraints of the
declaration are fields: client IDs are a primary key, user names are unique, and message IDs come
from `AUTOINCREMENT`, so the rows are in strictly increasing ID order and no ID is above the
largest one ever assigned. SQLite enforces these, so a table that breaks them cannot be built.

`Statement` lists the statements `database.py` executes and `Statement.apply` is the effect of
one on the tables, with the result that is fetched from it. The only statement that can break a
constraint is the `INSERT` of a client. The only one whose number of bound parameters depends on
the data is the `DELETE`; `Statement.exceeds` compares it with the limit SQLite sets, where
`none` stands for a build without such a limit.
-/

set_option autoImplicit false
set_option relaxedAutoImplicit false

namespace MessageU.Server

open Library

/-- The text that `datetime.utcnow().isoformat()` returns. -/
abbrev Timestamp := String

/-- A row of the `clients` table. A user name is kept as its ASCII codes. -/
structure ClientRow where
  id : Bytes
  userName : Bytes
  publicKey : Bytes
  lastSeen : Timestamp
  deriving DecidableEq, Repr

/-- A row of the `messages` table. -/
structure MessageRow where
  id : ℕ
  toClient : Bytes
  fromClient : Bytes
  type : ℕ
  content : Bytes
  deriving DecidableEq, Repr

/-- The columns that `get_waiting_messages` selects. -/
def MessageRow.waiting (row : MessageRow) : WaitingMessage where
  id := row.id
  fromClient := row.fromClient
  type := row.type
  content := row.content

@[simp] theorem MessageRow.waiting_id (row : MessageRow) : row.waiting.id = row.id :=
  rfl

/-- The tables, with the constraints SQLite enforces on them. `sequence` is the largest message ID
ever assigned. -/
structure Tables where
  clients : List ClientRow
  messages : List MessageRow
  sequence : ℕ
  clientIds_nodup : (clients.map ClientRow.id).Nodup
  userNames_nodup : (clients.map ClientRow.userName).Nodup
  messageIds_increasing : (messages.map MessageRow.id).Pairwise (· < ·)
  messageIds_le : ∀ row ∈ messages, row.id ≤ sequence

/-- The tables `_create_tables` creates. -/
def Tables.empty : Tables where
  clients := []
  messages := []
  sequence := 0
  clientIds_nodup := List.nodup_nil
  userNames_nodup := List.nodup_nil
  messageIds_increasing := List.Pairwise.nil
  messageIds_le := fun _ hrow ↦ absurd hrow List.not_mem_nil

/-- A client with this ID is registered. -/
def Tables.Registered (tables : Tables) (clientId : Bytes) : Prop :=
  clientId ∈ tables.clients.map ClientRow.id

instance (tables : Tables) (clientId : Bytes) : Decidable (tables.Registered clientId) :=
  inferInstanceAs (Decidable (clientId ∈ tables.clients.map ClientRow.id))

/-- A row is determined by its ID. -/
theorem Tables.row_ext (tables : Tables) {first second : MessageRow}
    (hfirst : first ∈ tables.messages) (hsecond : second ∈ tables.messages)
    (hid : first.id = second.id) : first = second :=
  List.inj_on_of_nodup_map (tables.messageIds_increasing.imp fun h ↦ h.ne) hfirst hsecond hid

/-- The rows still waiting for a client, in ID order. -/
def Tables.waitingFor (tables : Tables) (clientId : Bytes) : List WaitingMessage :=
  (tables.messages.filter fun row ↦ row.toClient = clientId).map MessageRow.waiting

theorem waitingFor_congr {before after : Tables} (h : after.messages = before.messages)
    (clientId : Bytes) : after.waitingFor clientId = before.waitingFor clientId := by
  rw [Tables.waitingFor, Tables.waitingFor, h]

/-! ### Effects of the statements that write -/

/-- `INSERT INTO clients`: a client ID or user name that is already there breaks a constraint. -/
def Tables.insertClient (tables : Tables) (row : ClientRow) : Except PyError Tables :=
  if hid : row.id ∈ tables.clients.map ClientRow.id then .error .integrityError
  else if hname : row.userName ∈ tables.clients.map ClientRow.userName then
    .error .integrityError
  else
    .ok
      { tables with
        clients := tables.clients ++ [row]
        clientIds_nodup := by
          rw [List.map_append, List.map_singleton]
          exact List.nodup_append.mpr ⟨tables.clientIds_nodup, List.nodup_singleton _,
            fun _ hold _ hnew heq ↦ hid (by rwa [← List.mem_singleton.mp hnew, ← heq])⟩
        userNames_nodup := by
          rw [List.map_append, List.map_singleton]
          exact List.nodup_append.mpr ⟨tables.userNames_nodup, List.nodup_singleton _,
            fun _ hold _ hnew heq ↦ hname (by rwa [← List.mem_singleton.mp hnew, ← heq])⟩ }

/-- An accepted `INSERT` appends the row and touches nothing else; its ID and name were free. -/
theorem Tables.insertClient_eq_ok {tables after : Tables} {row : ClientRow}
    (h : tables.insertClient row = .ok after) :
    after.clients = tables.clients ++ [row] ∧ after.messages = tables.messages ∧
      after.sequence = tables.sequence ∧ ¬tables.Registered row.id ∧
      row.userName ∉ tables.clients.map ClientRow.userName := by
  unfold insertClient at h
  split_ifs at h with hid hname
  cases h
  exact ⟨rfl, rfl, rfl, hid, hname⟩

/-- An `INSERT` with a free ID and a free name is accepted. -/
theorem Tables.exists_insertClient {tables : Tables} (row : ClientRow)
    (hid : ¬tables.Registered row.id)
    (hname : row.userName ∉ tables.clients.map ClientRow.userName) :
    ∃ after, tables.insertClient row = .ok after := by
  unfold insertClient
  exact ⟨_, (dif_neg hid).trans (dif_neg hname)⟩

/-- The row with a new `LastSeen` when it is the client's. -/
def ClientRow.touch (clientId : Bytes) (now : Timestamp) (row : ClientRow) : ClientRow :=
  if row.id = clientId then { row with lastSeen := now } else row

@[simp] theorem ClientRow.touch_id (clientId : Bytes) (now : Timestamp) (row : ClientRow) :
    (row.touch clientId now).id = row.id := by
  unfold ClientRow.touch
  split <;> rfl

@[simp] theorem ClientRow.touch_userName (clientId : Bytes) (now : Timestamp) (row : ClientRow) :
    (row.touch clientId now).userName = row.userName := by
  unfold ClientRow.touch
  split <;> rfl

@[simp] theorem ClientRow.touch_publicKey (clientId : Bytes) (now : Timestamp)
    (row : ClientRow) : (row.touch clientId now).publicKey = row.publicKey := by
  unfold ClientRow.touch
  split <;> rfl

/-- `UPDATE clients SET LastSeen = ? WHERE ID = ?`. -/
def Tables.updateLastSeen (tables : Tables) (clientId : Bytes) (now : Timestamp) : Tables :=
  { tables with
    clients := tables.clients.map (ClientRow.touch clientId now)
    clientIds_nodup := by
      simpa only [List.map_map, Function.comp_def, ClientRow.touch_id] using tables.clientIds_nodup
    userNames_nodup := by
      simpa only [List.map_map, Function.comp_def, ClientRow.touch_userName] using
        tables.userNames_nodup }

/-- The IDs and names of all clients but one. -/
def Tables.otherClients (tables : Tables) (clientId : Bytes) : List (Bytes × Bytes) :=
  (tables.clients.filter fun row ↦ row.id ≠ clientId).map fun row ↦ (row.id, row.userName)

/-- A new `LastSeen` shows in no list of clients. -/
theorem Tables.otherClients_updateLastSeen (tables : Tables) (touched : Bytes) (now : Timestamp)
    (clientId : Bytes) :
    (tables.updateLastSeen touched now).otherClients clientId = tables.otherClients clientId := by
  have hkept : ((fun row : ClientRow ↦ decide (row.id ≠ clientId)) ∘ ClientRow.touch touched now) =
      fun row ↦ decide (row.id ≠ clientId) :=
    funext fun row ↦ by rw [Function.comp_apply, ClientRow.touch_id]
  have hlisted : (fun row : ClientRow ↦ (row.id, row.userName)) ∘ ClientRow.touch touched now =
      fun row ↦ (row.id, row.userName) :=
    funext fun row ↦ by rw [Function.comp_apply, ClientRow.touch_id, ClientRow.touch_userName]
  rw [otherClients, updateLastSeen, List.filter_map, List.map_map, hkept, hlisted]
  rfl

/-- `INSERT INTO messages`: the new row gets the next `AUTOINCREMENT` ID. -/
def Tables.insertMessage (tables : Tables) (toClient fromClient : Bytes) (type : ℕ)
    (content : Bytes) : Tables :=
  { tables with
    messages := tables.messages ++ [⟨tables.sequence + 1, toClient, fromClient, type, content⟩]
    sequence := tables.sequence + 1
    messageIds_increasing := by
      rw [List.map_append, List.map_singleton, List.pairwise_append]
      refine ⟨tables.messageIds_increasing, List.pairwise_singleton _ _, fun old hold new hnew ↦ ?_⟩
      obtain ⟨row, hrow, rfl⟩ := List.mem_map.mp hold
      rw [List.mem_singleton.mp hnew]
      exact Nat.lt_succ_of_le (tables.messageIds_le row hrow)
    messageIds_le := fun row hrow ↦ by
      rcases List.mem_append.mp hrow with hold | hnew
      · exact Nat.le_succ_of_le (tables.messageIds_le row hold)
      · rw [List.mem_singleton.mp hnew] }

/-- `DELETE FROM messages WHERE ID IN (...)`. -/
def Tables.deleteMessages (tables : Tables) (ids : List ℕ) : Tables :=
  { tables with
    messages := tables.messages.filter fun row ↦ row.id ∉ ids
    messageIds_increasing :=
      tables.messageIds_increasing.sublist (List.filter_sublist.map MessageRow.id)
    messageIds_le := fun row hrow ↦ tables.messageIds_le row (List.mem_of_mem_filter hrow) }

/-- Deleting no rows changes nothing. -/
theorem Tables.deleteMessages_nil (tables : Tables) : tables.deleteMessages [] = tables := by
  have hfilter : (tables.messages.filter fun row ↦ row.id ∉ ([] : List ℕ)) = tables.messages :=
    List.filter_eq_self.mpr fun row _ ↦ by simp
  simp only [deleteMessages, hfilter]

/-! ### What is waiting after a deletion -/

/-- What is waiting for a client after a deletion. -/
theorem waitingFor_deleteMessages_eq (tables : Tables) (ids : List ℕ) (clientId : Bytes) :
    (tables.deleteMessages ids).waitingFor clientId =
      (tables.waitingFor clientId).filter fun message ↦ message.id ∉ ids := by
  rw [Tables.waitingFor, Tables.waitingFor, Tables.deleteMessages, List.filter_map,
    List.filter_filter, List.filter_filter]
  refine congrArg (List.map _) (List.filter_congr fun row _ ↦ ?_)
  exact Bool.and_comm _ _

/-- The waiting messages of a client have distinct IDs. -/
theorem waitingFor_ids_nodup (tables : Tables) (clientId : Bytes) :
    ((tables.waitingFor clientId).map WaitingMessage.id).Nodup := by
  have hids : (tables.waitingFor clientId).map WaitingMessage.id =
      (tables.messages.filter fun row ↦ row.toClient = clientId).map MessageRow.id := by
    rw [Tables.waitingFor, List.map_map]
    rfl
  have hnodup : (tables.messages.map MessageRow.id).Nodup :=
    tables.messageIds_increasing.imp fun h ↦ h.ne
  rw [hids]
  exact hnodup.sublist (List.filter_sublist.map _)

/-- The rows of one client are not the rows that are deleted for another one. -/
theorem waitingFor_deleteMessages_other (tables : Tables) {messages : List WaitingMessage}
    {requester clientId : Bytes} (hmessages : ∀ message ∈ messages,
      message ∈ tables.waitingFor requester) (hother : requester ≠ clientId) :
    (tables.deleteMessages (messages.map WaitingMessage.id)).waitingFor clientId =
      tables.waitingFor clientId := by
  rw [waitingFor_deleteMessages_eq, List.filter_eq_self]
  intro kept hkept
  refine decide_eq_true fun hid ↦ ?_
  obtain ⟨message, hmessage, heq⟩ := List.mem_map.mp hid
  obtain ⟨selected, hselected, rfl⟩ := List.mem_map.mp (hmessages message hmessage)
  obtain ⟨row, hrow, rfl⟩ := List.mem_map.mp hkept
  obtain ⟨hselectedRow, hselectedClient⟩ := List.mem_filter.mp hselected
  obtain ⟨hrowRow, hrowClient⟩ := List.mem_filter.mp hrow
  have hsame : selected = row := tables.row_ext hselectedRow hrowRow heq
  rw [hsame] at hselectedClient
  exact hother ((of_decide_eq_true hselectedClient).symm.trans (of_decide_eq_true hrowClient))

/-- Deleting a beginning of the rows of a client leaves the rest of them. -/
theorem waitingFor_deleteMessages (tables : Tables) {messages rest : List WaitingMessage}
    {clientId : Bytes} (hwaiting : tables.waitingFor clientId = messages ++ rest) :
    (tables.deleteMessages (messages.map WaitingMessage.id)).waitingFor clientId = rest := by
  have hnodup := waitingFor_ids_nodup tables clientId
  rw [hwaiting, List.map_append, List.nodup_append] at hnodup
  have hmessages : (messages.filter fun message ↦
      message.id ∉ messages.map WaitingMessage.id) = [] :=
    List.filter_eq_nil_iff.mpr fun message hmessage h ↦
      of_decide_eq_true h (List.mem_map_of_mem hmessage)
  have hrest : (rest.filter fun message ↦ message.id ∉ messages.map WaitingMessage.id) = rest :=
    List.filter_eq_self.mpr fun message hmessage ↦ decide_eq_true fun hid ↦
      hnodup.2.2 _ hid _ (List.mem_map_of_mem hmessage) rfl
  rw [waitingFor_deleteMessages_eq, hwaiting, List.filter_append, hmessages, hrest,
    List.nil_append]

/-! ### Statements -/

/-- The statements of `database.py`, with their bound parameters, and `commit`. -/
inductive Statement
  | insertClient (clientId name publicKey : Bytes) (now : Timestamp)
  | updateLastSeen (clientId : Bytes) (now : Timestamp)
  | selectClient (clientId : Bytes)
  | selectOtherClients (requesterId : Bytes)
  | selectPublicKey (clientId : Bytes)
  | insertMessage (toClient fromClient : Bytes) (type : ℕ) (content : Bytes)
  | selectMessages (toClient : Bytes)
  | deleteMessages (ids : List ℕ)
  | commit
  deriving DecidableEq, Repr

/-- What is fetched from a statement: a row or `None`, the rows, or `cur.lastrowid`. -/
abbrev Statement.Result : Statement → Type
  | .insertClient .. | .updateLastSeen .. | .deleteMessages _ | .commit => Unit
  | .selectClient _ | .selectPublicKey _ => Option Bytes
  | .selectOtherClients _ => List (Bytes × Bytes)
  | .insertMessage .. => ℕ
  | .selectMessages _ => List WaitingMessage

/-- The statements that take SQLite's write lock. -/
def Statement.isWrite : Statement → Bool
  | .insertClient .. | .updateLastSeen .. | .insertMessage .. | .deleteMessages _ => true
  | .selectClient _ | .selectOtherClients _ | .selectPublicKey _ | .selectMessages _ | .commit =>
    false

/-- The effect of a statement on the tables and what is fetched from it. -/
def Statement.apply (tables : Tables) :
    (statement : Statement) → Except PyError (Tables × statement.Result)
  | .insertClient clientId name publicKey now => do
    let after ← tables.insertClient ⟨clientId, name, publicKey, now⟩
    return (after, ())
  | .updateLastSeen clientId now => .ok (tables.updateLastSeen clientId now, ())
  | .selectClient clientId =>
    .ok (tables, (tables.clients.find? fun row ↦ row.id = clientId).map ClientRow.id)
  | .selectOtherClients requesterId =>
    .ok (tables, (tables.clients.filter fun row ↦ row.id ≠ requesterId).map fun row ↦
      (row.id, row.userName))
  | .selectPublicKey clientId =>
    .ok (tables, (tables.clients.find? fun row ↦ row.id = clientId).map ClientRow.publicKey)
  | .insertMessage toClient fromClient type content =>
    .ok (tables.insertMessage toClient fromClient type content, tables.sequence + 1)
  | .selectMessages toClient => .ok (tables, tables.waitingFor toClient)
  | .deleteMessages ids => .ok (tables.deleteMessages ids, ())
  | .commit => .ok (tables, ())

/-- The statement binds more parameters than SQLite accepts. Every statement but the `DELETE` binds
at most four, which is always accepted. -/
def Statement.exceeds (limit : Option ℕ) : Statement → Bool
  | .deleteMessages ids => limit.any (· < ids.length)
  | _ => false

/-- The statements as the operations of a program. -/
abbrev Sql : Signature where
  Operation := Statement
  Result := Statement.Result

end MessageU.Server
