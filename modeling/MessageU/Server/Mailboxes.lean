import MessageU.Library.Mailbox
import MessageU.Server.Sequential

/-!
# Delivery of messages

For one client the server is a mailbox: its rows in the messages table are what is waiting, the
rows inserted for it are what was accepted, the records of the `2104` responses to its requests are
what was delivered, and a handler between `get_waiting_messages` and `delete_messages` holds the
rows it has selected. `mailbox` is this view, and `mailbox_step` says that every event takes a step
of `Library.Mailbox` in it, provided that no `SELECT` of a client happens while another handler of
the client is between its own `SELECT` and its `DELETE`. The step is lossy only where the payload
of the response is too long for its length field.

The two delivery results are the two invariants of mailboxes. Without overlapping pulls and with
payloads that fit, the delivered records followed by the waiting rows are the inserted rows
(`delivery_in_order`). Without overlapping selections no message is in two responses
(`delivered_at_most_once`), and with them it can be (`overlapping_pulls_deliver_twice`).
-/

set_option autoImplicit false
set_option relaxedAutoImplicit false

namespace MessageU.Server

open Library

/-! ### What was accepted and what was delivered -/

/-- The messages among the rows that are for a client. -/
def messagesFor (rows : List MessageRow) (clientId : Bytes) : List WaitingMessage :=
  (rows.filter fun row ↦ row.toClient = clientId).map MessageRow.waiting

/-- The records of the `2104` responses to a client's requests, in the order of the responses. -/
def deliveredTo (answers : List Answer) (clientId : Bytes) : List WaitingMessage :=
  (answers.filter fun answer ↦ requesterIdOf answer.request = clientId ∧
    responseCode answer.response = responseWaitingMessages).flatMap
      fun answer ↦ recordsIn answer.response

theorem messagesFor_none (clientId : Bytes) :
    messagesFor (none : Option MessageRow).toList clientId = [] :=
  rfl

theorem messagesFor_append (first second : List MessageRow) (clientId : Bytes) :
    messagesFor (first ++ second) clientId =
      messagesFor first clientId ++ messagesFor second clientId := by
  rw [messagesFor, List.filter_append, List.map_append]
  rfl

theorem messagesFor_singleton {row : MessageRow} {clientId : Bytes}
    (h : row.toClient = clientId) : messagesFor [row] clientId = [row.waiting] := by
  rw [messagesFor, List.filter_cons_of_pos]
  · rfl
  · exact decide_eq_true h

theorem messagesFor_singleton_other {row : MessageRow} {clientId : Bytes}
    (h : row.toClient ≠ clientId) : messagesFor [row] clientId = [] := by
  rw [messagesFor, List.filter_cons_of_neg]
  · rfl
  · exact fun heq ↦ h (of_decide_eq_true heq)

theorem deliveredTo_append (first second : List Answer) (clientId : Bytes) :
    deliveredTo (first ++ second) clientId =
      deliveredTo first clientId ++ deliveredTo second clientId := by
  rw [deliveredTo, List.filter_append, List.flatMap_append]
  rfl

/-- An answer with another code delivers nothing. -/
theorem deliveredTo_singleton_of_ne {connection : ℕ} {request response clientId : Bytes}
    (h : responseCode response ≠ responseWaitingMessages) :
    deliveredTo [⟨connection, request, response⟩] clientId = [] := by
  rw [deliveredTo, List.filter_cons_of_neg]
  · rfl
  · exact fun heq ↦ h (of_decide_eq_true heq).2

/-- A request that goes on has delivered nothing yet. -/
theorem deliveredTo_next (connection : ℕ) (request : Bytes) (stage : Stage) (clientId : Bytes) :
    deliveredTo ((Progress.next stage).answers connection request) clientId = [] :=
  rfl

/-- A `2104` response delivers its records to the client that asked. -/
theorem deliveredTo_singleton {connection : ℕ} {request response : Bytes}
    (h : responseCode response = responseWaitingMessages) :
    deliveredTo [⟨connection, request, response⟩] (requesterIdOf request) =
      recordsIn response := by
  rw [deliveredTo, List.filter_cons_of_pos]
  · exact List.flatMap_singleton _ _
  · exact decide_eq_true ⟨rfl, h⟩

/-- A response delivers nothing to other clients. -/
theorem deliveredTo_singleton_other {connection : ℕ} {request response clientId : Bytes}
    (h : requesterIdOf request ≠ clientId) :
    deliveredTo [⟨connection, request, response⟩] clientId = [] := by
  rw [deliveredTo, List.filter_cons_of_neg]
  · rfl
  · exact fun heq ↦ h (of_decide_eq_true heq).1

/-- The messages that a handler at a stage has selected for a client and not yet deleted. -/
def Stage.heldFor (clientId request : Bytes) : Stage → Option (List WaitingMessage)
  | .removeMessages messages => if requesterIdOf request = clientId then some messages else none
  | _ => none

/-- The messages that a handler has selected for a client when it goes on. -/
def Progress.heldFor (clientId request : Bytes) : Progress → Option (List WaitingMessage)
  | .answer _ => none
  | .next stage => stage.heldFor clientId request

theorem Progress.heldFor_answer (clientId request response : Bytes) :
    (Progress.answer response).heldFor clientId request = none :=
  rfl

/-- The messages that the handler of a connection has selected for a client. -/
def Connection.heldFor (clientId : Bytes) : Connection Staged → Option (List WaitingMessage)
  | .busy request (_, stage) => stage.heldFor clientId request
  | .idle | .returned _ _ | .stopped => none

namespace ServerState

/-! ### The mailbox of a client -/

/-- The server as the mailbox of a client. -/
def mailbox (server : ServerState Staged) (clientId : Bytes) : Mailbox ℕ WaitingMessage where
  accepted := messagesFor server.inserted clientId
  delivered := deliveredTo server.answered clientId
  waiting := server.tables.waitingFor clientId
  held := fun connection ↦ (server.connections connection).heldFor clientId

/-- The mailbox after a handler has come to its progress. -/
theorem mailbox_settle (server : ServerState Staged) (connection : ℕ) (request : Bytes)
    (ambient : Ambient) (progress : Progress) (clientId : Bytes) :
    (server.settle connection request (stagedOutcome ambient progress)).mailbox clientId =
      { server.mailbox clientId with
        delivered := (server.mailbox clientId).delivered ++
          deliveredTo (progress.answers connection request) clientId
        held := Function.update (server.mailbox clientId).held connection
          (progress.heldFor clientId request) } := by
  have hheld : ∀ value : Connection Staged,
      (fun other ↦ (Function.update server.connections connection value other).heldFor clientId) =
        Function.update (server.mailbox clientId).held connection (value.heldFor clientId) := by
    intro value
    funext other
    exact Function.apply_update (fun _ ↦ Connection.heldFor clientId) server.connections connection
      value other
  have hdelivered : deliveredTo (server.settle connection request
      (stagedOutcome ambient progress)).answered clientId = (server.mailbox clientId).delivered ++
        deliveredTo (progress.answers connection request) clientId := by
    rw [settle_answered, deliveredTo_append]
    rfl
  rw [mailbox, hdelivered, settle_tables, settle_inserted]
  cases progress with
  | answer response =>
    exact congrArg (Mailbox.mk _ _ _) (hheld (.returned request response))
  | next stage =>
    exact congrArg (Mailbox.mk _ _ _) (hheld (.busy request (ambient, stage)))

/-- The mailbox after a call has changed the tables. -/
theorem mailbox_afterCall (server : ServerState Staged) (after : Tables)
    (row : Option MessageRow) (clientId : Bytes) :
    (server.afterCall after row).mailbox clientId =
      { server.mailbox clientId with
        accepted := (server.mailbox clientId).accepted ++ messagesFor row.toList clientId
        waiting := after.waitingFor clientId } :=
  congrArg (fun accepted ↦ Mailbox.mk accepted _ _ _) (messagesFor_append _ _ _)

/-- The mailbox after a call of a running handler, part by part. -/
theorem mailbox_after {server : ServerState Staged} {connection : ℕ} {request : Bytes}
    {ambient : Ambient} {after : Tables} {row : Option MessageRow} {progress : Progress}
    {clientId : Bytes} {accepted delivered waiting : List WaitingMessage}
    {held : Option (List WaitingMessage)} (hrow : messagesFor row.toList clientId = accepted)
    (hanswers : deliveredTo (progress.answers connection request) clientId = delivered)
    (hwaiting : after.waitingFor clientId = waiting)
    (hheld : progress.heldFor clientId request = held) :
    ((server.afterCall after row).settle connection request
        (stagedOutcome ambient progress)).mailbox clientId =
      ⟨(server.mailbox clientId).accepted ++ accepted,
        (server.mailbox clientId).delivered ++ delivered, waiting,
        Function.update (server.mailbox clientId).held connection held⟩ := by
  rw [mailbox_settle, mailbox_afterCall, hrow, hanswers, hwaiting, hheld]

/-- The mailbox of a client after an event that has nothing to do with its messages: at most the
handler of the connection has let go. -/
theorem step_release {lossy : Prop} {server : ServerState Staged} {connection : ℕ} {request : Bytes}
    {ambient : Ambient} {after : Tables} {row : Option MessageRow} {progress : Progress}
    {clientId : Bytes} (hrow : messagesFor row.toList clientId = [])
    (hanswers : deliveredTo (progress.answers connection request) clientId = [])
    (hwaiting : after.waitingFor clientId = server.tables.waitingFor clientId)
    (hheld : progress.heldFor clientId request = none) :
    Mailbox.Step lossy (server.mailbox clientId)
      (((server.afterCall after row).settle connection request
        (stagedOutcome ambient progress)).mailbox clientId) := by
  rw [mailbox_after hrow hanswers hwaiting hheld, List.append_nil, List.append_nil]
  exact .release connection

/-! ### Every event is a step of the mailbox -/

/-- A handler that is about to select messages does so while no other handler holds messages of the
same client. -/
def SelectsFree (server : ServerState Staged) : Event → Prop
  | .arrive _ _ _ => True
  | .call connection _ => ∀ request ambient,
    server.connections connection = .busy request (ambient, .fetchMessages) →
      ∀ other, other ≠ connection → (server.mailbox (requesterIdOf request)).held other = none

/-- The payload that a handler is about to send fits its length field. -/
def PayloadsHeldFit (server : ServerState Staged) : Prop :=
  ∀ connection request ambient messages,
    server.connections connection = .busy request (ambient, .removeMessages messages) →
      (messages.flatMap recordBytes).length < 2 ^ 32

/-- A message that is stored waits behind the others. -/
theorem waitingFor_insertMessage (tables : Tables) (toClient fromClient : Bytes) (type : ℕ)
    (content : Bytes) (clientId : Bytes) :
    (tables.insertMessage toClient fromClient type content).waitingFor clientId =
      tables.waitingFor clientId ++
        messagesFor [⟨tables.sequence + 1, toClient, fromClient, type, content⟩] clientId := by
  rw [Tables.waitingFor, Tables.insertMessage, List.filter_append, List.map_append]
  rfl

/-- An answer whose code can only be another one or the general one delivers nothing. -/
theorem deliveredTo_of_code {connection code : ℕ} {request response clientId : Bytes}
    (h : responseCode response = code ∨ response = errorResponse)
    (hcode : code ≠ responseWaitingMessages) :
    deliveredTo [⟨connection, request, response⟩] clientId = [] := by
  refine deliveredTo_singleton_of_ne ?_
  rcases h with heq | heq
  · rwa [heq]
  · rw [heq, responseCode_errorResponse]
    simp

/-- The dispatcher neither delivers nor selects messages. -/
theorem routed_quiet (connection : ℕ) (request clientId : Bytes) :
    deliveredTo ((routed request).answers connection request) clientId = [] ∧
      (routed request).heldFor clientId request = none := by
  have herror : deliveredTo ((Progress.answer errorResponse).answers connection request)
      clientId = [] := deliveredTo_singleton_of_ne (by simp)
  unfold routed
  split_ifs
  all_goals first | exact ⟨rfl, rfl⟩ | exact ⟨herror, rfl⟩

/-- A request neither delivers nor selects messages before its first call. -/
theorem start_quiet (connection : ℕ) (request clientId : Bytes) :
    deliveredTo ((start request).answers connection request) clientId = [] ∧
      (start request).heldFor clientId request = none := by
  have herror : deliveredTo ((Progress.answer errorResponse).answers connection request)
      clientId = [] := deliveredTo_singleton_of_ne (by simp)
  unfold start
  split_ifs
  all_goals first | exact ⟨rfl, rfl⟩ | exact ⟨herror, rfl⟩

/-- The deletion of selected messages delivers them to their client, unless the payload is too long
for its length field and they are lost. -/
theorem mailbox_removed {lossy : Prop} {server : ServerState Staged} {connection : ℕ}
    {request : Bytes} {ambient : Ambient} {messages : List WaitingMessage}
    (hconsistent : ∀ clientId, (server.mailbox clientId).Consistent)
    (hfits : ¬lossy → PayloadsHeldFit server)
    (hencodable : ∀ message ∈ messages, Encodable message)
    (hbusy : server.connections connection = .busy request (ambient, .removeMessages messages))
    (clientId : Bytes) :
    Mailbox.Step lossy (server.mailbox clientId)
      (((server.afterCall (server.tables.deleteMessages (messages.map WaitingMessage.id))
        none).settle connection request (stagedOutcome ambient (.answer (caught
          (buildResponse responseWaitingMessages (messages.flatMap recordBytes)))))).mailbox
            clientId) := by
  have hheld : (server.mailbox (requesterIdOf request)).held connection = some messages :=
    (congrArg (Connection.heldFor (requesterIdOf request)) hbusy).trans (if_pos rfl)
  obtain ⟨rest, hrest⟩ := (hconsistent (requesterIdOf request)).held_front connection messages hheld
  have hwaiting : server.tables.waitingFor (requesterIdOf request) = messages ++ rest := hrest.symm
  by_cases hclient : requesterIdOf request = clientId
  · subst hclient
    have hafter := waitingFor_deleteMessages server.tables hwaiting
    by_cases hsize : (messages.flatMap recordBytes).length < 2 ^ 32
    · have hdelivered : deliveredTo ((Progress.answer (caught (buildResponse
          responseWaitingMessages (messages.flatMap recordBytes)))).answers connection request)
            (requesterIdOf request) = messages := by
        rw [caught_buildResponse (by simp) hsize, Progress.answers,
          deliveredTo_singleton (responseCode_responseFrame (by simp) _),
          recordsIn_responseFrame hencodable]
      rw [mailbox_after (messagesFor_none _) hdelivered hafter (Progress.heldFor_answer _ _ _),
        List.append_nil]
      exact .deliver connection messages rest hheld hwaiting
    · have hlossy : lossy :=
        not_not.mp fun h ↦ hsize (hfits h connection request ambient messages hbusy)
      have hlost : deliveredTo ((Progress.answer (caught (buildResponse
          responseWaitingMessages (messages.flatMap recordBytes)))).answers connection request)
            (requesterIdOf request) = [] := by
        rw [caught_buildResponse_of_le (not_lt.mp hsize)]
        exact deliveredTo_singleton_of_ne (by simp)
      rw [mailbox_after (messagesFor_none _) hlost hafter (Progress.heldFor_answer _ _ _),
        List.append_nil, List.append_nil]
      exact .lose connection messages rest hlossy hheld hwaiting
  · have hmessages : ∀ message ∈ messages,
        message ∈ server.tables.waitingFor (requesterIdOf request) := by
      intro message hmessage
      rw [hwaiting]
      exact List.mem_append_left _ hmessage
    exact step_release rfl (deliveredTo_singleton_other hclient)
      (waitingFor_deleteMessages_other server.tables hmessages hclient) rfl

/-- A call of a running handler is a step of every client's mailbox. Assumes: a sound server whose
mailboxes are consistent, a selection only while nobody else holds messages of the same client, and,
unless the step may be lossy, payloads that fit. -/
theorem mailbox_call {lossy : Prop} {server : ServerState Staged} (hsound : Sound server)
    (hconsistent : ∀ clientId, (server.mailbox clientId).Consistent)
    (hfits : ¬lossy → PayloadsHeldFit server) {connection : ℕ} {request : Bytes}
    {ambient : Ambient} {stage : Stage} {after : Tables} {row : Option MessageRow}
    {progress : Progress} (hfree : stage = .fetchMessages → ∀ other, other ≠ connection →
      (server.mailbox (requesterIdOf request)).held other = none)
    (hbusy : server.connections connection = .busy request (ambient, stage))
    (hstep : StageStep server.tables request ambient stage after row progress)
    (clientId : Bytes) :
    Mailbox.Step lossy (server.mailbox clientId)
      (((server.afterCall after row).settle connection request
        (stagedOutcome ambient progress)).mailbox clientId) := by
  have hready := hsound.ready connection request ambient stage hbusy
  cases hstep with
  | failed stage => exact step_release rfl (deliveredTo_singleton_of_ne (by simp)) rfl rfl
  | requesterFound hrequester => exact step_release rfl rfl rfl rfl
  | requesterTouched =>
    obtain ⟨hanswers, hheld⟩ := routed_quiet connection request clientId
    exact step_release rfl hanswers rfl hheld
  | registered hinsert =>
    refine step_release rfl (deliveredTo_singleton_of_ne ?_) ?_ rfl
    · rw [responseCode_responseFrame (by simp)]
      simp
    · rw [Tables.waitingFor, (Tables.insertClient_eq_ok hinsert).2.1]
      rfl
  | clientsListed =>
    exact step_release rfl (deliveredTo_of_code
      (responseCode_caught_buildResponse (by simp) _) (by simp)) rfl rfl
  | keyFetched hrow hid =>
    exact step_release rfl (deliveredTo_of_code
      (responseCode_caught_buildResponse (by simp) _) (by simp)) rfl rfl
  | messagesFetched =>
    unfold selected
    split_ifs with hfitting
    · by_cases hclient : requesterIdOf request = clientId
      · subst hclient
        have hheld : (Progress.next (.removeMessages
            (server.tables.waitingFor (requesterIdOf request)))).heldFor (requesterIdOf request)
              request = some (server.tables.waitingFor (requesterIdOf request)) := if_pos rfl
        rw [mailbox_after (messagesFor_none _) (deliveredTo_next connection _ _ _) rfl hheld,
          List.append_nil, List.append_nil]
        exact .take connection (hfree rfl)
      · exact step_release rfl rfl rfl (if_neg hclient)
    · exact step_release rfl (deliveredTo_singleton_of_ne (by simp)) rfl rfl
  | messagesRemoved messages => exact mailbox_removed hconsistent hfits hready.2.2 hbusy clientId
  | targetFound htarget hvalid => exact step_release rfl rfl rfl rfl
  | messageStored =>
    have hanswers : ∀ clientId, deliveredTo ((Progress.answer (sentResponse (requestedIdOf request)
        (server.tables.sequence + 1))).answers connection request) clientId = [] :=
      fun clientId ↦ deliveredTo_of_code (responseCode_sentResponse request _) (by simp)
    have hkeep : Function.update (server.mailbox clientId).held connection none =
        (server.mailbox clientId).held :=
      Function.update_eq_self_iff.mpr (congrArg (Connection.heldFor clientId) hbusy).symm
    rw [mailbox_after rfl (hanswers clientId) (waitingFor_insertMessage _ _ _ _ _ _)
      (Progress.heldFor_answer _ _ _), List.append_nil, hkeep, Option.toList_some]
    by_cases hclient : requestedIdOf request = clientId
    · rw [messagesFor_singleton hclient]
      exact .accept _
    · rw [messagesFor_singleton_other hclient, List.append_nil, List.append_nil, ← hkeep]
      exact .release connection

/-- A request that arrives is a step of every client's mailbox. -/
theorem mailbox_arrive {lossy : Prop} (server : ServerState Staged) (connection : ℕ)
    (request : Bytes) (ambient : Ambient) (clientId : Bytes) :
    Mailbox.Step lossy (server.mailbox clientId)
      ((server.settle connection request (stagedOutcome ambient (start request))).mailbox
        clientId) := by
  obtain ⟨hanswers, hheld⟩ := start_quiet connection request clientId
  rw [mailbox_settle, hanswers, hheld, List.append_nil]
  exact .release connection

/-- Every event is a step of every client's mailbox. Assumes: a sound server whose mailboxes are
consistent, a selection only while nobody else holds messages of the same client, and, unless the
step may be lossy, payloads that fit. -/
theorem mailbox_step {lossy : Prop} {server : ServerState Staged} (hsound : Sound server)
    (hconsistent : ∀ clientId, (server.mailbox clientId).Consistent)
    (hfits : ¬lossy → PayloadsHeldFit server) {event : Event} (hfree : SelectsFree server event)
    (limit : Option ℕ) (clientId : Bytes) :
    Mailbox.Step lossy (server.mailbox clientId)
      ((stagedStep limit server event).mailbox clientId) := by
  refine stagedStep_cases (motive := fun after ↦
    Mailbox.Step lossy (server.mailbox clientId) (after.mailbox clientId)) limit server event .stay
    (fun connection request ambient _ _ ↦ mailbox_arrive server connection request ambient clientId)
    fun connection fault request ambient stage after row progress hevent hbusy hstep ↦ ?_
  subst hevent
  refine mailbox_call hsound hconsistent hfits (fun hstage ↦ ?_) hbusy hstep clientId
  subst hstage
  exact hfree request ambient hbusy

/-! ### Payloads and pulls -/

/-- A handler that is about to select messages selects no more than a payload can hold. -/
def SelectionsFit (server : ServerState Staged) : Event → Prop
  | .arrive _ _ _ => True
  | .call connection _ => ∀ request ambient,
    server.connections connection = .busy request (ambient, .fetchMessages) →
      ((server.tables.waitingFor (requesterIdOf request)).flatMap recordBytes).length < 2 ^ 32

/-- A handler that is about to delete messages was about to delete them before, or has just selected
them. -/
theorem removeMessages_of_step {server : ServerState Staged} {event : Event} {limit : Option ℕ}
    {connection : ℕ} {request : Bytes} {ambient : Ambient} {messages : List WaitingMessage}
    (h : (stagedStep limit server event).connections connection =
      .busy request (ambient, .removeMessages messages)) :
    server.connections connection = .busy request (ambient, .removeMessages messages) ∨
      ((∃ fault, event = .call connection fault) ∧
        server.connections connection = .busy request (ambient, .fetchMessages) ∧
          messages = server.tables.waitingFor (requesterIdOf request)) := by
  revert h
  refine stagedStep_cases (motive := fun after ↦ after.connections connection = _ → _) limit server
    event .inl (fun other otherRequest otherAmbient _ _ hafter ↦ ?_)
    fun other fault otherRequest otherAmbient stage after row progress hevent hbusy hstep hafter ↦
      ?_
  · rcases busy_of_settle hafter with ⟨-, hold⟩ | ⟨-, -, -, hstart⟩
    · exact .inl hold
    · have hquiet := (start_quiet other otherRequest (requesterIdOf otherRequest)).2
      rw [hstart, Progress.heldFor, Stage.heldFor, if_pos rfl] at hquiet
      cases hquiet
  · rcases busy_of_settle hafter with ⟨-, hold⟩ | ⟨rfl, rfl, rfl, hnext⟩
    · exact .inl hold
    · subst hnext
      generalize hgoing : Progress.next (.removeMessages messages) = progress at hstep
      cases hstep with
      | requesterTouched =>
        have hquiet := (routed_quiet connection request (requesterIdOf request)).2
        rw [← hgoing, Progress.heldFor, Stage.heldFor, if_pos rfl] at hquiet
        cases hquiet
      | messagesFetched =>
        unfold selected at hgoing
        split_ifs at hgoing
        cases hgoing
        exact .inr ⟨⟨fault, hevent⟩, hbusy, rfl⟩
      | _ => cases hgoing

/-- Payloads that handlers hold fit when every selection fits. -/
theorem PayloadsHeldFit.step {server : ServerState Staged} (h : PayloadsHeldFit server)
    {event : Event} (hfits : SelectionsFit server event) (limit : Option ℕ) :
    PayloadsHeldFit (stagedStep limit server event) := by
  intro connection request ambient messages hafter
  rcases removeMessages_of_step hafter with hold | ⟨⟨fault, rfl⟩, hbusy, rfl⟩
  · exact h connection request ambient messages hold
  · exact hfits request ambient hbusy

/-- Of the running handlers at most one answers a pull of each client. -/
def PullsExclusive (server : ServerState Staged) : Prop :=
  ∀ first second request other, server.running first = some request →
    server.running second = some other → codeOf request = requestWaitingMessages →
    codeOf other = requestWaitingMessages → requesterIdOf request = requesterIdOf other →
    first = second

/-- A pull begins only while no other pull of the same client is being answered. -/
def PullsApart {Rest : Type} (server : ServerState Rest) : Event → Prop
  | .arrive connection request _ => codeOf request = requestWaitingMessages →
    ∀ other earlier, other ≠ connection → server.running other = some earlier →
      codeOf earlier = requestWaitingMessages → requesterIdOf earlier ≠ requesterIdOf request
  | .call _ _ => True

theorem running_of_busy {server : ServerState Staged} {connection : ℕ} {request : Bytes}
    {rest : Staged} (h : server.connections connection = .busy request rest) :
    server.running connection = some request := by
  rw [running, h]

/-- Pulls that begin apart stay apart. -/
theorem PullsExclusive.step {server : ServerState Staged} (h : PullsExclusive server)
    {event : Event} (hapart : PullsApart server event) (limit : Option ℕ) :
    PullsExclusive (stagedStep limit server event) := by
  refine stagedStep_cases limit server event h
    (fun connection request ambient hevent _ ↦ ?_)
    fun connection fault request ambient stage after row progress _ hbusy hstep ↦ ?_
  · subst hevent
    intro first second firstRequest secondRequest hfirst hsecond hfirstCode hsecondCode hsame
    rcases running_of_settle hfirst with ⟨hfirstOld, hfirstRunning⟩ | ⟨hfirstNew, rfl⟩
    · rcases running_of_settle hsecond with ⟨-, hsecondRunning⟩ | ⟨-, rfl⟩
      · exact h first second firstRequest secondRequest hfirstRunning hsecondRunning hfirstCode
          hsecondCode hsame
      · exact absurd hsame
          (hapart hsecondCode first firstRequest hfirstOld hfirstRunning hfirstCode)
    · rcases running_of_settle hsecond with ⟨hsecondOld, hsecondRunning⟩ | ⟨hsecondNew, -⟩
      · exact absurd hsame.symm
          (hapart hfirstCode second secondRequest hsecondOld hsecondRunning hsecondCode)
      · rw [hfirstNew, hsecondNew]
  · have hbefore : ∀ other running, ((server.afterCall after row).settle connection request
        (stagedOutcome ambient progress)).running other = some running →
          server.running other = some running := by
      intro other running hrunning
      rcases running_of_settle hrunning with ⟨-, hold⟩ | ⟨rfl, rfl⟩
      · exact hold
      · exact running_of_busy hbusy
    exact fun first second firstRequest secondRequest hfirst hsecond ↦
      h first second firstRequest secondRequest (hbefore first _ hfirst) (hbefore second _ hsecond)

/-- A handler that holds messages of a client is about to delete them for that client. -/
theorem busy_of_held {server : ServerState Staged} {connection : ℕ} {clientId : Bytes}
    (hheld : (server.mailbox clientId).held connection ≠ none) :
    ∃ request ambient messages,
      server.connections connection = .busy request (ambient, .removeMessages messages) ∧
        requesterIdOf request = clientId := by
  change (server.connections connection).heldFor clientId ≠ none at hheld
  cases hconnection : server.connections connection with
  | busy request rest =>
    obtain ⟨ambient, stage⟩ := rest
    rw [hconnection] at hheld
    cases stage with
    | removeMessages messages =>
      refine ⟨request, ambient, messages, rfl, ?_⟩
      by_contra hother
      exact hheld (if_neg hother)
    | _ => exact absurd rfl hheld
  | _ =>
    rw [hconnection] at hheld
    exact absurd rfl hheld

/-- Where pulls do not overlap, selections do not either. -/
theorem PullsExclusive.selectsFree {server : ServerState Staged} (h : PullsExclusive server)
    (hsound : Sound server) (event : Event) : SelectsFree server event := by
  cases event with
  | arrive connection request ambient => trivial
  | call connection fault =>
    intro request ambient hbusy other hother
    by_contra hheld
    obtain ⟨earlier, earlierAmbient, messages, hearlier, hrequester⟩ := busy_of_held hheld
    have hready := hsound.ready connection request ambient _ hbusy
    have hearlierReady := hsound.ready other earlier earlierAmbient _ hearlier
    exact hother (h other connection earlier request (running_of_busy hearlier)
      (running_of_busy hbusy) hearlierReady.2.1 hready.2 hrequester)

/-! ### In-order delivery -/

/-- The payload that the messages a handler is about to select will make. -/
def selectedPayload (server : ServerState Handler) (connection : ℕ) : Bytes :=
  match server.nextCall connection with
  | some (.getWaitingMessages clientId) =>
    (server.tables.waitingFor clientId).flatMap recordBytes
  | _ => []

/-- The payloads of `2104` responses fit their length field: a handler that is about to select
messages selects no more than a payload can hold. -/
def PayloadFits (server : ServerState Handler) : Event → Prop
  | .arrive _ _ _ => True
  | .call connection _ => (server.selectedPayload connection).length < 2 ^ 32

instance (server : ServerState Handler) : DecidablePred (PayloadFits server)
  | .arrive _ _ _ => isTrue trivial
  | .call connection _ => Nat.decLt (server.selectedPayload connection).length (2 ^ 32)

theorem selectionsFit_of_payloadFits {server : ServerState Staged} {event : Event}
    (h : PayloadFits server.unstage event) : SelectionsFit server event := by
  cases event with
  | arrive connection request ambient => trivial
  | call connection fault =>
    intro request ambient hbusy
    rw [PayloadFits, selectedPayload, nextCall_unstage hbusy] at h
    exact h

/-- What carries the delivery without losses through a run. -/
structure Delivering (server : ServerState Staged) : Prop where
  sound : Sound server
  consistent : ∀ clientId, (server.mailbox clientId).Consistent
  lossless : ∀ clientId, (server.mailbox clientId).Lossless
  payloads : PayloadsHeldFit server
  exclusive : PullsExclusive server

theorem consistent_initial (clientId : Bytes) :
    ((initial Staged).mailbox clientId).Consistent where
  held_front := fun _ _ h ↦ by cases h
  held_unique := fun _ _ h ↦ absurd rfl h
  sublist := List.Sublist.slnil

theorem delivering_initial : Delivering (initial Staged) where
  sound := sound_initial
  consistent := consistent_initial
  lossless := fun _ ↦ rfl
  payloads := fun _ _ _ _ h ↦ by cases h
  exclusive := fun _ _ _ _ h ↦ by cases h

/-- Assumes: the server delivers without losses, pulls of one client do not overlap and the payload
fits. The server goes on delivering without losses. -/
theorem Delivering.step {server : ServerState Staged} (h : Delivering server) {event : Event}
    (hapart : PullsApart server event) (hfits : SelectionsFit server event) (limit : Option ℕ) :
    Delivering (stagedStep limit server event) := by
  have hstep : ∀ clientId, Mailbox.Step False (server.mailbox clientId)
      ((stagedStep limit server event).mailbox clientId) :=
    mailbox_step h.sound h.consistent (fun _ ↦ h.payloads)
      (h.exclusive.selectsFree h.sound event) limit
  exact ⟨h.sound.step limit event,
    fun clientId ↦ (hstep clientId).consistent (h.consistent clientId),
    fun clientId ↦ (hstep clientId).lossless id (h.lossless clientId), h.payloads.step hfits limit,
    h.exclusive.step hapart limit⟩

/-- The messages inserted for a client have increasing IDs. -/
theorem messagesFor_ids_increasing {server : ServerState Staged} (hsound : Sound server)
    (clientId : Bytes) :
    ((messagesFor server.inserted clientId).map WaitingMessage.id).Pairwise (· < ·) := by
  have hids : (messagesFor server.inserted clientId).map WaitingMessage.id =
      (server.inserted.filter fun row ↦ row.toClient = clientId).map MessageRow.id := by
    rw [messagesFor, List.map_map]
    rfl
  rw [hids]
  exact hsound.inserted_increasing.sublist (List.filter_sublist.map _)

/-- The messages delivered to a client have distinct IDs. -/
theorem delivered_ids_nodup {server : ServerState Staged} (hsound : Sound server)
    {clientId : Bytes} (hconsistent : (server.mailbox clientId).Consistent) :
    ((deliveredTo server.answered clientId).map WaitingMessage.id).Nodup := by
  have hsublist : (deliveredTo server.answered clientId).Sublist
      (messagesFor server.inserted clientId) :=
    (List.sublist_append_left _ _).trans hconsistent.sublist
  have hnodup : ((messagesFor server.inserted clientId).map WaitingMessage.id).Nodup :=
    (messagesFor_ids_increasing hsound clientId).imp fun h ↦ h.ne
  exact hnodup.sublist (hsublist.map WaitingMessage.id)

theorem pullsApart_unstage {server : ServerState Staged} {event : Event}
    (h : PullsApart server.unstage event) : PullsApart server event := by
  cases event with
  | arrive connection request ambient =>
    intro hcode other earlier hother hrunning
    exact h hcode other earlier hother ((running_unstage server other).trans hrunning)
  | call connection fault => trivial

/-- Exactly-once, in-order delivery at the server. Assumes: a run from empty tables in which a pull
begins only while no other pull of the same client is being answered and in which the payloads of
`2104` responses fit their length field. Then at every moment, for every client, the records of the
`2104` responses to its pulls followed by the rows still waiting for it are the messages inserted
for it, in order and unchanged, and no message is returned twice. -/
theorem delivery_in_order (limit : Option ℕ) (events : List Event)
    (hrun : Along (step limit) (fun server event ↦ PullsApart server event ∧
      PayloadFits server event)
      (initial Handler) events) (clientId : Bytes) :
    let server := runEvents (step limit) (initial Handler) events
    deliveredTo server.answered clientId ++ server.tables.waitingFor clientId =
        messagesFor server.inserted clientId ∧
      ((deliveredTo server.answered clientId).map WaitingMessage.id).Nodup := by
  have hstaged : Along (stagedStep limit) (fun server event ↦
      PullsApart server event ∧ SelectionsFit server event) (initial Staged) events := by
    refine ((Along.comm (step_unstage limit)).mp hrun).mono fun server event hguard ↦ ?_
    exact ⟨pullsApart_unstage hguard.1, selectionsFit_of_payloadFits hguard.2⟩
  have hdelivering : Delivering (runEvents (stagedStep limit) (initial Staged) events) :=
    Along.invariant (fun server event hguard h ↦ h.step hguard.1 hguard.2 limit)
      delivering_initial hstaged
  intro server
  have hview : server = (runEvents (stagedStep limit) (initial Staged) events).unstage :=
    run_unstage limit events
  rw [hview]
  exact ⟨hdelivering.lossless clientId,
    delivered_ids_nodup hdelivering.sound (hdelivering.consistent clientId)⟩

/-- In a run on the first connections nothing is running on the others. -/
theorem along_used (limit : Option ℕ) {count : ℕ} {events : List Event}
    (hevents : ∀ event ∈ events, event.connection < count) :
    Along (step limit) (fun server _ ↦ ∀ other, count ≤ other → server.running other = none)
      (initial Handler) events := by
  have hrun : ∀ (events : List Event) (server : ServerState Handler),
      (∀ event ∈ events, event.connection < count) →
      (∀ other, count ≤ other → server.connections other = .idle) →
      Along (step limit) (fun server _ ↦ ∀ other, count ≤ other → server.running other = none)
        server events := by
    intro events
    induction events with
    | nil => exact fun _ _ _ ↦ trivial
    | cons event rest ih =>
      intro server hevents hidle
      have hevent := hevents event List.mem_cons_self
      refine ⟨fun other hother ↦ by rw [running, hidle other hother],
        ih _ (fun later hlater ↦ hevents later (List.mem_cons_of_mem _ hlater)) fun other hother ↦
          ?_⟩
      rw [step_connections_of_ne limit server event (hevent.trans_le hother).ne']
      exact hidle other hother
  exact hrun events _ hevents fun _ _ ↦ rfl

/-- `PullsApart` on the first connections. -/
def ApartBelow (count : ℕ) (server : ServerState Handler) : Event → Prop
  | .arrive connection request _ => codeOf request = requestWaitingMessages →
    ∀ other < count, other ≠ connection → ∀ earlier ∈ server.running other,
      codeOf earlier = requestWaitingMessages → requesterIdOf earlier ≠ requesterIdOf request
  | .call _ _ => True

instance (count : ℕ) (server : ServerState Handler) : DecidablePred (ApartBelow count server)
  | .arrive connection request _ => inferInstanceAs (Decidable (codeOf request =
      requestWaitingMessages → ∀ other < count, other ≠ connection →
        ∀ earlier ∈ server.running other, codeOf earlier = requestWaitingMessages →
          requesterIdOf earlier ≠ requesterIdOf request))
  | .call _ _ => isTrue trivial

/-- Nothing runs on the other connections. -/
theorem ApartBelow.apart {count : ℕ} {server : ServerState Handler} {event : Event}
    (h : ApartBelow count server event)
    (hidle : ∀ other, count ≤ other → server.running other = none) : PullsApart server event := by
  cases event with
  | arrive connection request ambient =>
    intro hcode other earlier hother hrunning
    by_cases hless : other < count
    · exact h hcode other hless hother earlier hrunning
    · rw [hidle other (not_lt.mp hless)] at hrunning
      cases hrunning
  | call connection fault => trivial

/-- A client is sent a message while it pulls. Then it pulls on a second connection, while the first
one is at another request. -/
def pullsInTurn : List Event :=
  session 0 soloRegistration soloAmbient ++ session 0 (soloSend [7]) soloAmbient ++
    [.arrive 0 soloPull soloAmbient] ++ List.replicate 3 (.call 0 false) ++
      session 1 (soloSend [8]) soloAmbient ++ [.call 0 false] ++
    [.arrive 0 (soloSend [9]) soloAmbient, .arrive 1 soloPull soloAmbient] ++
      List.replicate 4 (.call 1 false) ++ List.replicate 4 (.call 0 false)

/-- The two pulls deliver a message each, and the third message waits. -/
theorem delivery_in_order_pullsInTurn :
    let server := runEvents (step none) (initial Handler) pullsInTurn
    deliveredTo server.answered soloRow.id ++ server.tables.waitingFor soloRow.id =
        messagesFor server.inserted soloRow.id ∧
      ((deliveredTo server.answered soloRow.id).map WaitingMessage.id).Nodup := by
  have hused : ∀ event ∈ pullsInTurn, event.connection < 2 := by decide +kernel
  have hchecked : Along (step none) (fun server event ↦ ApartBelow 2 server event ∧
      PayloadFits server event) (initial Handler) pullsInTurn := by decide +kernel
  refine delivery_in_order none pullsInTurn ?_ soloRow.id
  exact (hchecked.and (along_used none hused)).mono fun server event h ↦
    ⟨h.1.1.apart h.2, h.1.2⟩

/-! ### At most once -/

/-- A handler selects messages only while no other handler of the same client is between its
`SELECT` and its `DELETE`. -/
def SelectsAlone (server : ServerState Handler) : Event → Prop
  | .arrive _ _ _ => True
  | .call connection _ => ∀ clientId,
    server.nextCall connection = some (.getWaitingMessages clientId) →
      ∀ other earlier ids, other ≠ connection → server.running other = some earlier →
        requesterIdOf earlier = clientId → server.nextCall other ≠ some (.deleteMessages ids)

theorem selectsFree_of_selectsAlone {server : ServerState Staged} {event : Event}
    (h : SelectsAlone server.unstage event) : SelectsFree server event := by
  cases event with
  | arrive connection request ambient => trivial
  | call connection fault =>
    intro request ambient hbusy other hother
    by_contra hheld
    obtain ⟨earlier, earlierAmbient, messages, hearlier, hrequester⟩ := busy_of_held hheld
    exact h (requesterIdOf request) (nextCall_unstage hbusy) other earlier _ hother
      ((running_unstage server other).trans (running_of_busy hearlier)) hrequester
      (nextCall_unstage hearlier)

/-- What carries at-most-once delivery through a run. -/
structure Unrepeating (server : ServerState Staged) : Prop where
  sound : Sound server
  consistent : ∀ clientId, (server.mailbox clientId).Consistent

/-- Assumes: the server does not repeat deliveries and selections of one client do not overlap. The
server goes on without repeating deliveries. -/
theorem Unrepeating.step {server : ServerState Staged} (h : Unrepeating server) {event : Event}
    (hfree : SelectsFree server event) (limit : Option ℕ) :
    Unrepeating (stagedStep limit server event) := by
  have hstep : ∀ clientId, Mailbox.Step True (server.mailbox clientId)
      ((stagedStep limit server event).mailbox clientId) :=
    mailbox_step h.sound h.consistent (fun hnot ↦ absurd trivial hnot) hfree limit
  exact ⟨h.sound.step limit event,
    fun clientId ↦ (hstep clientId).consistent (h.consistent clientId)⟩

/-- The lists that contain an element are no more than its occurrences in their concatenation. -/
theorem length_filter_mem_le_count {α : Type} (lists : List α) (content : α → List ℕ) (id : ℕ) :
    (lists.filter fun entry ↦ id ∈ content entry).length ≤ (lists.flatMap content).count id := by
  induction lists with
  | nil => exact le_rfl
  | cons entry rest ih =>
    rw [List.flatMap_cons, List.count_append]
    by_cases hmem : id ∈ content entry
    · have hpos : 0 < (content entry).count id := List.count_pos_iff.mpr hmem
      rw [List.filter_cons_of_pos (by exact decide_eq_true hmem), List.length_cons]
      omega
    · rw [List.filter_cons_of_neg (by exact fun h ↦ hmem (of_decide_eq_true h))]
      omega

/-- The message IDs that a response carries. -/
def idsIn (answer : Answer) : List ℕ :=
  (recordsIn answer.response).map WaitingMessage.id

/-- A message in a `2104` response was inserted for the client that asked. -/
theorem Unrepeating.inserted_of_mem {server : ServerState Staged} (h : Unrepeating server)
    {answer : Answer} (hanswer : answer ∈ server.answered)
    (hcode : responseCode answer.response = responseWaitingMessages) {id : ℕ}
    (hid : id ∈ idsIn answer) :
    ∃ row ∈ server.inserted, row.id = id ∧ row.toClient = requesterIdOf answer.request := by
  obtain ⟨message, hmessage, rfl⟩ := List.mem_map.mp hid
  have hdelivered : message ∈ deliveredTo server.answered (requesterIdOf answer.request) :=
    List.mem_flatMap.mpr ⟨answer, List.mem_filter.mpr ⟨hanswer, decide_eq_true ⟨rfl, hcode⟩⟩,
      hmessage⟩
  have hsublist : (deliveredTo server.answered (requesterIdOf answer.request)).Sublist
      (messagesFor server.inserted (requesterIdOf answer.request)) :=
    (List.sublist_append_left _ _).trans (h.consistent _).sublist
  obtain ⟨row, hrow, rfl⟩ := List.mem_map.mp (hsublist.subset hdelivered)
  obtain ⟨hinserted, hclient⟩ := List.mem_filter.mp hrow
  exact ⟨row, hinserted, rfl, of_decide_eq_true hclient⟩

/-- A server that does not repeat deliveries has sent each message in at most one response. -/
theorem Unrepeating.at_most_once {server : ServerState Staged} (h : Unrepeating server) (id : ℕ) :
    (server.answered.filter fun answer ↦
      responseCode answer.response = responseWaitingMessages ∧ id ∈ idsIn answer).length ≤ 1 := by
  by_cases hnone : ∃ answer ∈ server.answered,
      responseCode answer.response = responseWaitingMessages ∧ id ∈ idsIn answer
  · obtain ⟨carrier, hcarrier, hcarrierCode, hcarrierId⟩ := hnone
    obtain ⟨row, hrow, hrowId, hrowClient⟩ :=
      h.inserted_of_mem hcarrier hcarrierCode hcarrierId
    -- every response that carries the message answers the client the message was inserted for
    have hrequester : ∀ answer ∈ server.answered,
        responseCode answer.response = responseWaitingMessages → id ∈ idsIn answer →
          requesterIdOf answer.request = row.toClient := by
      intro answer hanswer hcode hid
      obtain ⟨other, hother, hotherId, hotherClient⟩ := h.inserted_of_mem hanswer hcode hid
      have hnodup : (server.inserted.map MessageRow.id).Nodup :=
        h.sound.inserted_increasing.imp fun hlt ↦ hlt.ne
      have hsame : other = row :=
        List.inj_on_of_nodup_map hnodup hother hrow (hotherId.trans hrowId.symm)
      rw [← hotherClient, hsame]
    have hfilter : (server.answered.filter fun answer ↦
        responseCode answer.response = responseWaitingMessages ∧ id ∈ idsIn answer) =
          (server.answered.filter fun answer ↦ requesterIdOf answer.request = row.toClient ∧
            responseCode answer.response = responseWaitingMessages).filter
              fun answer ↦ id ∈ idsIn answer := by
      rw [List.filter_filter]
      refine List.filter_congr fun answer hanswer ↦ ?_
      rw [Bool.eq_iff_iff, Bool.and_eq_true, decide_eq_true_iff, decide_eq_true_iff,
        decide_eq_true_iff]
      exact ⟨fun ⟨hcode, hid⟩ ↦ ⟨hid, hrequester answer hanswer hcode hid, hcode⟩,
        fun ⟨hid, _, hcode⟩ ↦ ⟨hcode, hid⟩⟩
    have hdelivered : (server.answered.filter fun answer ↦
        requesterIdOf answer.request = row.toClient ∧
          responseCode answer.response = responseWaitingMessages).flatMap idsIn =
            (deliveredTo server.answered row.toClient).map WaitingMessage.id := by
      rw [deliveredTo, List.map_flatMap]
      rfl
    rw [hfilter]
    refine (length_filter_mem_le_count _ idsIn id).trans ?_
    rw [hdelivered]
    exact List.nodup_iff_count_le_one.mp (delivered_ids_nodup h.sound (h.consistent _)) id
  · have hempty : (server.answered.filter fun answer ↦
        responseCode answer.response = responseWaitingMessages ∧ id ∈ idsIn answer) = [] :=
      List.filter_eq_nil_iff.mpr fun answer hanswer hcarries ↦
        hnone ⟨answer, hanswer, of_decide_eq_true hcarries⟩
    rw [hempty]
    exact Nat.zero_le 1

/-- At-most-once delivery. Assumes: a run from empty tables, over any connections and with any
failing calls, in which a handler selects messages only while no other handler of the same client is
between its `SELECT` and its `DELETE`. Then no message is contained in two `2104` responses. -/
theorem delivered_at_most_once (limit : Option ℕ) (events : List Event)
    (hrun : Along (step limit) SelectsAlone (initial Handler) events) (id : ℕ) :
    ((runEvents (step limit) (initial Handler) events).answered.filter fun answer ↦
      responseCode answer.response = responseWaitingMessages ∧ id ∈ idsIn answer).length ≤ 1 := by
  have hrunStaged : Along (stagedStep limit) SelectsFree (initial Staged) events :=
    ((Along.comm (step_unstage limit)).mp hrun).mono fun _ _ h ↦ selectsFree_of_selectsAlone h
  have hunrepeating : Unrepeating (runEvents (stagedStep limit) (initial Staged) events) :=
    Along.invariant (fun server event hguard h ↦ h.step hguard limit)
      ⟨sound_initial, consistent_initial⟩ hrunStaged
  rw [run_unstage]
  exact hunrepeating.at_most_once id

/-- The client whose waiting messages a call selects. -/
def selects : DbCall → Option Bytes
  | .getWaitingMessages clientId => some clientId
  | _ => none

/-- A call deletes messages. -/
def deletes : DbCall → Bool
  | .deleteMessages _ => true
  | _ => false

/-- `SelectsAlone` on the first connections. -/
def AloneBelow (count : ℕ) (server : ServerState Handler) : Event → Prop
  | .arrive _ _ _ => True
  | .call connection _ => ∀ clientId ∈ (server.nextCall connection).bind selects,
    ∀ other < count, other ≠ connection → ∀ earlier ∈ server.running other,
      requesterIdOf earlier = clientId → (server.nextCall other).any deletes = false

instance (count : ℕ) (server : ServerState Handler) : DecidablePred (AloneBelow count server)
  | .arrive _ _ _ => isTrue trivial
  | .call connection _ => inferInstanceAs (Decidable (∀ clientId ∈
      (server.nextCall connection).bind selects, ∀ other < count, other ≠ connection →
        ∀ earlier ∈ server.running other, requesterIdOf earlier = clientId →
          (server.nextCall other).any deletes = false))

/-- Nothing runs on the other connections. -/
theorem AloneBelow.alone {count : ℕ} {server : ServerState Handler} {event : Event}
    (h : AloneBelow count server event)
    (hidle : ∀ other, count ≤ other → server.running other = none) : SelectsAlone server event := by
  cases event with
  | arrive connection request ambient => trivial
  | call connection fault =>
    intro clientId hselects other earlier ids hother hrunning hrequester hdeletes
    by_cases hless : other < count
    · have hnot := h clientId (by rw [hselects]; rfl) other hless hother earlier hrunning hrequester
      rw [hdeletes] at hnot
      cases hnot
    · rw [hidle other (not_lt.mp hless)] at hrunning
      cases hrunning

/-- A client with a waiting message pulls on two connections, and one handler selects and deletes
before the other one selects. -/
def interleavedPulls : List Event :=
  session 0 soloRegistration soloAmbient ++ session 0 (soloSend [7]) soloAmbient ++
    [.arrive 0 soloPull soloAmbient, .arrive 1 soloPull soloAmbient] ++
    [.call 0 false, .call 1 false, .call 0 false, .call 1 false, .call 0 false, .call 0 false] ++
    [.arrive 0 (soloSend [8]) soloAmbient, .call 1 false, .call 1 false]

theorem delivered_at_most_once_interleavedPulls :
    ((runEvents (step none) (initial Handler) interleavedPulls).answered.filter fun answer ↦
      responseCode answer.response = responseWaitingMessages ∧ 1 ∈ idsIn answer).length ≤ 1 := by
  have hused : ∀ event ∈ interleavedPulls, event.connection < 2 := by decide +kernel
  have hchecked : Along (step none) (AloneBelow 2) (initial Handler) interleavedPulls := by
    decide +kernel
  exact delivered_at_most_once none interleavedPulls
    ((hchecked.and (along_used none hused)).mono fun server event h ↦ h.1.alone h.2) 1

/-- A client with a waiting message pulls on two connections, and both handlers select before either
deletes. -/
def overlappingPulls : List Event :=
  session 0 soloRegistration soloAmbient ++ session 0 (soloSend [7]) soloAmbient ++
    [.arrive 0 soloPull soloAmbient, .arrive 1 soloPull soloAmbient] ++
    List.replicate 3 (.call 0 false) ++ List.replicate 3 (.call 1 false) ++
    [.call 0 false, .call 1 false]

/-- Overlapping pulls deliver a message twice. -/
theorem overlapping_pulls_deliver_twice :
    ¬∀ (limit : Option ℕ) (events : List Event) (id : ℕ),
      ((runEvents (step limit) (initial Handler) events).answered.filter fun answer ↦
        responseCode answer.response = responseWaitingMessages ∧ id ∈ idsIn answer).length ≤ 1 := by
  intro h
  have htwice : ¬((runEvents (step none) (initial Handler) overlappingPulls).answered.filter
      fun answer ↦ responseCode answer.response = responseWaitingMessages ∧
        1 ∈ idsIn answer).length ≤ 1 := by
    decide +kernel
  exact htwice (h none overlappingPulls 1)

end ServerState

end MessageU.Server
