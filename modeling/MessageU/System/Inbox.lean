import MessageU.Server.Sockets
import MessageU.System.PullOrder

/-!
# The messages that a client has not read

A client that is alone with its ID pulls on one connection. What it has not read is what its
connection carries back to it and what is waiting for it at the server (`unread`), in this order.
`Inbox` is what the server keeps for such a client: no other connection works for its ID, and the
messages that its own pull has selected stand in front of what is waiting.

So a pull moves messages from one part to the other and changes nothing, and what is unread changes
only at its end, by the messages that are stored (`Inbox.call`), until the client reads them.
-/

set_option autoImplicit false
set_option relaxedAutoImplicit false

namespace MessageU.System

open Library Client

/-- The messages that a connection carries back. -/
def carried {Rest : Type} : Server.Connection Rest → List Server.WaitingMessage
  | .returned _ response => batch response
  | .idle | .busy .. | .stopped => []

theorem carried_eq (connection : Server.Connection Server.Staged) :
    carried connection = carriedAt connection := by
  cases connection <;> rfl

/-- The messages that a client has not read, whose connection is `opened` while an exchange is under
way. -/
def unread {Rest : Type} (own : ℕ) (me : Bytes) (opened : Bool) (server : Server.ServerState Rest) :
    List Server.WaitingMessage :=
  (if opened then carried (server.connections own) else []) ++ server.tables.waitingFor me

/-- What the server keeps for a client that is alone with its ID. -/
structure Inbox (own : ℕ) (me : Bytes) (server : Server.ServerState Server.Staged) : Prop where
  /-- No other connection works for the client. -/
  alone : ∀ connection request, server.running connection = some request →
    Server.requesterIdOf request = me → connection = own
  /-- The messages that have been selected are the first ones, and fit a response. -/
  selected : ∀ request ambient messages,
    server.connections own = .busy request (ambient, .removeMessages messages) →
      messages <+: server.tables.waitingFor me ∧
        (messages.flatMap Server.recordBytes).length < 2 ^ 32

/-- A call removes the messages that have been selected, or delivers nothing and removes nothing. -/
theorem waiting_cases {tables after : Server.Tables} {request : Bytes} {ambient : Server.Ambient}
    {stage : Server.Stage} {row : Option Server.MessageRow} {progress : Server.Progress}
    (h : Server.StageStep tables request ambient stage after row progress) (me : Bytes) :
    (batchOf progress = [] ∧
        after.waitingFor me = tables.waitingFor me ++ Server.messagesFor row.toList me ∧
        ∀ messages, progress = .next (.removeMessages messages) →
          stage = .fetchMessages ∧ messages = tables.waitingFor (Server.requesterIdOf request)) ∨
      ∃ messages, stage = .removeMessages messages ∧ row = none ∧
        after = tables.deleteMessages (messages.map Server.WaitingMessage.id) ∧
        progress = .answer (Server.caught (Server.buildResponse Server.responseWaitingMessages
          (messages.flatMap Server.recordBytes))) := by
  have hnone : tables.waitingFor me =
      tables.waitingFor me ++ Server.messagesFor (none : Option Server.MessageRow).toList me :=
    (List.append_nil _).symm
  cases h with
  | failed stage => exact .inl ⟨batch_error, hnone, fun _ hnext ↦ by cases hnext⟩
  | requesterFound hrequester => exact .inl ⟨rfl, hnone, fun _ hnext ↦ by cases hnext⟩
  | requesterTouched =>
    obtain ⟨hbatch, hheld⟩ := batchOf_routed request (Server.requesterIdOf request)
    refine .inl ⟨hbatch, hnone, fun messages hrouted ↦ ?_⟩
    rw [hrouted, Server.Progress.heldFor, Server.Stage.heldFor, if_pos rfl] at hheld
    cases hheld
  | registered hinsert =>
    refine .inl ⟨batch_of_code (.inl (Server.responseCode_responseFrame (by simp) _)) (by simp),
      ?_, fun _ hnext ↦ by cases hnext⟩
    rw [Server.waitingFor_congr (Server.Tables.insertClient_eq_ok hinsert).2.1]
    exact hnone
  | clientsListed =>
    exact .inl ⟨batch_of_code (Server.responseCode_caught_buildResponse (by simp) _) (by simp),
      hnone, fun _ hnext ↦ by cases hnext⟩
  | keyFetched hrow hid =>
    exact .inl ⟨batch_of_code (Server.responseCode_caught_buildResponse (by simp) _) (by simp),
      hnone, fun _ hnext ↦ by cases hnext⟩
  | messagesFetched =>
    unfold Server.selected
    split_ifs
    · refine .inl ⟨rfl, hnone, fun messages hnext ↦ ?_⟩
      cases hnext
      exact ⟨rfl, rfl⟩
    · exact .inl ⟨batch_error, hnone, fun _ hnext ↦ by cases hnext⟩
  | messagesRemoved messages => exact .inr ⟨messages, rfl, rfl, rfl, rfl⟩
  | targetFound htarget hvalid => exact .inl ⟨rfl, hnone, fun _ hnext ↦ by cases hnext⟩
  | messageStored =>
    exact .inl ⟨batch_of_code (Server.responseCode_sentResponse request _) (by simp),
      Server.ServerState.waitingFor_insertMessage _ _ _ _ _ _, fun _ hnext ↦ by cases hnext⟩

/-- A call stores the message of its request, or stores nothing and does not answer that it has. -/
theorem stored_cases {tables after : Server.Tables} {request : Bytes} {ambient : Server.Ambient}
    {stage : Server.Stage} {row : Option Server.MessageRow} {progress : Server.Progress}
    (h : Server.StageStep tables request ambient stage after row progress) :
    (row = none ∧ ∀ response, progress = .answer response →
        Server.responseCode response ≠ Server.responseMessageSent) ∨
      (stage = .storeMessage ∧ row = some ⟨tables.sequence + 1, Server.requestedIdOf request,
          Server.requesterIdOf request, Server.messageTypeOf request, Server.contentOf request⟩ ∧
        progress = .answer (Server.sentResponse (Server.requestedIdOf request)
          (tables.sequence + 1))) := by
  have hother : ∀ {code : ℕ} {built : Bytes},
      Server.responseCode built = code ∨ built = Server.errorResponse →
        code ≠ Server.responseMessageSent →
          ∀ response, Server.Progress.answer built = .answer response →
            Server.responseCode response ≠ Server.responseMessageSent := by
    intro code built hcodes hne response hbuilt
    cases hbuilt
    rcases hcodes with heq | heq
    · rwa [heq]
    · rw [heq, Server.responseCode_errorResponse]
      simp
  have herror : ∀ response, response = Server.errorResponse →
      Server.responseCode response ≠ Server.responseMessageSent := by
    rintro response rfl
    exact hother (.inr rfl : _ = Server.errorGeneral ∨ _) (by simp) _ rfl
  cases h with
  | failed => exact .inl ⟨rfl, hother (.inr rfl : _ = Server.errorGeneral ∨ _) (by simp)⟩
  | requesterFound => exact .inl ⟨rfl, fun _ hnext ↦ by cases hnext⟩
  | requesterTouched =>
    exact .inl ⟨rfl, fun response hrouted ↦ herror response (Server.routed_answer hrouted)⟩
  | registered =>
    exact .inl ⟨rfl, hother (.inl (Server.responseCode_responseFrame (by simp) _)) (by simp)⟩
  | clientsListed =>
    exact .inl ⟨rfl, hother (Server.responseCode_caught_buildResponse (by simp) _) (by simp)⟩
  | keyFetched =>
    exact .inl ⟨rfl, hother (Server.responseCode_caught_buildResponse (by simp) _) (by simp)⟩
  | messagesFetched =>
    refine .inl ⟨rfl, fun response hselected ↦ herror response ?_⟩
    unfold Server.selected at hselected
    split_ifs at hselected
    exact (Server.Progress.answer.inj hselected).symm
  | messagesRemoved =>
    exact .inl ⟨rfl, hother (Server.responseCode_caught_buildResponse (by simp) _) (by simp)⟩
  | targetFound => exact .inl ⟨rfl, fun _ hnext ↦ by cases hnext⟩
  | messageStored => exact .inr ⟨rfl, rfl, rfl⟩

namespace Inbox

variable {server : Server.ServerState Server.Staged} {own connection : ℕ} {me request : Bytes}
  {opened : Bool} {ambient : Server.Ambient} {stage : Server.Stage} {after : Server.Tables}
  {row : Option Server.MessageRow} {progress : Server.Progress}

/-- Nothing that is removed for another client was waiting for this one. -/
theorem waitingFor_removed (hsound : Server.ServerState.Sound server)
    (hheld : Server.ServerState.HeldStored server) {messages : List Server.WaitingMessage}
    (hbusy : server.connections connection = .busy request (ambient, .removeMessages messages))
    (hother : Server.requesterIdOf request ≠ me) :
    (server.tables.deleteMessages (messages.map Server.WaitingMessage.id)).waitingFor me =
      server.tables.waitingFor me := by
  rw [Server.waitingFor_deleteMessages_eq, List.filter_eq_self]
  intro kept hkept
  refine decide_eq_true fun hid ↦ ?_
  obtain ⟨message, hmessage, heq⟩ := List.mem_map.mp hid
  obtain ⟨stored, hstored, rfl, hclient⟩ :=
    hheld connection request ambient messages hbusy message hmessage
  obtain ⟨row, hrow, rfl⟩ := List.mem_map.mp hkept
  obtain ⟨hmem, hme⟩ := List.mem_filter.mp hrow
  have hnodup : (server.inserted.map Server.MessageRow.id).Nodup :=
    hsound.inserted_increasing.imp fun hlt ↦ hlt.ne
  have hsame : stored = row :=
    List.inj_on_of_nodup_map hnodup hstored (hsound.messages_inserted.subset hmem) heq
  rw [hsame] at hclient
  exact hother (hclient.symm.trans (of_decide_eq_true hme))

/-- What a connection that settles carries. -/
theorem carried_settle (server : Server.ServerState Server.Staged) (own : ℕ) (request : Bytes)
    (ambient : Server.Ambient) (progress : Server.Progress) :
    carried ((server.settle own request
      (Server.ServerState.stagedOutcome ambient progress)).connections own) = batchOf progress := by
  rw [carried_eq]
  exact (settled_at server own [] request ambient progress).1

/-- A call adds the message that it stores to what is unread. Assumes: the connection of the client
works for the client alone, and what it is about to select fits a response. -/
theorem call (h : Inbox own me server) (hsound : Server.ServerState.Sound server)
    (hheld : Server.ServerState.HeldStored server)
    (hmine : ∀ running, server.running own = some running →
      opened = true ∧ Server.requesterIdOf running = me)
    (hbusy : server.connections connection = .busy request (ambient, stage))
    (hfits : connection = own → stage = .fetchMessages →
      ((server.tables.waitingFor me).flatMap Server.recordBytes).length < 2 ^ 32)
    (hstep : Server.StageStep server.tables request ambient stage after row progress) :
    let next := (server.afterCall after row).settle connection request
      (Server.ServerState.stagedOutcome ambient progress)
    Inbox own me next ∧
      unread own me opened next = unread own me opened server ++
        Server.messagesFor row.toList me := by
  intro next
  have htables : next.tables = after := Server.ServerState.settle_tables _ _ _ _
  have halone : ∀ other running, next.running other = some running →
      Server.requesterIdOf running = me → other = own := by
    intro other running hrunning hme
    rcases Server.ServerState.running_of_settle hrunning with ⟨-, hold⟩ | ⟨rfl, rfl⟩
    · exact h.alone other running hold hme
    · exact h.alone other running (Server.ServerState.running_of_busy hbusy) hme
  have hothers : connection ≠ own → next.connections own = server.connections own :=
    fun hne ↦ Server.ServerState.settle_connections_of_ne _ request _ (Ne.symm hne)
  have hopened : connection = own → opened = true ∧ Server.requesterIdOf request = me := by
    rintro rfl
    exact hmine request (Server.ServerState.running_of_busy hbusy)
  have hquiet : connection = own → carried (server.connections own) = [] := by
    rintro rfl
    rw [hbusy, carried]
  rcases waiting_cases hstep me with
    ⟨hbatch, hwaiting, hnext⟩ | ⟨messages, rfl, rfl, rfl, rfl⟩
  · have hcarried : carried (next.connections own) = carried (server.connections own) := by
      by_cases hsame : connection = own
      · rw [hquiet hsame]
        subst hsame
        exact (carried_settle _ connection request ambient progress).trans hbatch
      · rw [hothers hsame]
    refine ⟨⟨halone, fun other otherAmbient messages hselected ↦ ?_⟩, ?_⟩
    · rw [htables, hwaiting]
      rcases Server.ServerState.busy_of_settle hselected with ⟨-, hold⟩ | ⟨rfl, rfl, -, hgoing⟩
      · obtain ⟨hfront, hsize⟩ := h.selected other otherAmbient messages hold
        exact ⟨hfront.trans (List.prefix_append _ _), hsize⟩
      · obtain ⟨hstage, rfl⟩ := hnext messages hgoing
        rw [(hopened rfl).2]
        exact ⟨List.prefix_append _ _, hfits rfl hstage⟩
    · rw [unread, hcarried, htables, hwaiting, unread, List.append_assoc]
  · by_cases hsame : connection = own
    · subst hsame
      obtain ⟨rfl, hme⟩ := hopened rfl
      obtain ⟨⟨rest, hrest⟩, hsize⟩ := h.selected request ambient messages hbusy
      have hencodable : ∀ message ∈ messages, Server.Encodable message :=
        (hsound.ready connection request ambient _ hbusy).2.2
      have hcarried : carried (next.connections connection) = messages := by
        refine (carried_settle _ connection request ambient _).trans ?_
        rw [batchOf, Server.caught_buildResponse (by simp) hsize, batch_frame hencodable]
      have hwaiting := Server.waitingFor_deleteMessages server.tables hrest.symm
      refine ⟨⟨halone, fun other otherAmbient selected hselected ↦ ?_⟩, ?_⟩
      · rcases Server.ServerState.busy_of_settle hselected with ⟨hne, -⟩ | ⟨-, -, -, hgoing⟩
        · exact absurd rfl hne
        · cases hgoing
      · rw [unread, if_pos rfl, hcarried, htables, hwaiting, unread, if_pos rfl,
          hquiet rfl, ← hrest]
        exact (List.append_nil _).symm
    · have hother : Server.requesterIdOf request ≠ me := fun hme ↦
        hsame (h.alone connection request (Server.ServerState.running_of_busy hbusy) hme)
      have hwaiting := waitingFor_removed hsound hheld hbusy hother
      refine ⟨⟨halone, fun otherRequest otherAmbient selected hselected ↦ ?_⟩, ?_⟩
      · rw [hothers hsame] at hselected
        rw [htables, hwaiting]
        exact h.selected otherRequest otherAmbient selected hselected
      · rw [unread, hothers hsame, htables, hwaiting]
        exact (List.append_nil _).symm

/-- A request that arrives at another connection for another client changes nothing. -/
theorem arrive (h : Inbox own me server) (hne : connection ≠ own)
    (hother : Server.requesterIdOf request ≠ me) (ambient : Server.Ambient) :
    let next := server.settle connection request
      (Server.ServerState.stagedOutcome ambient (Server.start request))
    Inbox own me next ∧ unread own me opened next = unread own me opened server := by
  intro next
  have htables : next.tables = server.tables := Server.ServerState.settle_tables _ _ _ _
  have hown : next.connections own = server.connections own :=
    Server.ServerState.settle_connections_of_ne _ request _ (Ne.symm hne)
  refine ⟨⟨fun other running hrunning hme ↦ ?_,
    fun otherRequest otherAmbient selected hselected ↦ ?_⟩, ?_⟩
  · rcases Server.ServerState.running_of_settle hrunning with ⟨-, hold⟩ | ⟨-, rfl⟩
    · exact h.alone other running hold hme
    · exact absurd hme hother
  · rw [hown] at hselected
    rw [htables]
    exact h.selected otherRequest otherAmbient selected hselected
  · rw [unread, hown, htables, unread]

/-- A request that the client sends opens an exchange, and nothing is carried back yet. -/
theorem send (h : Inbox own me server) (request : Bytes) (ambient : Server.Ambient) :
    let next := server.settle own request
      (Server.ServerState.stagedOutcome ambient (Server.start request))
    Inbox own me next ∧ unread own me true next = unread own me false server := by
  intro next
  have htables : next.tables = server.tables := Server.ServerState.settle_tables _ _ _ _
  obtain ⟨hbatch, hnone⟩ := batchOf_start request (Server.requesterIdOf request)
  refine ⟨⟨fun other running hrunning hme ↦ ?_,
    fun otherRequest otherAmbient selected hselected ↦ ?_⟩, ?_⟩
  · rcases Server.ServerState.running_of_settle hrunning with ⟨-, hold⟩ | ⟨rfl, -⟩
    · exact h.alone other running hold hme
    · rfl
  · rcases Server.ServerState.busy_of_settle hselected with ⟨hne, -⟩ | ⟨-, -, -, hgoing⟩
    · exact absurd rfl hne
    · rw [hgoing, Server.Progress.heldFor, Server.Stage.heldFor, if_pos rfl] at hnone
      cases hnone
  · rw [unread, if_pos rfl, htables, unread, if_neg Bool.false_ne_true]
    refine congrArg (· ++ _) ?_
    exact (carried_settle server own request ambient (Server.start request)).trans hbatch

end Inbox

end MessageU.System
