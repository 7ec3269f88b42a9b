import MessageU.Server.Sockets

/-!
# What belongs to a client

The ID in the header of a request is all that the server knows of who sends it. So everything that
is a client's at the server is in the hands of the requests that carry its ID, and this module shows
that it is in no other hands: in a run in which no request carries the ID, the row of the client
stays as it is, its waiting messages stay, and nothing is stored in its name (`property_kept`). What
others can do is to put messages behind those that wait.

The row changes only by `update_client_last_seen`, which is for the requester. A message is deleted
only by a handler that has selected it for the requester (`HeldStored`), and message IDs are never
reused, so that a deletion for one client spares the messages of all others.
-/

set_option autoImplicit false
set_option relaxedAutoImplicit false

namespace MessageU.Server

open Library

/-- The rows of messages that were sent with an ID. -/
def sentWith (clientId : Bytes) (rows : List MessageRow) : List MessageRow :=
  rows.filter fun row ↦ row.fromClient = clientId

/-- An event that is no arrival of a request with an ID. -/
def Event.NotFrom (clientId : Bytes) : Event → Prop
  | .arrive _ request _ => requesterIdOf request ≠ clientId
  | .call _ _ => True

instance (clientId : Bytes) : DecidablePred (Event.NotFrom clientId)
  | .arrive _ request _ => inferInstanceAs (Decidable (requesterIdOf request ≠ clientId))
  | .call _ _ => isTrue trivial

/-- What is a client's stays, and others add to it what is from them. -/
structure Property (clientId : Bytes) (tables after : Tables) : Prop where
  row : ∀ row ∈ tables.clients, row.id = clientId → row ∈ after.clients
  waiting : tables.waitingFor clientId <+: after.waitingFor clientId

theorem Property.refl (clientId : Bytes) (tables : Tables) : Property clientId tables tables :=
  ⟨fun _ hrow _ ↦ hrow, List.prefix_refl _⟩

theorem Property.trans {clientId : Bytes} {tables middle after : Tables}
    (h : Property clientId tables middle) (hnext : Property clientId middle after) :
    Property clientId tables after :=
  ⟨fun row hrow hid ↦ hnext.row row (h.row row hrow hid) hid, h.waiting.trans hnext.waiting⟩

namespace ServerState

/-- No request with an ID is being processed. -/
def Absent {Rest : Type} (clientId : Bytes) (server : ServerState Rest) : Prop :=
  ∀ connection request, server.running connection = some request → requesterIdOf request ≠ clientId

section Step

variable {clientId : Bytes} {server : ServerState Staged}

/-- Messages that are held for others are not those of the client. -/
theorem HeldStored.spares (h : HeldStored server) (hsound : Sound server) {connection : ℕ}
    {request : Bytes} {ambient : Ambient} {messages : List WaitingMessage}
    (hbusy : server.connections connection = .busy request (ambient, .removeMessages messages))
    (hother : requesterIdOf request ≠ clientId) :
    (server.tables.deleteMessages (messages.map WaitingMessage.id)).waitingFor clientId =
      server.tables.waitingFor clientId := by
  rw [waitingFor_deleteMessages_eq]
  refine List.filter_eq_self.mpr fun message hmessage ↦ decide_eq_true fun hid ↦ hother ?_
  obtain ⟨held, hheld, hsame⟩ := List.mem_map.mp hid
  obtain ⟨stored, hstored, rfl, hclient⟩ := h connection request ambient messages hbusy held hheld
  obtain ⟨row, hrow, rfl⟩ := List.mem_map.mp hmessage
  obtain ⟨hmem, hrecipient⟩ := List.mem_filter.mp hrow
  have hnodup : (server.inserted.map MessageRow.id).Nodup :=
    hsound.inserted_increasing.imp fun hlt ↦ hlt.ne
  have heq : stored = row :=
    List.inj_on_of_nodup_map hnodup hstored (hsound.messages_inserted.subset hmem) hsame
  rw [← hclient, heq]
  exact of_decide_eq_true hrecipient

/-- A call of a handler for another client. -/
theorem property_call (hheld : HeldStored server) (hsound : Sound server) {connection : ℕ}
    {request : Bytes} {ambient : Ambient} {stage : Stage} {after : Tables} {row : Option MessageRow}
    {progress : Progress} (hbusy : server.connections connection = .busy request (ambient, stage))
    (hstep : StageStep server.tables request ambient stage after row progress)
    (hother : requesterIdOf request ≠ clientId) :
    Property clientId server.tables after ∧ sentWith clientId row.toList = [] := by
  cases hstep with
  | requesterTouched =>
    refine ⟨⟨fun row hrow hid ↦ ?_, List.prefix_refl _⟩, rfl⟩
    have htouch : row.touch (requesterIdOf request) ambient.now = row :=
      if_neg fun hrequester ↦ hother (hrequester.symm.trans hid)
    exact htouch ▸ List.mem_map_of_mem hrow
  | registered hinsert =>
    obtain ⟨hclients, hmessages, -⟩ := Tables.insertClient_eq_ok hinsert
    refine ⟨⟨fun row hrow _ ↦ hclients ▸ List.mem_append_left _ hrow, ?_⟩, rfl⟩
    rw [waitingFor_congr hmessages]
  | messagesRemoved messages =>
    refine ⟨⟨fun _ hrow _ ↦ hrow, ?_⟩, rfl⟩
    rw [hheld.spares hsound hbusy hother]
  | messageStored =>
    refine ⟨⟨fun _ hrow _ ↦ hrow, ?_⟩, ?_⟩
    · rw [waitingFor_insertMessage]
      exact List.prefix_append _ _
    · simp [sentWith, hother]
  | _ => exact ⟨.refl _ _, rfl⟩

/-- What holds while no request with the ID comes. -/
structure Left (clientId : Bytes) (before : Tables) (rows : List MessageRow)
    (server : ServerState Staged) : Prop where
  sound : Sound server
  held : HeldStored server
  absent : Absent clientId server
  property : Property clientId before server.tables
  sent : sentWith clientId server.inserted = rows

theorem Left.step {before : Tables} {rows : List MessageRow} (h : Left clientId before rows server)
    (limit : Option ℕ) {event : Event} (hevent : event.NotFrom clientId) :
    Left clientId before rows (stagedStep limit server event) := by
  have hsound := h.sound.step limit event
  have hheld := h.held.step h.sound limit event
  suffices Absent clientId (stagedStep limit server event) ∧
      Property clientId before (stagedStep limit server event).tables ∧
        sentWith clientId (stagedStep limit server event).inserted = rows from
    ⟨hsound, hheld, this.1, this.2.1, this.2.2⟩
  clear hsound hheld
  refine stagedStep_cases (motive := fun after ↦ Absent clientId after ∧
      Property clientId before after.tables ∧ sentWith clientId after.inserted = rows)
    limit server event ⟨h.absent, h.property, h.sent⟩
      (fun connection request ambient harrive _ ↦ ?_)
    fun connection fault request ambient stage after row progress _ hbusy hstep ↦ ?_
  · rw [harrive] at hevent
    rw [settle_tables, settle_inserted]
    refine ⟨fun other running hrunning ↦ ?_, h.property, h.sent⟩
    rcases running_of_settle hrunning with ⟨-, hold⟩ | ⟨-, rfl⟩
    · exact h.absent other running hold
    · exact hevent
  · have hother : requesterIdOf request ≠ clientId :=
      h.absent connection request (by rw [running, hbusy])
    obtain ⟨hproperty, hsent⟩ := property_call h.held h.sound hbusy hstep hother
    rw [settle_tables, settle_inserted]
    refine ⟨fun other running hrunning ↦ ?_, h.property.trans hproperty, ?_⟩
    · rcases running_of_settle hrunning with ⟨-, hold⟩ | ⟨-, rfl⟩
      · exact h.absent other running hold
      · exact hother
    · show sentWith clientId (server.inserted ++ row.toList) = rows
      rw [sentWith, List.filter_append, ← sentWith, ← sentWith, hsent, List.append_nil, h.sent]

end Step

theorem heldStored_run (limit : Option ℕ) (events : List Event) :
    HeldStored (runEvents (stagedStep limit) (initial Staged) events) :=
  (runEvents_invariant (P := fun server ↦ Sound server ∧ HeldStored server)
    (fun _ event h ↦ ⟨h.1.step limit event, h.2.step h.1 limit event⟩)
    ⟨sound_initial, fun _ _ _ _ hbusy ↦ by cases hbusy⟩ events).2

/-- What is a client's is changed by its own requests only. From a moment on at which no request
with its ID is being processed, and as long as none comes, whatever requests the others make and
however their handlers interleave and fail, the row of the client is the same, no message that waits
for it is gone, those that are new wait behind it, and no message is stored in its name. -/
theorem property_kept (limit : Option ℕ) (clientId : Bytes) (before events : List Event)
    (habsent : Absent clientId (runEvents (step limit) (initial Handler) before))
    (hothers : ∀ event ∈ events, event.NotFrom clientId) :
    let server := runEvents (step limit) (initial Handler) before
    let after := runEvents (step limit) server events
    Property clientId server.tables after.tables ∧
      sentWith clientId after.inserted = sentWith clientId server.inserted := by
  intro server after
  let staged := runEvents (stagedStep limit) (initial Staged) before
  have hserver : server = staged.unstage := run_unstage limit before
  have hafter : after = (runEvents (stagedStep limit) staged events).unstage := by
    show runEvents (step limit) server events = _
    rw [hserver]
    exact runEvents_comm (step_unstage limit) staged events
  have hstart : Left clientId staged.tables (sentWith clientId staged.inserted) staged := by
    refine ⟨sound_run limit before, heldStored_run limit before,
      fun connection request hrunning ↦ ?_,
      .refl _ _, rfl⟩
    refine habsent connection request ?_
    rw [← hrunning, ← running_unstage]
    exact congrArg (·.running connection) hserver
  have hrun : Along (stagedStep limit) (fun _ event ↦ event.NotFrom clientId) staged events :=
    Along.of_forall fun event hevent _ ↦ hothers event hevent
  have hleft : Left clientId staged.tables (sentWith clientId staged.inserted) _ :=
    Along.invariant (fun _ _ hevent hleft ↦ hleft.step limit hevent) hstart hrun
  rw [hafter, hserver]
  exact ⟨hleft.property, hleft.sent⟩

/-- What the requests of a second client read from outside the database. -/
def strangerAmbient : Ambient :=
  { secondAmbient with now := "later" }

/-- It registers, writes to the first client and pulls. -/
def strangerRun : List Event :=
  session 1 (requestFrame strangerAmbient.token requestRegister
      (registrationPayload [66] (List.replicate publicKeySize 0))) strangerAmbient ++
    session 1 (requestFrame strangerAmbient.token requestSendMessage
      (messagePayload soloRow.id textMessage [7])) strangerAmbient ++
    session 1 (requestFrame strangerAmbient.token requestWaitingMessages []) strangerAmbient

/-- The row of the first client is the same after it. -/
theorem property_kept_stranger :
    soloRow ∈ (runEvents (step none) (runEvents (step none) (initial Handler)
      (session 0 soloRegistration soloAmbient)) strangerRun).tables.clients := by
  refine (property_kept none soloRow.id (session 0 soloRegistration soloAmbient) strangerRun
    (fun connection request hrunning ↦ ?_) (by decide)).1.row soloRow (by decide +kernel) rfl
  have hquiet : Quiet (initial Staged) := fun _ ↦ .inl rfl
  have hidle := (hquiet.session none 0 soloRegistration soloAmbient).running connection
  rw [run_unstage, running_unstage, hidle] at hrunning
  cases hrunning

end ServerState

end MessageU.Server
