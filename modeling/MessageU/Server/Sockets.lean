import MessageU.Server.Mailboxes

/-!
# The loop of `handle_client` and its socket

`handle_client` reads a request with `receive_exact`, hands it to `request_handler_main` and writes
the response with `sendall`, until the peer disconnects. `Sockets` puts this loop around the
connections of the server: a `recv` returns some of the bytes that were asked for, or none when the
peer has gone, `sendall` writes the response in pieces of any size, and either of them can raise at
any moment. `sent` and `cut` log the responses that were written in full and those whose `sendall`
raised.

A pull deletes the messages before its response is written, so a message can be lost with the
connection (`broken_send_loses_message`). It is lost in no other way: in every run every message
that was ever stored is still in the table or is carried by a response to a pull of its recipient,
and that response was written in full, is being written, or was cut off (`kept_or_handed_over`). The
first half is a fact about the server alone (`Kept`), the second one about the loop (`InHand`).
-/

set_option autoImplicit false
set_option relaxedAutoImplicit false

namespace MessageU.Server

open Library

/-! ### The loop -/

/-- Where the loop of `handle_client` is. -/
inductive ClientLoop
  /-- In `receive_exact(conn, HEADER_SIZE)`, with what it has received. -/
  | header (received : Bytes)
  /-- In `receive_exact(conn, get_payload_size(data))`. -/
  | payload (header received : Bytes)
  /-- In `request_handler_main`. -/
  | handling
  /-- In `sendall`, with the number of bytes written. -/
  | sending (answer : Answer) (written : ℕ)
  /-- The loop was left. -/
  | closed
  deriving DecidableEq

/-- The server, the loops of its connections and the logs of `sendall`: the responses that were
written in full, and those that were not, with the number of bytes written. -/
structure Sockets where
  server : ServerState Handler
  loops : ℕ → ClientLoop
  sent : List Answer
  cut : List (Answer × ℕ)

/-- Something happens at a connection. -/
inductive SocketEvent
  /-- `recv` returns; no bytes mean that the peer has disconnected. `ambient` is what the request
  reads if it is complete. -/
  | recv (connection : ℕ) (chunk : Bytes) (ambient : Ambient)
  /-- The handler makes its next method call. -/
  | call (connection : ℕ) (fault : Bool)
  /-- `sendall` writes some bytes. -/
  | write (connection : ℕ) (count : ℕ)
  /-- `recv` or `sendall` raises. -/
  | fail (connection : ℕ)

/-- The connection something happens at. -/
def SocketEvent.connection : SocketEvent → ℕ
  | .recv connection _ _ | .call connection _ | .write connection _ | .fail connection => connection

namespace Sockets

/-- The server before any connection is accepted, on empty tables. -/
def initial : Sockets where
  server := .initial Handler
  loops := fun _ ↦ .header []
  sent := []
  cut := []

/-- The loop of a connection goes on. -/
def goOn (sockets : Sockets) (connection : ℕ) (loop : ClientLoop) : Sockets :=
  { sockets with loops := Function.update sockets.loops connection loop }

/-- Where the loop is behind a step of its handler. -/
def loopBehind (connection : ℕ) : Connection Handler → ClientLoop
  | .returned request response => .sending ⟨connection, request, response⟩ 0
  | .busy _ _ => .handling
  | .idle => .header []
  | .stopped => .closed

/-- The handler of a connection makes a step. -/
def handle (limit : Option ℕ) (sockets : Sockets) (event : Event) : Sockets :=
  let server := ServerState.step limit sockets.server event
  { sockets with
    server := server
    loops := Function.update sockets.loops event.connection
      (loopBehind event.connection (server.connections event.connection)) }

/-- One event. An event that the loop of its connection cannot take changes nothing; neither does a
`recv` that returns more than it was asked for. -/
def step (limit : Option ℕ) (sockets : Sockets) : SocketEvent → Sockets
  | .recv connection chunk ambient =>
    match sockets.loops connection with
    | .header received =>
      if chunk = [] then sockets.goOn connection .closed
      else if (received ++ chunk).length < headerSize then
        sockets.goOn connection (.header (received ++ chunk))
      else if headerSize < (received ++ chunk).length then sockets
      else if payloadSizeOf (received ++ chunk) = 0 then
        sockets.handle limit (.arrive connection (received ++ chunk) ambient)
      else sockets.goOn connection (.payload (received ++ chunk) [])
    | .payload header received =>
      if chunk = [] then sockets.goOn connection .closed
      else if (received ++ chunk).length < payloadSizeOf header then
        sockets.goOn connection (.payload header (received ++ chunk))
      else if payloadSizeOf header < (received ++ chunk).length then sockets
      else sockets.handle limit (.arrive connection (header ++ (received ++ chunk)) ambient)
    | .handling | .sending _ _ | .closed => sockets
  | .call connection fault =>
    match sockets.loops connection with
    | .handling => sockets.handle limit (.call connection fault)
    | .header _ | .payload _ _ | .sending _ _ | .closed => sockets
  | .write connection count =>
    match sockets.loops connection with
    | .sending answer written =>
      if written + count < answer.response.length then
        sockets.goOn connection (.sending answer (written + count))
      else if written + count = answer.response.length then
        { sockets.goOn connection (.header []) with sent := sockets.sent ++ [answer] }
      else sockets
    | .header _ | .payload _ _ | .handling | .closed => sockets
  | .fail connection =>
    match sockets.loops connection with
    | .header _ | .payload _ _ => sockets.goOn connection .closed
    | .sending answer written =>
      if written < answer.response.length then
        { sockets.goOn connection .closed with cut := sockets.cut ++ [(answer, written)] }
      else sockets
    | .handling | .closed => sockets

end Sockets

/-! ### Messages leave the table with a response -/

/-- The answer is a `2104` response to a pull of the message's recipient and carries the message. -/
structure Carries (answer : Answer) (row : MessageRow) : Prop where
  requester : requesterIdOf answer.request = row.toClient
  code : responseCode answer.response = responseWaitingMessages
  record : row.waiting ∈ recordsIn answer.response

namespace ServerState

/-- The messages that handlers are about to delete were stored for the clients that pull. -/
def HeldStored (server : ServerState Staged) : Prop :=
  ∀ connection request ambient messages,
    server.connections connection = .busy request (ambient, .removeMessages messages) →
      ∀ message ∈ messages, ∃ row ∈ server.inserted,
        row.waiting = message ∧ row.toClient = requesterIdOf request

/-- Every message that was ever stored is in the table or carried by a response that was built. -/
def RowsKept (server : ServerState Staged) : Prop :=
  ∀ row ∈ server.inserted, row ∈ server.tables.messages ∨
    ∃ answer ∈ server.answered, Carries answer row

/-- What carries this through a run. -/
structure Kept (server : ServerState Staged) : Prop where
  sound : Sound server
  payloads : PayloadsHeldFit server
  held : HeldStored server
  rows : RowsKept server

theorem kept_initial : Kept (initial Staged) where
  sound := sound_initial
  payloads := fun _ _ _ _ h ↦ by cases h
  held := fun _ _ _ _ h ↦ by cases h
  rows := fun _ h ↦ absurd h List.not_mem_nil

/-- Rows that were inserted stay in the log. -/
theorem inserted_of_step {server : ServerState Staged} (limit : Option ℕ) (event : Event)
    {row : MessageRow} (h : row ∈ server.inserted) :
    row ∈ (stagedStep limit server event).inserted := by
  refine stagedStep_cases (motive := fun after ↦ row ∈ after.inserted) limit server event h
    (fun connection request ambient _ _ ↦ ?_)
    fun connection fault request ambient stage after stored progress _ _ _ ↦ ?_
  · rwa [settle_inserted]
  · rw [settle_inserted]
    exact List.mem_append_left _ h

theorem HeldStored.step {server : ServerState Staged} (h : HeldStored server)
    (hsound : Sound server) (limit : Option ℕ) (event : Event) :
    HeldStored (stagedStep limit server event) := by
  intro connection request ambient messages hafter message hmessage
  rcases removeMessages_of_step hafter with hold | ⟨-, hbusy, rfl⟩
  · obtain ⟨row, hrow, hwaiting, hclient⟩ :=
      h connection request ambient messages hold message hmessage
    exact ⟨row, inserted_of_step limit event hrow, hwaiting, hclient⟩
  · obtain ⟨row, hrow, hwaiting⟩ := List.mem_map.mp hmessage
    obtain ⟨hmem, hclient⟩ := List.mem_filter.mp hrow
    exact ⟨row, inserted_of_step limit event (hsound.messages_inserted.subset hmem), hwaiting,
      of_decide_eq_true hclient⟩

/-- A row that a handler deletes is carried by its response. Assumes: the handler's payload fits. -/
theorem Kept.carries {server : ServerState Staged} (h : Kept server) {connection : ℕ}
    {request : Bytes} {ambient : Ambient} {messages : List WaitingMessage}
    (hbusy : server.connections connection = .busy request (ambient, .removeMessages messages))
    {row : MessageRow} (hrow : row ∈ server.inserted)
    (hid : row.id ∈ messages.map WaitingMessage.id) :
    Carries ⟨connection, request, caught (buildResponse responseWaitingMessages
      (messages.flatMap recordBytes))⟩ row := by
  have hready := h.sound.ready connection request ambient _ hbusy
  obtain ⟨message, hmessage, heq⟩ := List.mem_map.mp hid
  obtain ⟨stored, hstored, rfl, hclient⟩ :=
    h.held connection request ambient messages hbusy message hmessage
  have hnodup : (server.inserted.map MessageRow.id).Nodup :=
    h.sound.inserted_increasing.imp fun hlt ↦ hlt.ne
  have hsame : stored = row := List.inj_on_of_nodup_map hnodup hstored hrow heq
  subst hsame
  rw [caught_buildResponse (by simp) (h.payloads connection request ambient messages hbusy)]
  exact ⟨hclient.symm, responseCode_responseFrame (by simp) _,
    by rwa [recordsIn_responseFrame hready.2.2]⟩

/-- A call keeps every message in the table or in a response. -/
theorem Kept.rows_call {server : ServerState Staged} (h : Kept server) {connection : ℕ}
    {request : Bytes} {ambient : Ambient} {stage : Stage} {after : Tables}
    {stored : Option MessageRow} {progress : Progress}
    (hbusy : server.connections connection = .busy request (ambient, stage))
    (hstep : StageStep server.tables request ambient stage after stored progress) :
    RowsKept ((server.afterCall after stored).settle connection request
      (stagedOutcome ambient progress)) := by
  intro row hrow
  rw [settle_inserted] at hrow
  rw [settle_tables, settle_answered]
  change row ∈ after.messages ∨ ∃ answer ∈ server.answered ++ progress.answers connection request,
    Carries answer row
  rcases List.mem_append.mp hrow with hold | hnew
  · rcases h.rows row hold with hmem | ⟨answer, hanswer, hcarries⟩
    · cases hstep with
      | registered hinsert =>
        left
        rwa [(Tables.insertClient_eq_ok hinsert).2.1]
      | messagesRemoved messages =>
        by_cases hid : row.id ∈ messages.map WaitingMessage.id
        · exact .inr ⟨_, List.mem_append_right _ (List.mem_singleton_self _),
            h.carries hbusy hold hid⟩
        · exact .inl (List.mem_filter.mpr ⟨hmem, decide_eq_true hid⟩)
      | messageStored => exact .inl (List.mem_append_left _ hmem)
      | _ => exact .inl hmem
    · exact .inr ⟨answer, List.mem_append_left _ hanswer, hcarries⟩
  · cases hstep with
    | messageStored =>
      exact .inl (List.mem_append_right _ (by simpa using hnew))
    | _ => exact absurd hnew List.not_mem_nil

/-- Every event keeps every message in the table or in a response. Assumes: a selection of no more
messages than a payload can hold. -/
theorem Kept.step {server : ServerState Staged} (h : Kept server) {event : Event}
    (hfits : SelectionsFit server event) (limit : Option ℕ) :
    Kept (stagedStep limit server event) := by
  refine ⟨h.sound.step limit event, h.payloads.step hfits limit,
    h.held.step h.sound limit event, ?_⟩
  refine stagedStep_cases limit server event h.rows (fun connection request ambient _ _ ↦ ?_)
    fun connection fault request ambient stage after row progress _ hbusy hstep ↦
      h.rows_call hbusy hstep
  intro row hrow
  rw [settle_inserted] at hrow
  rw [settle_tables, settle_answered]
  rcases h.rows row hrow with hmem | ⟨answer, hanswer, hcarries⟩
  · exact .inl hmem
  · exact .inr ⟨answer, List.mem_append_left _ hanswer, hcarries⟩

/-! ### Responses that are built are written -/

/-- Settling builds no response or the one that the connection has returned. -/
theorem settle_answered_cases {Rest : Type} (server : ServerState Rest) (connection : ℕ)
    (request : Bytes) (outcome : Outcome Rest) :
    (server.settle connection request outcome).answered = server.answered ∨
      ∃ response,
        (server.settle connection request outcome).answered =
          server.answered ++ [⟨connection, request, response⟩] ∧
        (server.settle connection request outcome).connections connection =
          .returned request response := by
  cases outcome with
  | answer response => exact .inr ⟨response, rfl, Function.update_self _ _ _⟩
  | going rest => exact .inl rfl
  | raised => exact .inl rfl

/-- So does a step of the server. -/
theorem step_answered_cases (limit : Option ℕ) (server : ServerState Handler) (event : Event) :
    (step limit server event).answered = server.answered ∨
      ∃ request response,
        (step limit server event).answered =
          server.answered ++ [⟨event.connection, request, response⟩] ∧
        (step limit server event).connections event.connection = .returned request response := by
  cases event with
  | arrive connection request ambient =>
    have hsettle := settle_answered_cases server connection request
      (programOutcome (requestHandlerMain request ambient))
    simp only [step, Event.connection]
    cases server.connections connection with
    | idle | returned => exact hsettle.imp_right fun hbuilt ↦ ⟨request, hbuilt⟩
    | busy | stopped => exact .inl rfl
  | call connection fault =>
    simp only [step, Event.connection]
    cases server.connections connection with
    | idle | returned | stopped => exact .inl rfl
    | busy request program =>
      cases program with
      | finished outcome => exact .inl rfl
      | request call resume =>
        exact (settle_answered_cases (server.afterCall _ _) connection request _).imp_right
          fun hbuilt ↦ ⟨request, hbuilt⟩

end ServerState

namespace Sockets

/-- What has become of a response: it was written in full, cut off, or is being written. -/
def HandedOver (sockets : Sockets) (answer : Answer) : Prop :=
  answer ∈ sockets.sent ∨
    (∃ written, (answer, written) ∈ sockets.cut ∧ written < answer.response.length) ∨
    ∃ written, sockets.loops answer.connection = .sending answer written

/-- Every response that was built was handed over to `sendall`. -/
def InHand (sockets : Sockets) : Prop :=
  ∀ answer ∈ sockets.server.answered, sockets.HandedOver answer

/-- A response stays handed over while the loop of a connection that is not sending goes on. -/
theorem HandedOver.goOn {sockets : Sockets} {answer : Answer} (h : sockets.HandedOver answer)
    {connection : ℕ} (hloop : ∀ other written, sockets.loops connection ≠ .sending other written)
    (loop : ClientLoop) : (sockets.goOn connection loop).HandedOver answer := by
  rcases h with hsent | hcut | ⟨written, hsending⟩
  · exact .inl hsent
  · exact .inr (.inl hcut)
  · refine .inr (.inr ⟨written, ?_⟩)
    have hne : answer.connection ≠ connection := by
      rintro rfl
      exact hloop answer written hsending
    exact (Function.update_of_ne hne _ _).trans hsending

/-- A step of the handler of a connection that is not sending hands over the response it builds. -/
theorem InHand.handle {sockets : Sockets} (h : InHand sockets) (limit : Option ℕ) (event : Event)
    (hloop : ∀ other written, sockets.loops event.connection ≠ .sending other written) :
    InHand (sockets.handle limit event) := by
  have hold : ∀ answer ∈ sockets.server.answered,
      (sockets.handle limit event).HandedOver answer :=
    fun answer hanswer ↦ (h answer hanswer).goOn hloop
      (loopBehind event.connection
        ((ServerState.step limit sockets.server event).connections event.connection))
  intro answer hanswer
  change answer ∈ (ServerState.step limit sockets.server event).answered at hanswer
  rcases ServerState.step_answered_cases limit sockets.server event with
    hsame | ⟨request, response, hanswered, hreturned⟩
  · rw [hsame] at hanswer
    exact hold answer hanswer
  · rw [hanswered] at hanswer
    rcases List.mem_append.mp hanswer with hbefore | hnew
    · exact hold answer hbefore
    · rw [List.mem_singleton.mp hnew]
      refine .inr (.inr ⟨0, ?_⟩)
      exact (Function.update_self _ _ _).trans (congrArg (loopBehind event.connection) hreturned)

/-- An event leaves everything alone, moves a loop that is not sending, makes a step of a handler,
or goes on with a response: more of it is written, all of it, or its `sendall` raises. -/
theorem step_cases {motive : Sockets → Prop} (limit : Option ℕ) (sockets : Sockets)
    (event : SocketEvent) (hsame : motive sockets)
    (hmove : ∀ loop,
      (∀ other written, sockets.loops event.connection ≠ .sending other written) →
      motive (sockets.goOn event.connection loop))
    (harrive : ∀ request ambient,
      (∀ other written, sockets.loops event.connection ≠ .sending other written) →
      motive (sockets.handle limit (.arrive event.connection request ambient)))
    (hcall : ∀ fault, event = .call event.connection fault →
      (∀ other written, sockets.loops event.connection ≠ .sending other written) →
      motive (sockets.handle limit (.call event.connection fault)))
    (hwrite : ∀ answer written more, sockets.loops event.connection = .sending answer written →
      motive (sockets.goOn event.connection (.sending answer more)))
    (hsent : ∀ answer written, sockets.loops event.connection = .sending answer written →
      motive { sockets.goOn event.connection (.header []) with sent := sockets.sent ++ [answer] })
    (hcut : ∀ answer written, sockets.loops event.connection = .sending answer written →
      written < answer.response.length →
      motive { sockets.goOn event.connection .closed with
        cut := sockets.cut ++ [(answer, written)] }) :
    motive (step limit sockets event) := by
  cases event with
  | recv connection chunk ambient =>
    simp only [step]
    cases hloop : sockets.loops connection with
    | header received =>
      have hnot : ∀ other written, sockets.loops connection ≠ .sending other written :=
        fun _ _ h ↦ ClientLoop.noConfusion (hloop.symm.trans h)
      dsimp only
      split_ifs
      · exact hmove _ hnot
      · exact hmove _ hnot
      · exact hsame
      · exact harrive _ ambient hnot
      · exact hmove _ hnot
    | payload header received =>
      have hnot : ∀ other written, sockets.loops connection ≠ .sending other written :=
        fun _ _ h ↦ ClientLoop.noConfusion (hloop.symm.trans h)
      dsimp only
      split_ifs
      · exact hmove _ hnot
      · exact hmove _ hnot
      · exact hsame
      · exact harrive _ ambient hnot
    | handling | sending | closed => exact hsame
  | call connection fault =>
    simp only [step]
    cases hloop : sockets.loops connection with
    | handling =>
      exact hcall fault rfl fun _ _ h ↦ ClientLoop.noConfusion (hloop.symm.trans h)
    | header | payload | sending | closed => exact hsame
  | write connection count =>
    simp only [step]
    cases hloop : sockets.loops connection with
    | sending answer written =>
      dsimp only
      split_ifs
      · exact hwrite answer written _ hloop
      · exact hsent answer written hloop
      · exact hsame
    | header | payload | handling | closed => exact hsame
  | fail connection =>
    simp only [step]
    cases hloop : sockets.loops connection with
    | header | payload =>
      exact hmove _ fun _ _ h ↦ ClientLoop.noConfusion (hloop.symm.trans h)
    | sending answer written =>
      dsimp only
      split_ifs with hpart
      · exact hcut answer written hloop hpart
      · exact hsame
    | handling | closed => exact hsame

/-- A response that stays handed over while the loop of a connection leaves or goes on with a
response of its own. -/
theorem HandedOver.resend {sockets after : Sockets} {answer : Answer}
    (h : sockets.HandedOver answer) {connection : ℕ} {current : Answer} {written : ℕ}
    (hloop : sockets.loops connection = .sending current written)
    (hsent : sockets.sent ⊆ after.sent) (hcut : sockets.cut ⊆ after.cut)
    (hothers : ∀ other, other ≠ connection → after.loops other = sockets.loops other)
    (hcurrent : current.connection = connection → after.HandedOver current) :
    after.HandedOver answer := by
  rcases h with hold | ⟨count, hold, hpart⟩ | ⟨count, hsending⟩
  · exact .inl (hsent hold)
  · exact .inr (.inl ⟨count, hcut hold, hpart⟩)
  · by_cases hsame : answer.connection = connection
    · rw [hsame, hloop] at hsending
      cases hsending
      exact hcurrent hsame
    · exact .inr (.inr ⟨count, (hothers _ hsame).trans hsending⟩)

/-- Every event keeps the responses handed over. -/
theorem InHand.step {sockets : Sockets} (h : InHand sockets) (limit : Option ℕ)
    (event : SocketEvent) : InHand (step limit sockets event) := by
  refine step_cases limit sockets event h (fun loop hloop ↦ ?_)
    (fun request ambient hloop ↦ h.handle limit (.arrive event.connection request ambient) hloop)
    (fun fault _ hloop ↦ h.handle limit (.call event.connection fault) hloop)
    (fun answer written more hloop ↦ ?_) (fun answer written hloop ↦ ?_)
    fun answer written hloop hpart ↦ ?_
  · exact fun answer hanswer ↦ (h answer hanswer).goOn hloop loop
  · refine fun other hother ↦ (h other hother).resend hloop (List.Subset.refl _)
      (List.Subset.refl _) (fun _ hne ↦ Function.update_of_ne hne _ _) fun hsame ↦ ?_
    refine .inr (.inr ⟨more, ?_⟩)
    rw [hsame]
    exact Function.update_self _ _ _
  · exact fun other hother ↦ (h other hother).resend hloop (List.subset_append_left _ _)
      (List.Subset.refl _) (fun _ hne ↦ Function.update_of_ne hne _ _) fun _ ↦
        .inl (List.mem_append_right _ (List.mem_singleton_self _))
  · exact fun other hother ↦ (h other hother).resend hloop (List.Subset.refl _)
      (List.subset_append_left _ _) (fun _ hne ↦ Function.update_of_ne hne _ _) fun _ ↦
        .inr (.inl ⟨written, List.mem_append_right _ (List.mem_singleton_self _), hpart⟩)

/-! ### Runs -/

/-- The payloads of `2104` responses fit their length field. -/
def PayloadFits (sockets : Sockets) : SocketEvent → Prop
  | .call connection fault => ServerState.PayloadFits sockets.server (.call connection fault)
  | .recv _ _ _ | .write _ _ | .fail _ => True

instance (sockets : Sockets) : DecidablePred (PayloadFits sockets)
  | .call connection fault =>
    inferInstanceAs (Decidable (ServerState.PayloadFits sockets.server (.call connection fault)))
  | .recv _ _ _ => isTrue trivial
  | .write _ _ => isTrue trivial
  | .fail _ => isTrue trivial

/-- The handlers are at stages of a server that keeps every message. -/
def ServerKept (sockets : Sockets) : Prop :=
  ∃ staged : ServerState Staged, sockets.server = staged.unstage ∧ staged.Kept

theorem ServerKept.handle {sockets : Sockets} (h : ServerKept sockets) (limit : Option ℕ)
    {event : Event} (hfits : ServerState.PayloadFits sockets.server event) :
    ServerKept (sockets.handle limit event) := by
  obtain ⟨staged, hstaged, hkept⟩ := h
  rw [hstaged] at hfits
  refine ⟨ServerState.stagedStep limit staged event, ?_,
    hkept.step (ServerState.selectionsFit_of_payloadFits hfits) limit⟩
  change ServerState.step limit sockets.server event = _
  rw [hstaged, ServerState.step_unstage]

/-- Every event keeps every message. Assumes: a payload that fits. -/
theorem ServerKept.step {sockets : Sockets} (h : ServerKept sockets) (limit : Option ℕ)
    {event : SocketEvent} (hfits : PayloadFits sockets event) :
    ServerKept (step limit sockets event) := by
  refine step_cases limit sockets event h (fun _ _ ↦ h)
    (fun request ambient _ ↦ h.handle limit trivial) (fun fault hevent _ ↦ ?_)
    (fun _ _ _ _ ↦ h) (fun _ _ _ ↦ h) fun _ _ _ _ ↦ h
  rw [hevent] at hfits
  exact h.handle limit hfits

/-- What becomes of a message. Assumes: a run from empty tables, over any connections, in which
`recv` and `sendall` may stop at any moment and the payloads of `2104` responses fit their length
field. Then every message that was ever stored is in the table, or is carried by a response to a
pull of its recipient that was written in full, was cut off by its broken connection, or is being
written. -/
theorem kept_or_handed_over (limit : Option ℕ) (events : List SocketEvent)
    (hrun : Along (step limit) PayloadFits initial events) :
    let sockets := runEvents (step limit) initial events
    ∀ row ∈ sockets.server.inserted, row ∈ sockets.server.tables.messages ∨
      ∃ answer, Carries answer row ∧ sockets.HandedOver answer := by
  intro sockets row hrow
  have hkept : ServerKept sockets :=
    Along.invariant (fun _ _ hfits h ↦ h.step limit hfits)
      ⟨.initial Staged, ServerState.unstage_initial.symm, ServerState.kept_initial⟩ hrun
  have hinHand : InHand sockets :=
    runEvents_invariant (fun _ event h ↦ h.step limit event)
      (fun _ h ↦ absurd h List.not_mem_nil) events
  obtain ⟨staged, hstaged, hrows⟩ := hkept
  rw [hstaged] at hrow
  rcases hrows.rows row hrow with hmem | ⟨answer, hanswer, hcarries⟩
  · left
    rwa [hstaged]
  · right
    refine ⟨answer, hcarries, hinHand answer ?_⟩
    rwa [hstaged]

/-- An event moves no other loop. -/
theorem step_loops_of_ne (limit : Option ℕ) (sockets : Sockets) (event : SocketEvent) {other : ℕ}
    (h : other ≠ event.connection) :
    (step limit sockets event).loops other = sockets.loops other := by
  have hmoved : ∀ loop, Function.update sockets.loops event.connection loop other =
      sockets.loops other := fun loop ↦ Function.update_of_ne h _ _
  exact step_cases (motive := fun after ↦ after.loops other = sockets.loops other)
    limit sockets event
    rfl (fun loop _ ↦ hmoved loop) (fun _ _ _ ↦ hmoved _) (fun _ _ _ ↦ hmoved _)
    (fun _ _ _ _ ↦ hmoved _) (fun _ _ _ ↦ hmoved _) fun _ _ _ _ ↦ hmoved _

/-- A run on other connections leaves a loop where it was. -/
theorem run_loops_of_ne (limit : Option ℕ) {events : List SocketEvent} {other : ℕ}
    (hevents : ∀ event ∈ events, other ≠ event.connection) (sockets : Sockets) :
    (runEvents (step limit) sockets events).loops other = sockets.loops other := by
  induction events generalizing sockets with
  | nil => rfl
  | cons event rest ih =>
    rw [runEvents_cons, ih (fun later hlater ↦ hevents later (List.mem_cons_of_mem _ hlater)),
      step_loops_of_ne limit sockets event (hevents event List.mem_cons_self)]

/-- A request on a connection, in two pieces, and the calls of its handler. -/
def socketSession (connection : ℕ) (data : Bytes) (calls : ℕ) : List SocketEvent :=
  [.recv connection (data.take headerSize) soloAmbient,
    .recv connection (data.drop headerSize) soloAmbient] ++
      List.replicate calls (.call connection false)

/-- A client registers, sends itself a message and pulls it; the responses are written in full up
to the pull. -/
def socketRun : List SocketEvent :=
  socketSession 0 soloRegistration 1 ++ [.write 0 23] ++ socketSession 0 (soloSend [7]) 4 ++
    [.write 0 27] ++ [.recv 0 soloPull soloAmbient] ++ List.replicate 4 (.call 0 false)

/-- The response of the pull is written as well. -/
def deliveredRun : List SocketEvent :=
  socketRun ++ [.write 0 33]

/-- The connection breaks after ten bytes of that response. -/
def brokenRun : List SocketEvent :=
  socketRun ++ [.write 0 10, .fail 0]

/-- The run that delivers the message. -/
theorem kept_or_handed_over_deliveredRun :
    let sockets := runEvents (step none) initial deliveredRun
    ∀ row ∈ sockets.server.inserted, row ∈ sockets.server.tables.messages ∨
      ∃ answer, Carries answer row ∧ sockets.HandedOver answer :=
  kept_or_handed_over none deliveredRun (by decide +kernel)

/-- A message is deleted and its response is not written. -/
theorem broken_send_loses_message :
    ¬∀ (limit : Option ℕ) (events : List SocketEvent),
      let sockets := runEvents (step limit) initial events
      ∀ row ∈ sockets.server.inserted, row ∈ sockets.server.tables.messages ∨
        ∃ answer, Carries answer row ∧ (answer ∈ sockets.sent ∨
          ∃ written, sockets.loops answer.connection = .sending answer written) := by
  intro h
  have hrow : (soloMessage [7] 0) ∈ (runEvents (step none) initial brokenRun).server.inserted := by
    decide +kernel
  have hgone : (soloMessage [7] 0) ∉
      (runEvents (step none) initial brokenRun).server.tables.messages := by
    decide +kernel
  have hsent : ∀ answer ∈ (runEvents (step none) initial brokenRun).sent,
      responseCode answer.response ≠ responseWaitingMessages := by
    decide +kernel
  rcases h none brokenRun _ hrow with hmem | ⟨answer, hcarries, hsent' | ⟨written, hsending⟩⟩
  · exact hgone hmem
  · exact hsent answer hsent' hcarries.code
  · by_cases hconnection : answer.connection = 0
    · have hclosed : (runEvents (step none) initial brokenRun).loops 0 = .closed := by
        decide +kernel
      rw [hconnection, hclosed] at hsending
      cases hsending
    · have hevents : ∀ event ∈ brokenRun, event.connection = 0 := by
        decide +kernel
      rw [run_loops_of_ne none fun event hevent ↦ by rwa [hevents event hevent]] at hsending
      cases hsending

end Sockets

end MessageU.Server
