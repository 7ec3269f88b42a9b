import MessageU.Client.Replies
import MessageU.Server.Mailboxes
import MessageU.System.Link

/-!
# The order of incoming messages at a client

The main thread and the pull thread of a client pull on one connection. `sendAndReceive` holds a
mutex, but a thread acts upon its response after it has released it. `Puller` is the two threads at
a running server: a thread sends its request, reads the response, which it then holds in its hand,
and acts upon it with `responseClientMain`. An exchange is atomic: responses are matched to their
requests, so that behind one that throws when its request has been sent nothing is exchanged any
more (`Link.broken`).

The server keeps the messages of the client in order. What the connection has got, what its handler
has selected and what is waiting behind is one sequence of increasing IDs (`PullsInOrder`), whatever
the other connections do, also when they pull in the name of the client. The client keeps this order
if it acts upon batches in the order in which they were read (`Ordered`). When both threads hold a
batch they may do it the other way round (`later_batch_applied_first`), and `InTurn` excludes
exactly this step. `messages_applied_in_order` collects what holds of every run.
-/

set_option autoImplicit false
set_option relaxedAutoImplicit false

namespace MessageU.System

open Library Client

/-! ### Batches at the server -/

/-- The messages that a response delivers. -/
def batch (response : Bytes) : List Server.WaitingMessage :=
  if Server.responseCode response = Server.responseWaitingMessages then Server.recordsIn response
  else []

/-- The messages that a connection has selected for a client and not deleted. -/
def heldAt (me : Bytes) (connection : Server.Connection Server.Staged) :
    List Server.WaitingMessage :=
  (connection.heldFor me).getD []

/-- The messages of the response that a connection has returned. -/
def carriedAt : Server.Connection Server.Staged → List Server.WaitingMessage
  | .returned _ response => batch response
  | .idle | .busy .. | .stopped => []

theorem batch_error : batch Server.errorResponse = [] := by
  rw [batch, Server.responseCode_errorResponse, if_neg (by simp)]

/-- A response with another code delivers nothing. -/
theorem batch_of_code {response : Bytes} {code : ℕ}
    (h : Server.responseCode response = code ∨ response = Server.errorResponse)
    (hcode : code ≠ Server.responseWaitingMessages) : batch response = [] := by
  rcases h with heq | rfl
  · exact if_neg (heq ▸ hcode)
  · exact batch_error

/-- The messages of a response to a pull, or none when they do not fit. -/
theorem batch_caught {messages : List Server.WaitingMessage}
    (hmessages : ∀ message ∈ messages, Server.Encodable message) :
    batch (Server.caught (Server.buildResponse Server.responseWaitingMessages
        (messages.flatMap Server.recordBytes))) = messages ∨
      batch (Server.caught (Server.buildResponse Server.responseWaitingMessages
        (messages.flatMap Server.recordBytes))) = [] := by
  by_cases hsize : (messages.flatMap Server.recordBytes).length < 2 ^ 32
  · left
    rw [Server.caught_buildResponse (by simp) hsize, batch,
      Server.responseCode_responseFrame (by simp), if_pos rfl,
        Server.recordsIn_responseFrame hmessages]
  · right
    rw [Server.caught_buildResponse_of_le (not_lt.mp hsize), batch_error]

section Tables

variable {tables after : Server.Tables} {request : Bytes} {ambient : Server.Ambient}
  {stage : Server.Stage} {row : Option Server.MessageRow} {progress : Server.Progress}

/-- What is waiting after a call was waiting before, or has got a new ID. -/
theorem waiting_of_step (h : Server.StageStep tables request ambient stage after row progress)
    {me : Bytes} {message : Server.WaitingMessage} (hmessage : message ∈ after.waitingFor me) :
    message ∈ tables.waitingFor me ∨ tables.sequence < message.id := by
  cases h with
  | registered hinsert =>
    rw [Server.waitingFor_congr (Server.Tables.insertClient_eq_ok hinsert).2.1] at hmessage
    exact .inl hmessage
  | messagesRemoved messages =>
    rw [Server.waitingFor_deleteMessages_eq] at hmessage
    exact .inl (List.mem_of_mem_filter hmessage)
  | messageStored =>
    rw [Server.ServerState.waitingFor_insertMessage, List.mem_append] at hmessage
    rcases hmessage with hold | hnew
    · exact .inl hold
    · obtain ⟨row, hrow, rfl⟩ := List.mem_map.mp hnew
      rw [List.mem_singleton.mp (List.mem_of_mem_filter hrow)]
      exact .inr (Nat.lt_succ_self _)
  | _ => exact .inl hmessage

/-- The waiting messages of a client have increasing IDs. -/
theorem waitingFor_increasing (tables : Server.Tables) (me : Bytes) :
    (tables.waitingFor me).Pairwise fun first second ↦ first.id < second.id := by
  have hrows : tables.messages.Pairwise fun first second ↦ first.id < second.id :=
    List.pairwise_map.mp tables.messageIds_increasing
  exact List.pairwise_map.mpr (hrows.filter _)

theorem waitingFor_le {me : Bytes} {message : Server.WaitingMessage}
    (hmessage : message ∈ tables.waitingFor me) : message.id ≤ tables.sequence := by
  obtain ⟨row, hrow, rfl⟩ := List.mem_map.mp hmessage
  exact tables.messageIds_le row (List.mem_of_mem_filter hrow)

/-- The messages that a request has been answered with. -/
def batchOf : Server.Progress → List Server.WaitingMessage
  | .answer response => batch response
  | .next _ => []

/-- The dispatcher answers with no messages and selects none. -/
theorem batchOf_routed (request me : Bytes) :
    batchOf (Server.routed request) = [] ∧ (Server.routed request).heldFor me request = none := by
  refine ⟨?_, (Server.ServerState.routed_quiet 0 request me).2⟩
  unfold Server.routed
  split_ifs <;> rfl

/-- A request begins with no messages and selects none. -/
theorem batchOf_start (request me : Bytes) :
    batchOf (Server.start request) = [] ∧ (Server.start request).heldFor me request = none := by
  refine ⟨?_, (Server.ServerState.start_quiet 0 request me).2⟩
  unfold Server.start
  split_ifs <;> rfl

/-- A call delivers and selects nothing, or selects what is waiting, or removes what was selected
and may deliver it. -/
theorem batchOf_step (h : Server.StageStep tables request ambient stage after row progress)
    (hready : stage.Ready tables request) {me : Bytes} (hme : Server.requesterIdOf request = me) :
    (batchOf progress = [] ∧ (progress.heldFor me request = none ∨
        after = tables ∧ progress.heldFor me request = some (tables.waitingFor me))) ∨
      ∃ messages, stage.heldFor me request = some messages ∧ progress.heldFor me request = none ∧
        after = tables.deleteMessages (messages.map Server.WaitingMessage.id) ∧
        (batchOf progress = messages ∨ batchOf progress = []) := by
  cases h with
  | failed stage => exact .inl ⟨batch_error, .inl rfl⟩
  | requesterFound hrequester => exact .inl ⟨rfl, .inl rfl⟩
  | requesterTouched =>
    obtain ⟨hbatch, hheld⟩ := batchOf_routed request me
    exact .inl ⟨hbatch, .inl hheld⟩
  | registered hinsert =>
    refine .inl ⟨batch_of_code (.inl (Server.responseCode_responseFrame ?_ _)) ?_, .inl rfl⟩
    all_goals simp
  | clientsListed =>
    exact .inl ⟨batch_of_code (Server.responseCode_caught_buildResponse (by simp) _) (by simp),
      .inl rfl⟩
  | keyFetched hrow hid =>
    exact .inl ⟨batch_of_code (Server.responseCode_caught_buildResponse (by simp) _) (by simp),
      .inl rfl⟩
  | messagesFetched =>
    subst hme
    unfold Server.selected
    split_ifs
    · exact .inl ⟨rfl, .inr ⟨rfl, if_pos rfl⟩⟩
    · exact .inl ⟨batch_error, .inl rfl⟩
  | messagesRemoved messages =>
    exact .inr ⟨messages, if_pos hme, rfl, rfl, batch_caught hready.2.2⟩
  | targetFound htarget hvalid => exact .inl ⟨rfl, .inl rfl⟩
  | messageStored =>
    exact .inl ⟨batch_of_code (Server.responseCode_sentResponse request _) (by simp), .inl rfl⟩

end Tables

/-! ### A connection among others -/

/-- A connection gets the messages of a client in order: those that were taken before, and while an
exchange is under way (`opened`) those of its response. -/
def PullsInOrder (own : ℕ) (me : Bytes) (taken : List Server.WaitingMessage) (opened : Bool)
    (server : Server.ServerState Server.Staged) : Prop :=
  InOrder Server.WaitingMessage.id
    (taken ++ if opened then carriedAt (server.connections own) else [])
    (heldAt me (server.connections own)) (server.tables.waitingFor me) server.tables.sequence

section Steps

variable {server : Server.ServerState Server.Staged} {own : ℕ} {me : Bytes}
  {taken : List Server.WaitingMessage} {opened : Bool}

/-- What a connection holds and carries after it has settled. -/
theorem settled_at (server : Server.ServerState Server.Staged) (own : ℕ) (me request : Bytes)
    (ambient : Server.Ambient) (progress : Server.Progress) :
    let after := (server.settle own request
      (Server.ServerState.stagedOutcome ambient progress)).connections own
    carriedAt after = batchOf progress ∧
      heldAt me after = (progress.heldFor me request).getD [] := by
  cases progress with
  | answer response =>
    simp [Server.ServerState.settle, Server.ServerState.stagedOutcome, carriedAt, batchOf, heldAt,
      Server.Connection.heldFor, Server.Progress.heldFor]
  | next stage =>
    simp [Server.ServerState.settle, Server.ServerState.stagedOutcome, carriedAt, batchOf, heldAt,
      Server.Connection.heldFor, Server.Progress.heldFor]

/-- A call of the connection itself keeps the order. Assumes: its request is of the client. -/
theorem PullsInOrder.call (h : PullsInOrder own me taken true server) {request : Bytes}
    {ambient : Server.Ambient} {stage : Server.Stage} {after : Server.Tables}
    {row : Option Server.MessageRow} {progress : Server.Progress}
    (hbusy : server.connections own = .busy request (ambient, stage))
    (hready : stage.Ready server.tables request) (hme : Server.requesterIdOf request = me)
    (hstep : Server.StageStep server.tables request ambient stage after row progress) :
    PullsInOrder own me taken true ((server.afterCall after row).settle own request
      (Server.ServerState.stagedOutcome ambient progress)) := by
  obtain ⟨hcarried, hheld⟩ := settled_at
    (server.afterCall after row) own me request ambient progress
  have hbefore : InOrder Server.WaitingMessage.id taken ((stage.heldFor me request).getD [])
      (server.tables.waitingFor me) server.tables.sequence := by
    have horder := h
    rw [PullsInOrder, hbusy, if_pos rfl, carriedAt, List.append_nil] at horder
    exact horder
  rw [PullsInOrder, if_pos rfl, hcarried, hheld, Server.ServerState.settle_tables]
  change InOrder _ _ _ (after.waitingFor me) after.sequence
  rcases batchOf_step hstep hready hme with
    ⟨hbatch, hnone | ⟨rfl, hselected⟩⟩ | ⟨messages, hmessages, hnone, rfl, hbatch⟩
  · rw [hbatch, hnone, List.append_nil]
    exact hbefore.release.others hstep.sequence_le fun _ ↦ waiting_of_step hstep
  · rw [hbatch, hselected, List.append_nil]
    exact hbefore.release.take (waitingFor_increasing _ me) fun _ ↦ waitingFor_le
  · rw [hmessages, Option.getD_some] at hbefore
    rw [hnone]
    rcases hbatch with hdelivered | hlost
    · rw [hdelivered]
      refine hbefore.deliver fun message hmessage ↦ ?_
      rw [Server.waitingFor_deleteMessages_eq, List.mem_filter] at hmessage
      exact ⟨hmessage.1, fun hheld ↦ of_decide_eq_true hmessage.2 (List.mem_map_of_mem hheld)⟩
    · rw [hlost, List.append_nil]
      exact hbefore.release.others le_rfl fun _ ↦ waiting_of_step hstep

/-- An event that is no request of the connection keeps the order. Assumes: when the connection is
running, an exchange is under way and its request is of the client. -/
theorem PullsInOrder.step (h : PullsInOrder own me taken opened server)
    (hsound : Server.ServerState.Sound server) (limit : Option ℕ) (event : Server.Event)
    (hother : ∀ sent ambient, event ≠ .arrive own sent ambient)
    (hrunning : ∀ request, server.running own = some request →
      opened = true ∧ Server.requesterIdOf request = me) :
    PullsInOrder own me taken opened (server.stagedStep limit event) := by
  refine Server.ServerState.stagedStep_cases
    (motive := fun after ↦ PullsInOrder own me taken opened after) limit server event h
    (fun connection request ambient hevent _ ↦ ?_)
    fun connection fault request ambient stage after row progress _ hbusy hstep ↦ ?_
  · have hne : own ≠ connection := fun hsame ↦ hother request ambient (hsame ▸ hevent)
    rw [PullsInOrder, Server.ServerState.settle_connections_of_ne server request _ hne,
      Server.ServerState.settle_tables]
    exact h
  · by_cases hsame : connection = own
    · subst hsame
      obtain ⟨rfl, hme⟩ := hrunning request (Server.ServerState.running_of_busy hbusy)
      exact h.call hbusy (hsound.ready connection request ambient stage hbusy) hme hstep
    · rw [PullsInOrder, Server.ServerState.settle_connections_of_ne _ request _ (Ne.symm hsame),
        Server.ServerState.settle_tables]
      exact InOrder.others h hstep.sequence_le fun _ ↦ waiting_of_step hstep

/-- A request that the connection sends begins with what has been taken. -/
theorem PullsInOrder.send (h : PullsInOrder own me taken false server) (request : Bytes)
    (ambient : Server.Ambient) :
    PullsInOrder own me taken true (server.settle own request
      (Server.ServerState.stagedOutcome ambient (Server.start request))) := by
  obtain ⟨hcarried, hheld⟩ := settled_at server own me request ambient (Server.start request)
  obtain ⟨hbatch, hnone⟩ := batchOf_start request me
  rw [PullsInOrder, if_neg Bool.false_ne_true, List.append_nil] at h
  rw [PullsInOrder, if_pos rfl, hcarried, hheld, hbatch, hnone, List.append_nil,
    Server.ServerState.settle_tables]
  exact h.release

/-- A response that the client reads has been taken. -/
theorem PullsInOrder.receive (h : PullsInOrder own me taken true server) {request response : Bytes}
    (hreturned : server.connections own = .returned request response) :
    PullsInOrder own me (taken ++ batch response) false server := by
  rw [PullsInOrder, if_pos rfl, hreturned] at h
  rw [PullsInOrder, if_neg Bool.false_ne_true, List.append_nil, hreturned]
  exact h

end Steps

/-! ### Responses to pulls at the client -/

/-- A response to a pull: the general error, or messages. -/
def PullReply (response : Bytes) : Prop :=
  response = Server.errorResponse ∨
    ∃ messages : List Server.WaitingMessage, (∀ message ∈ messages, Server.Encodable message) ∧
      response = Server.responseFrame Server.responseWaitingMessages
        (messages.flatMap Server.recordBytes)

/-- The request that both threads pull with. -/
def pullRequest (ctx : ClientContext) : Bytes :=
  createBuffer ctx.clientID requestWaitingMessages []

theorem codeOf_pullRequest (ctx : ClientContext) : Server.codeOf (pullRequest ctx) = 704 := by
  rw [pullRequest, createBuffer_eq]
  exact Server.codeOf_requestFrame ctx.clientID.property (by simp)

theorem requesterIdOf_pullRequest (ctx : ClientContext) :
    Server.requesterIdOf (pullRequest ctx) = ctx.clientID.val := by
  rw [pullRequest, createBuffer_eq]
  exact Server.requesterIdOf_requestFrame ctx.clientID.property

/-- What the server means with the response to a pull. -/
theorem pullReply_of_means {identities : List Identity} {ctx : ClientContext} {response : Bytes}
    (h : Means identities (pullRequest ctx) response) : PullReply response := by
  have hcode := codeOf_pullRequest ctx
  obtain ⟨reply, hintends, hfits, -, rfl⟩ := h
  cases reply with
  | failed => exact .inl rfl
  | waiting messages => exact .inr ⟨messages, hfits, rfl⟩
  | registered id => simp [Intends, hcode] at hintends
  | listed clients => simp [Intends, hcode] at hintends
  | key id publicKey => simp [Intends, hcode] at hintends
  | sent target msgId => simp [Intends, hcode] at hintends

theorem batch_frame {messages : List Server.WaitingMessage}
    (hmessages : ∀ message ∈ messages, Server.Encodable message) :
    batch (Server.responseFrame Server.responseWaitingMessages
      (messages.flatMap Server.recordBytes)) = messages := by
  rw [batch, Server.responseCode_responseFrame (by simp), if_pos rfl,
    Server.recordsIn_responseFrame hmessages]

/-- The messages of a response to a pull can be put into records. -/
theorem PullReply.encodable {response : Bytes} (h : PullReply response) :
    ∀ message ∈ batch response, Server.Encodable message := by
  rcases h with rfl | ⟨messages, hmessages, rfl⟩
  · rw [batch_error]
    exact fun _ hmessage ↦ absurd hmessage List.not_mem_nil
  · rw [batch_frame hmessages]
    exact hmessages

/-- Without a private key that can be loaded the messages are not read. -/
theorem exec_waiting_unloadable (crypto : Crypto) {messages : List Server.WaitingMessage}
    (hmessages : ∀ message ∈ messages, Server.Encodable message) (hsome : messages ≠ [])
    (state : ClientState) (hkey : crypto.loadsPrivateKey state.ctx.privateKey = false) :
    (responseClientMain (Reply.waiting messages).bytes).exec crypto state =
      (state, .error .cryptoError) := by
  have hlength := length_le_flatMap_recordBytes hmessages
  have hpositive : 0 < messages.length := List.length_pos_iff.mpr hsome
  have hlong : ¬(Reply.waiting messages).bytes.length = headerSize := by
    rw [Reply.bytes_length]
    change ¬headerSize + (messages.flatMap Server.recordBytes).length = headerSize
    omega
  have hload : ClientCall.exec crypto state (.loadPrivateKey state.ctx.privateKey) =
      (state, .error .cryptoError) := by
    rw [ClientCall.exec, hkey]
    rfl
  rw [responseClientMain_reply]
  dsimp only
  rw [responseWaitingMessages, if_neg hlong, exec_ask rfl]
  exact exec_ask_error hload _

/-- What a client makes of a response to its pull: it reads the messages, if its key can be
loaded. -/
theorem exec_pullReply (crypto : Crypto) {response : Bytes} (h : PullReply response)
    (state : ClientState) :
    ((responseClientMain response).exec crypto state).1.ctx =
      if crypto.loadsPrivateKey state.ctx.privateKey = true then
        ((batch response).foldl (ClientState.read crypto state.ctx.privateKey) state).ctx
      else state.ctx := by
  rcases h with rfl | ⟨messages, hmessages, rfl⟩
  · have hfailed := responseClientMain_reply Reply.failed
    change responseClientMain Server.errorResponse = _ at hfailed
    rw [hfailed, batch_error, List.foldl_nil, ite_self]
    rfl
  · rw [batch_frame hmessages]
    by_cases hkey : crypto.loadsPrivateKey state.ctx.privateKey = true
    · rw [if_pos hkey, responseClientMain_waiting crypto hmessages state hkey]
      dsimp only
      split_ifs with hempty
      · rw [hempty]
        rfl
      · rfl
    · rw [if_neg hkey]
      rw [Bool.not_eq_true] at hkey
      by_cases hempty : messages = []
      · subst hempty
        have hwaiting := responseClientMain_reply (Reply.waiting [])
        change responseClientMain (Server.responseFrame Server.responseWaitingMessages []) = _
          at hwaiting
        rw [List.flatMap_nil, hwaiting]
        rfl
      · exact congrArg (fun result ↦ result.1.ctx)
          (exec_waiting_unloadable crypto hmessages hempty state hkey)

/-! ### The two threads of a client -/

/-- A client whose two threads pull. A thread that has read a response holds it in its hand until it
has acted upon it. It is assumed, as for every `Link`, that no exchange is made behind one that was
left in the middle. -/
structure Puller where
  client : ClientState
  link : Link
  /-- The responses in the hands of the threads, in the order in which they were read. -/
  hands : List (Thread × Bytes)
  /-- An exception has ended the loop of the main thread. -/
  mainEnded : Bool
  /-- The responses that were read. -/
  received : List Bytes
  /-- The responses that were acted upon. -/
  acted : List Bytes

/-- What can happen. -/
inductive PullEvent
  /-- A thread sends its request. -/
  | send (thread : Thread) (ambient : Server.Ambient)
  /-- A thread reads its response. -/
  | receive (thread : Thread)
  /-- A thread acts upon its response. -/
  | process (thread : Thread)
  /-- An exchange of a thread throws. If its request has been sent, no exchange is made any more, as
  is assumed. -/
  | fail (thread : Thread)
  /-- Something happens at the server. -/
  | serve (event : Server.Event)

namespace Puller

/-- A client that has just connected. -/
def start (client : ClientState) : Puller where
  client := client
  link := .fresh
  hands := []
  mainEnded := false
  received := []
  acted := []

/-- A thread can begin a pull. The pull thread waits for a client ID. -/
def CanSend (state : Puller) (thread : Thread) : Prop :=
  thread ∉ state.hands.map Prod.fst ∧
    match thread with
    | .main => state.mainEnded = false
    | .pull => state.client.ctx.hasClientID = true

instance (state : Puller) : (thread : Thread) → Decidable (state.CanSend thread)
  | .main => inferInstanceAs (Decidable (_ ∧ _ = _))
  | .pull => inferInstanceAs (Decidable (_ ∧ _ = _))

/-- The response in the hand of a thread. -/
def inHand (state : Puller) (thread : Thread) : Option Bytes :=
  (state.hands.find? fun hand ↦ hand.1 = thread).map Prod.snd

/-- A thread acts upon a response. -/
def act (crypto : Crypto) (state : Puller) (thread : Thread) (response : Bytes) : Puller :=
  let result := (responseClientMain response).exec crypto state.client
  { state with
    client := result.1
    hands := state.hands.filter fun hand ↦ hand.1 ≠ thread
    mainEnded := state.mainEnded || (thread = .main && result.2 matches .error _)
    acted := state.acted ++ [response] }

/-- One event. -/
def step (limit : Option ℕ) (own : ℕ) (crypto : Crypto) (state : Puller) : PullEvent → Puller
  | .send thread ambient =>
    if state.CanSend thread then
      { state with link := state.link.send limit own thread (pullRequest state.client.ctx) ambient }
    else state
  | .receive thread =>
    match state.link.response own thread with
    | none => state
    | some response =>
      { state with
        link := state.link.release
        hands := state.hands ++ [(thread, response)]
        received := state.received ++ [response] }
  | .process thread =>
    match state.inHand thread with
    | none => state
    | some response => state.act crypto thread response
  | .fail thread =>
    { state with
      link := state.link.broken thread
      mainEnded := state.mainEnded || thread = .main }
  | .serve event => { state with link := state.link.serve limit own event }

/-- A thread does not act upon messages while the other one holds messages that were read before. -/
def InTurn (state : Puller) : PullEvent → Prop
  | .process thread => ∀ response, state.inHand thread = some response → batch response ≠ [] →
    ∀ hand ∈ state.hands.takeWhile fun hand ↦ hand.1 ≠ thread, batch hand.2 = []
  | .send .. | .receive _ | .fail _ | .serve _ => True

instance (state : Puller) : DecidablePred state.InTurn
  | .process thread => inferInstanceAs (Decidable (∀ response ∈ state.inHand thread,
      batch response ≠ [] → ∀ hand ∈ state.hands.takeWhile fun hand ↦ hand.1 ≠ thread,
        batch hand.2 = []))
  | .send .. | .receive _ | .fail _ | .serve _ => isTrue trivial

/-- The messages that were read. -/
def delivered (state : Puller) : List Server.WaitingMessage :=
  state.received.flatMap batch

/-- The messages that were acted upon. -/
def applied (state : Puller) : List Server.WaitingMessage :=
  state.acted.flatMap batch

/-- The key that a message brings to the client from a sender, if its private key can be loaded. -/
def keyIn (crypto : Crypto) (client : ClientState) (sender : ClientId)
    (message : Server.WaitingMessage) : Option (FixedBytes symmetricKeySize) :=
  if crypto.loadsPrivateKey client.ctx.privateKey = true then
    keyFrom crypto client.ctx.privateKey sender message
  else none

/-- What holds at every moment of a run. -/
structure Sound (own : ℕ) (crypto : Crypto) (client : ClientState) (state : Puller) : Prop where
  /-- The connection gets the messages of the client in order. -/
  link : ∃ staged, state.link.Sound own staged ∧
    PullsInOrder own client.ctx.clientID.val state.delivered state.link.asking.isSome staged
  /-- Its request is a pull. -/
  asking : state.link.asking ≠ none → state.link.request own = some (pullRequest client.ctx)
  clientID : state.client.ctx.clientID = client.ctx.clientID
  privateKey : state.client.ctx.privateKey = client.ctx.privateKey
  /-- What is in the hands are responses to pulls. -/
  hands : ∀ hand ∈ state.hands, PullReply hand.2
  /-- A thread holds one response, and none while its exchange is under way. -/
  distinct : (state.hands.map Prod.fst).Nodup ∧
    ∀ thread, state.link.asking = some thread → thread ∉ state.hands.map Prod.fst
  /-- The key of a sender is the last one that was acted upon. -/
  keys : ∀ sender, state.client.ctx.symmetricKeyFor sender =
    (state.applied.filterMap (keyIn crypto client sender)).getLast?.or
      (client.ctx.symmetricKeyFor sender)

/-- What is applied and what is in the hands is what was delivered. -/
def Ordered (state : Puller) : Prop :=
  state.applied ++ (state.hands.map Prod.snd).flatMap batch = state.delivered

section Steps

variable {limit : Option ℕ} {own : ℕ} {crypto : Crypto} {client : ClientState} {state : Puller}

theorem sound_start (own : ℕ) (crypto : Crypto) (client : ClientState) :
    Sound own crypto client (.start client) where
  link := ⟨.initial _, Link.sound_fresh own, InOrder.nil _ _⟩
  asking := fun h ↦ absurd rfl h
  clientID := rfl
  privateKey := rfl
  hands := fun _ h ↦ absurd h List.not_mem_nil
  distinct := ⟨List.nodup_nil, nofun⟩
  keys := fun _ ↦ rfl

/-- A pull of the client is the one it began with. -/
theorem Sound.pullRequest (h : Sound own crypto client state) :
    pullRequest state.client.ctx = pullRequest client.ctx := by
  rw [System.pullRequest, System.pullRequest, h.clientID]

theorem Sound.send (h : Sound own crypto client state) (limit : Option ℕ) {thread : Thread}
    (hcan : state.CanSend thread) (ambient : Server.Ambient) :
    Sound own crypto client { state with
      link := state.link.send limit own thread (System.pullRequest state.client.ctx) ambient } := by
  obtain ⟨staged, hlink, horder⟩ := h.link
  rcases hlink.send limit thread (System.pullRequest state.client.ctx) ambient with
    hsame | ⟨hasking, -, hnow, -, htaken, hsound⟩
  · rw [hsame]
    exact h
  · rw [hasking] at horder
    refine ⟨⟨_, hsound, ?_⟩, fun _ ↦ ?_, h.clientID, h.privateKey, h.hands, ⟨h.distinct.1, ?_⟩,
      h.keys⟩
    · rw [hnow, htaken]
      exact horder.send _ ambient
    · rw [hsound.request, htaken, requestAt_settle, h.pullRequest]
    · rintro other hother
      rw [hnow] at hother
      exact Option.some.inj hother ▸ hcan.1

theorem Sound.receive (h : Sound own crypto client state) {thread : Thread} {response : Bytes}
    (hresponse : state.link.response own thread = some response) :
    Sound own crypto client { state with
      link := state.link.release
      hands := state.hands ++ [(thread, response)]
      received := state.received ++ [response] } := by
  obtain ⟨staged, hlink, horder⟩ := h.link
  obtain ⟨hasking, -, request, hreturned⟩ := hlink.returned hresponse
  have hreply : PullReply response :=
    pullReply_of_means (hlink.means hresponse (h.asking (by rw [hasking]; nofun)))
  rw [hasking] at horder
  refine ⟨⟨staged, hlink.release hresponse, ?_⟩, fun hnone ↦ absurd rfl hnone, h.clientID,
    h.privateKey, fun hand hhand ↦ ?_, ⟨?_, nofun⟩, h.keys⟩
  · have htaken := PullsInOrder.receive horder hreturned
    rwa [Puller.delivered, List.flatMap_append, List.flatMap_singleton]
  · rcases List.mem_append.mp hhand with hold | hnew
    · exact h.hands hand hold
    · rw [List.mem_singleton.mp hnew]
      exact hreply
  · rw [List.map_append, List.map_singleton]
    refine List.nodup_append.mpr ⟨h.distinct.1, List.nodup_singleton _, ?_⟩
    rintro first hfirst second hsecond rfl
    rw [List.mem_singleton.mp hsecond] at hfirst
    exact h.distinct.2 thread hasking hfirst

/-- A response that is in a hand is one of the hands. -/
theorem mem_of_inHand {thread : Thread} {response : Bytes}
    (h : state.inHand thread = some response) : (thread, response) ∈ state.hands := by
  obtain ⟨hand, hfind, rfl⟩ := Option.map_eq_some_iff.mp h
  have hthread : hand.1 = thread := of_decide_eq_true (List.find?_some hfind :)
  rw [← hthread]
  exact List.mem_of_find?_eq_some hfind

/-- Messages that are acted upon bring their keys behind the keys of before. -/
theorem Sound.act (h : Sound own crypto client state) {thread : Thread} {response : Bytes}
    (hhand : state.inHand thread = some response) :
    Sound own crypto client (state.act crypto thread response) := by
  have hreply := h.hands _ (mem_of_inHand hhand)
  have hctx := exec_pullReply crypto hreply state.client
  rw [h.privateKey] at hctx
  obtain ⟨hid, -, hkey⟩ := foldl_read_identity crypto client.ctx.privateKey
    (batch response) state.client
  refine ⟨h.link, h.asking, ?_, ?_, fun hand hmem ↦ h.hands hand (List.mem_of_mem_filter hmem),
    ⟨?_, fun other hasking hmem ↦ ?_⟩, fun sender ↦ ?_⟩
  · change ((responseClientMain response).exec crypto state.client).1.ctx.clientID = _
    rw [hctx]
    split_ifs
    · exact hid.trans h.clientID
    · exact h.clientID
  · change ((responseClientMain response).exec crypto state.client).1.ctx.privateKey = _
    rw [hctx]
    split_ifs
    · exact hkey.trans h.privateKey
    · exact h.privateKey
  · exact h.distinct.1.sublist (List.filter_sublist.map _)
  · exact h.distinct.2 other hasking ((List.filter_sublist.map _).subset hmem)
  · have happlied : (state.act crypto thread response).applied =
        state.applied ++ batch response := by
      rw [applied, Puller.act, List.flatMap_append, List.flatMap_singleton]
      rfl
    change ((responseClientMain response).exec crypto state.client).1.ctx.symmetricKeyFor sender = _
    rw [hctx, happlied, List.filterMap_append, List.getLast?_append, Option.or_assoc,
      ← h.keys sender]
    by_cases hloads : crypto.loadsPrivateKey client.ctx.privateKey = true
    · have hkeyIn : keyIn crypto client sender = keyFrom crypto client.ctx.privateKey sender :=
        funext fun _ ↦ if_pos hloads
      rw [if_pos hloads, hkeyIn, symmetricKeyFor_foldl crypto _ hreply.encodable]
    · have hkeyIn : (batch response).filterMap (keyIn crypto client sender) = [] :=
        List.filterMap_eq_nil_iff.mpr fun _ _ ↦ if_neg hloads
      rw [if_neg hloads, hkeyIn]
      rfl

theorem Sound.serve (h : Sound own crypto client state) (limit : Option ℕ) (event : Server.Event) :
    Sound own crypto client { state with link := state.link.serve limit own event } := by
  obtain ⟨staged, hlink, horder⟩ := h.link
  rcases hlink.serve limit event with hsame | ⟨hother, hasking, -, hsound⟩
  · rw [hsame]
    exact h
  · have hrunning : ∀ request, staged.running own = some request →
        state.link.asking.isSome = true ∧
          Server.requesterIdOf request = client.ctx.clientID.val := by
      intro request hrequest
      have hsome : state.link.asking ≠ none := fun hnone ↦ by
        rw [hlink.free hnone] at hrequest
        cases hrequest
      have hpull := h.asking hsome
      rw [hlink.request] at hpull
      simp only [Server.ServerState.running] at hrequest
      cases hconnection : staged.connections own with
      | busy sent rest =>
        rw [hconnection] at hrequest hpull
        cases hrequest
        cases hpull
        exact ⟨Option.isSome_iff_ne_none.mpr hsome, requesterIdOf_pullRequest client.ctx⟩
      | idle => simp [hconnection] at hrequest
      | returned sent response => simp [hconnection] at hrequest
      | stopped => simp [hconnection] at hrequest
    refine ⟨⟨_, hsound, ?_⟩, fun hnow ↦ ?_, h.clientID, h.privateKey, h.hands,
      ⟨h.distinct.1, fun thread hthread ↦ h.distinct.2 thread (hasking ▸ hthread)⟩, h.keys⟩
    · rw [hasking]
      exact horder.step hlink.answers.sound limit event hother hrunning
    · rw [hasking] at hnow
      rw [hsound.request, requestAt_stagedStep limit event hother, ← hlink.request]
      exact h.asking hnow

theorem Sound.step (h : Sound own crypto client state) (limit : Option ℕ) (event : PullEvent) :
    Sound own crypto client (state.step limit own crypto event) := by
  cases event with
  | send thread ambient =>
    rw [Puller.step]
    split_ifs with hcan
    · exact h.send limit hcan ambient
    · exact h
  | receive thread =>
    rw [Puller.step]
    cases hresponse : state.link.response own thread with
    | none => exact h
    | some response => exact h.receive hresponse
  | process thread =>
    rw [Puller.step]
    cases hhand : state.inHand thread with
    | none => exact h
    | some response => exact h.act hhand
  | fail thread =>
    obtain ⟨staged, hlink, horder⟩ := h.link
    have hbroken : (state.link.broken thread).asking = state.link.asking ∧
        (state.link.broken thread).request own = state.link.request own := by
      rw [Link.broken]
      split_ifs <;> exact ⟨rfl, rfl⟩
    refine ⟨⟨staged, hlink.broken thread, hbroken.1 ▸ horder⟩, fun hasking ↦ ?_, h.clientID,
      h.privateKey, h.hands,
      ⟨h.distinct.1, fun other hother ↦ h.distinct.2 other (hbroken.1 ▸ hother)⟩, h.keys⟩
    exact hbroken.2.trans (h.asking (hbroken.1 ▸ hasking))
  | serve event => exact h.serve limit event

/-- A response in the hand of a thread, with what was read before it and behind it. -/
theorem hands_of_inHand (hdistinct : (state.hands.map Prod.fst).Nodup) {thread : Thread}
    {response : Bytes} (h : state.inHand thread = some response) :
    ∃ before behind, state.hands = before ++ (thread, response) :: behind ∧
      (state.hands.takeWhile fun hand ↦ hand.1 ≠ thread) = before ∧
      (state.hands.filter fun hand ↦ hand.1 ≠ thread) = before ++ behind := by
  obtain ⟨hand, hfind, rfl⟩ := Option.map_eq_some_iff.mp h
  obtain ⟨hthread, before, behind, hhands, hbefore⟩ := List.find?_eq_some_iff_append.mp hfind
  obtain rfl : hand.1 = thread := of_decide_eq_true hthread
  have hkept : ∀ other ∈ before, decide (other.1 ≠ hand.1) = true := fun other hother ↦ by
    simpa using hbefore other hother
  have hbehind : ∀ other ∈ behind, decide (other.1 ≠ hand.1) = true := fun other hother ↦ by
    rw [hhands, List.map_append, List.map_cons] at hdistinct
    have hnot := (List.nodup_cons.mp (List.nodup_append.mp hdistinct).2.1).1
    exact decide_eq_true fun hsame ↦ hnot (hsame ▸ List.mem_map_of_mem hother)
  refine ⟨before, behind, hhands, ?_, ?_⟩
  · rw [hhands, List.takeWhile_append_of_pos hkept, List.takeWhile_cons_of_neg (by simp),
      List.append_nil]
  · rw [hhands, List.filter_append, List.filter_cons_of_neg (by simp),
      List.filter_eq_self.mpr hkept,
      List.filter_eq_self.mpr hbehind]

/-- Responses that are acted upon in turn are acted upon in order. -/
theorem Ordered.step (h : state.Ordered) (hdistinct : (state.hands.map Prod.fst).Nodup)
    {event : PullEvent} (hturn : state.InTurn event) :
    (state.step limit own crypto event).Ordered := by
  cases event with
  | send thread ambient =>
    rw [Puller.step]
    split_ifs
    · exact h
    · exact h
  | receive thread =>
    rw [Puller.step]
    cases state.link.response own thread with
    | none => exact h
    | some response =>
      have hbefore : state.applied ++ (state.hands.map Prod.snd).flatMap batch = state.delivered :=
        h
      rw [Ordered, delivered]
      simp only [List.map_append, List.flatMap_append, List.map_singleton, List.flatMap_singleton]
      rw [← List.append_assoc]
      exact congrArg (· ++ batch response) hbefore
  | process thread =>
    rw [Puller.step]
    cases hhand : state.inHand thread with
    | none => exact h
    | some response =>
      obtain ⟨before, behind, hhands, hfront, hrest⟩ := hands_of_inHand hdistinct hhand
      have hbefore : state.applied ++ (state.hands.map Prod.snd).flatMap batch = state.delivered :=
        h
      have hswap : batch response ++ (before.map Prod.snd).flatMap batch =
          (before.map Prod.snd).flatMap batch ++ batch response := by
        by_cases hempty : batch response = []
        · rw [hempty, List.nil_append, List.append_nil]
        · have hnone := hturn response hhand hempty
          rw [hfront] at hnone
          have hfirst : (before.map Prod.snd).flatMap batch = [] := by
            rw [List.flatMap_eq_nil_iff]
            rintro held hheld
            obtain ⟨hand, hmem, rfl⟩ := List.mem_map.mp hheld
            exact hnone hand hmem
          rw [hfirst, List.nil_append, List.append_nil]
      change (state.acted ++ [response]).flatMap batch ++
        ((state.hands.filter fun hand ↦ hand.1 ≠ thread).map Prod.snd).flatMap batch =
          state.delivered
      rw [← hbefore, hrest, hhands]
      simp only [List.map_append, List.map_cons, List.flatMap_append, List.flatMap_cons,
        List.flatMap_nil, List.append_nil, List.append_assoc, Puller.applied]
      rw [← List.append_assoc (batch response), hswap, List.append_assoc]
  | fail thread => exact h
  | serve event => exact h

end Steps

/-! ### Runs of the two threads -/

section Runs

variable (limit : Option ℕ) (own : ℕ) (crypto : Crypto) (client : ClientState)

theorem sound_run (events : List PullEvent) :
    Sound own crypto client (runEvents (step limit own crypto) (.start client) events) :=
  runEvents_invariant (fun _ event h ↦ h.step limit event) (sound_start own crypto client) events

/-- The messages that a connection has got have increasing IDs. -/
theorem delivered_increasing {state : Puller} (h : Sound own crypto client state) :
    state.delivered.Pairwise fun first second ↦ first.id < second.id := by
  obtain ⟨staged, -, horder⟩ := h.link
  have hall := InOrder.increasing horder
  rw [List.append_assoc] at hall
  exact (List.pairwise_append.mp hall).1

end Runs

/-- In a list with increasing IDs the last key is the one with the highest ID. -/
theorem getLast?_filterMap {messages : List Server.WaitingMessage}
    {keyOf : Server.WaitingMessage → Option (FixedBytes symmetricKeySize)}
    (hincreasing : messages.Pairwise fun first second ↦ first.id < second.id)
    {message : Server.WaitingMessage} (hmessage : message ∈ messages)
    {key : FixedBytes symmetricKeySize} (hkey : keyOf message = some key)
    (hhighest : ∀ other ∈ messages, (keyOf other).isSome → other.id ≤ message.id) :
    (messages.filterMap keyOf).getLast? = some key := by
  obtain ⟨before, behind, rfl⟩ := List.append_of_mem hmessage
  have hbehind : behind.filterMap keyOf = [] := by
    refine List.filterMap_eq_nil_iff.mpr fun other hother ↦ ?_
    by_contra hsome
    have hlater := (List.pairwise_cons.mp (List.pairwise_append.mp hincreasing).2.1).1 other hother
    have hle := hhighest other (List.mem_append_right _ (List.mem_cons_of_mem _ hother))
      (Option.isSome_iff_ne_none.mpr hsome)
    exact absurd hlater (not_lt.mpr hle)
  rw [List.filterMap_append, List.filterMap_cons, hkey]
  simp [hbehind]

/-- Incoming messages in order. In every run of the two threads a client gets its messages with
increasing IDs. If no thread acts upon messages while the other one holds messages that were read
before, the client acts upon them in this order, and when nothing is in the hands the key of a
sender is the one of the message with the highest ID that brings one. -/
theorem messages_applied_in_order (limit : Option ℕ) (own : ℕ) (crypto : Crypto)
    (client : ClientState) (events : List PullEvent) :
    let state := runEvents (step limit own crypto) (.start client) events
    (state.delivered.map Server.WaitingMessage.id).Pairwise (· < ·) ∧
      (Along (step limit own crypto) InTurn (.start client) events →
        (state.applied.map Server.WaitingMessage.id).Pairwise (· < ·) ∧
          (state.hands = [] → ∀ sender,
            (∀ message ∈ state.delivered, ∀ key, keyIn crypto client sender message = some key →
              (∀ other ∈ state.delivered, (keyIn crypto client sender other).isSome →
                other.id ≤ message.id) →
              state.client.ctx.symmetricKeyFor sender = some key) ∧
            ((∀ message ∈ state.delivered, keyIn crypto client sender message = none) →
              state.client.ctx.symmetricKeyFor sender = client.ctx.symmetricKeyFor sender))) := by
  intro state
  have hsound : Sound own crypto client state := sound_run limit own crypto client events
  have hincreasing := delivered_increasing own crypto client hsound
  refine ⟨List.pairwise_map.mpr hincreasing, fun hturn ↦ ?_⟩
  have hordered : state.Ordered := by
    have hboth : Sound own crypto client state ∧ state.Ordered := by
      refine hturn.invariant (P := fun state ↦ Sound own crypto client state ∧ state.Ordered)
        (fun before event hguard h ↦ ?_) ⟨sound_start own crypto client, rfl⟩
      exact ⟨h.1.step limit event, h.2.step h.1.distinct.1 hguard⟩
    exact hboth.2
  have hprefix : state.applied <+: state.delivered := ⟨_, hordered⟩
  refine ⟨List.pairwise_map.mpr (hincreasing.sublist hprefix.sublist), fun hempty sender ↦ ?_⟩
  have happlied : state.applied = state.delivered := by
    have hall := hordered
    rw [Ordered, hempty, List.map_nil, List.flatMap_nil, List.append_nil] at hall
    exact hall
  have hkeys := hsound.keys sender
  rw [happlied] at hkeys
  refine ⟨fun message hmessage key hkey hhighest ↦ ?_, fun hnone ↦ ?_⟩
  · rw [hkeys, getLast?_filterMap hincreasing hmessage hkey hhighest, Option.some_or]
  · rw [hkeys, List.filterMap_eq_nil_iff.mpr hnone, List.getLast?_nil, Option.none_or]

/-! ### Two batches in hand -/

/-- A client with a private key. -/
def recipient : ClientState where
  ctx :=
    { ClientContext.empty with
      clientID := .numbered 1
      privateKey := List.replicate publicKeySize 0 }
  console := []
  output := []
  entropy := ⟨.zero symmetricKeySize, 0⟩
  disk := ⟨.ok true, true, none⟩

/-- A client that sends it keys. -/
def writer : ClientId :=
  .numbered 2

/-- A client registers on a connection. -/
def registering (connection : ℕ) (id : ClientId) (name : Bytes) : List PullEvent :=
  (Server.session connection (Server.requestFrame id.val requestRegister
    (Server.registrationPayload name (List.replicate publicKeySize 0))) (drawing id)).map .serve

/-- The sixteen bytes of a key. -/
def keyOf (byte : UInt8) : FixedBytes symmetricKeySize :=
  ⟨List.replicate symmetricKeySize byte, List.length_replicate⟩

/-- The content of a message that brings a key. -/
def keyContent (byte : UInt8) : Bytes :=
  List.replicate publicKeySize 0 ++ (keyOf byte).val

/-- The other client sends a key. -/
def sendingKeyOf (byte : UInt8) : List PullEvent :=
  (Server.session 2 (Server.requestFrame writer.val requestAllMessages
    (Server.messagePayload recipient.ctx.clientID.val sendSymmetricKey (keyContent byte)))
    (drawing writer)).map .serve

/-- A thread pulls. -/
def pulling (thread : Thread) : List PullEvent :=
  .send thread (drawing writer) :: List.replicate 4 (.serve (.call 0 false)) ++ [.receive thread]

/-- The pull thread reads the first key and the main thread the second one, and the main thread acts
first. -/
def inverted : List PullEvent :=
  registering 1 recipient.ctx.clientID [65] ++ registering 2 writer [66] ++
    sendingKeyOf 7 ++ pulling .pull ++ sendingKeyOf 8 ++ pulling .main ++
    [.process .main, .process .pull]

/-- The second batch is acted upon first, and the first key replaces the second one. -/
theorem later_batch_applied_first :
    let state := runEvents (step none 0 .tagged) (.start recipient) inverted
    state.hands = [] ∧ ¬(state.applied.map Server.WaitingMessage.id).Pairwise (· < ·) ∧
      ∃ message ∈ state.delivered, keyIn .tagged recipient writer message = some (keyOf 8) ∧
        (∀ other ∈ state.delivered, other.id ≤ message.id) ∧
        state.client.ctx.symmetricKeyFor writer = some (keyOf 7) ∧ keyOf 7 ≠ keyOf 8 := by
  decide +kernel

/-- The same, but the pull thread acts first. -/
def pullFirst : List PullEvent :=
  registering 1 recipient.ctx.clientID [65] ++ registering 2 writer [66] ++
    sendingKeyOf 7 ++ pulling .pull ++ sendingKeyOf 8 ++ pulling .main ++
    [.process .pull, .process .main]

/-- The batches are acted upon in turn, and the second key stays. -/
theorem messages_applied_in_order_pullFirst :
    let state := runEvents (step none 0 .tagged) (.start recipient) pullFirst
    (state.applied.map Server.WaitingMessage.id).Pairwise (· < ·) ∧
      state.client.ctx.symmetricKeyFor writer = some (keyOf 8) := by
  have hturn : Along (step none 0 .tagged) InTurn (.start recipient) pullFirst := by decide +kernel
  have hhands : (runEvents (step none 0 .tagged) (.start recipient) pullFirst).hands = [] := by
    decide +kernel
  have hhighest : ∃ message ∈
      (runEvents (step none 0 .tagged) (.start recipient) pullFirst).delivered,
      keyIn .tagged recipient writer message = some (keyOf 8) ∧
        ∀ other ∈ (runEvents (step none 0 .tagged) (.start recipient) pullFirst).delivered,
          (keyIn .tagged recipient writer other).isSome → other.id ≤ message.id := by
    decide +kernel
  have happlied := (messages_applied_in_order none 0 .tagged recipient pullFirst).2 hturn
  generalize runEvents (step none 0 .tagged) (.start recipient) pullFirst = state
    at hhands hhighest happlied ⊢
  obtain ⟨message, hmessage, hkey, hhighest⟩ := hhighest
  exact ⟨happlied.1, (happlied.2 hhands writer).1 message hmessage _ hkey hhighest⟩

end Puller

end MessageU.System
