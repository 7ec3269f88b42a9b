import MessageU.System.Pair

/-!
# What holds of two clients at a server

`World.Sound` is what holds at every moment of two registered clients, of which nobody else uses the
IDs. The server keeps for each of them an `Inbox`; while a client asks, its connection is at its
request; and a client keeps its identity and caches no other public key for the other one than the
registered one (`Pair.Owns`). A response changes the symmetric keys of a client by the messages that
it carries and in no other way (`Pair.Owns.respond`).

`World.step_cases` lists what an event can do to two such clients.
-/

set_option autoImplicit false
set_option relaxedAutoImplicit false

namespace MessageU.System

open Library Client

/-! ### The context of a party -/

/-- A context of a client: it has the identity of the client, and no public key for the other one
but the one that belongs to its private key. -/
structure Pair.Owns (pair : Pair) (crypto : Crypto) (side : Side) (ctx : ClientContext) : Prop where
  clientID : ctx.clientID = pair.id side
  registered : ctx.hasClientID = true
  privateKey : ctx.privateKey = pair.privateKey side
  publicKey : ∀ key, ctx.publicKeyFor (pair.id side.other) = some key →
    key = crypto.publicKeyOf (pair.privateKey side.other)

/-- The identities of the two clients are registered. -/
def Pair.Registered (pair : Pair) (crypto : Crypto) (identities : List Identity) : Prop :=
  ∀ side, ∃ name,
    ((pair.id side).val, name, (crypto.publicKeyOf (pair.privateKey side)).val) ∈ identities

/-- The server holds one public key for an ID. -/
theorem publicKey_unique (tables : Server.Tables)
    {id firstName firstKey secondName secondKey : Bytes}
    (hfirst : (id, firstName, firstKey) ∈ tables.identities)
    (hsecond : (id, secondName, secondKey) ∈ tables.identities) : firstKey = secondKey := by
  obtain ⟨first, hfirstMem, hfirstEq⟩ := List.mem_map.mp hfirst
  obtain ⟨second, hsecondMem, hsecondEq⟩ := List.mem_map.mp hsecond
  have hid : first.id = second.id :=
    (Prod.mk.inj hfirstEq).1.trans (Prod.mk.inj hsecondEq).1.symm
  have hsame := List.inj_on_of_nodup_map tables.clientIds_nodup hfirstMem hsecondMem hid
  subst hsame
  exact (Prod.mk.inj (Prod.mk.inj (hfirstEq.symm.trans hsecondEq)).2).2

section Context

variable {pair : Pair} {crypto : Crypto} {side : Side} {before after : ClientContext}

/-- A context with the same identity and the same public keys. -/
theorem Pair.Owns.congr (h : pair.Owns crypto side before) (hid : after.clientID = before.clientID)
    (hkey : after.privateKey = before.privateKey)
    (hpublic : ∀ id, after.publicKeyFor id = before.publicKeyFor id) :
    pair.Owns crypto side after where
  clientID := hid.trans h.clientID
  registered := by
    rw [ClientContext.hasClientID, hid]
    exact h.registered
  privateKey := hkey.trans h.privateKey
  publicKey := fun key hfound ↦ h.publicKey key ((hpublic _).symm.trans hfound)

/-- An action keeps the context of a client. -/
theorem Pair.Owns.act {client : ClientState} (h : pair.Owns crypto side client.ctx) {choice : ℕ}
    {outcome : Except CppError Bytes} (hacted : Acted crypto client choice after outcome) :
    pair.Owns crypto side after := by
  cases hacted with
  | registering name rest _ hunregistered =>
    rw [h.registered] at hunregistered
    cases hunregistered
  | sendingKey target =>
    exact h.congr rfl rfl fun _ ↦ client.ctx.publicKeyFor_setFriendSymmetricKey ..
  | dropped target => exact h.congr rfl rfl fun _ ↦ client.ctx.publicKeyFor_setFriendSymmetricKey ..
  | failing target => exact h.congr rfl rfl fun _ ↦ client.ctx.publicKeyFor_setFriendSymmetricKey ..
  | _ => exact h

/-- A request of a client has its ID and is no registration. -/
theorem Pair.Owns.request {client : ClientState} (h : pair.Owns crypto side client.ctx) {choice : ℕ}
    {data : Bytes} (hacted : Acted crypto client choice after (.ok data)) (hnonempty : data ≠ []) :
    Server.requesterIdOf data = (pair.id side).val ∧ Server.codeOf data ≠ 700 := by
  have hframe : ∀ code payload, code < 2 ^ 16 → code ≠ 700 →
      Server.requesterIdOf (Server.requestFrame client.ctx.clientID.val code payload) =
        (pair.id side).val ∧
        Server.codeOf (Server.requestFrame client.ctx.clientID.val code payload) ≠ 700 := by
    intro code payload hcode hother
    rw [Server.requesterIdOf_requestFrame client.ctx.clientID.property,
      Server.codeOf_requestFrame client.ctx.clientID.property hcode, h.clientID]
    exact ⟨rfl, hother⟩
  generalize houtcome : (Except.ok data : Except CppError Bytes) = outcome at hacted
  cases hacted with
  | cancelled => cases houtcome; exact absurd rfl hnonempty
  | dropped => cases houtcome; exact absurd rfl hnonempty
  | endless => cases houtcome
  | failing => cases houtcome
  | registering name rest _ hunregistered =>
    rw [h.registered] at hunregistered
    cases hunregistered
  | asking code hchoice =>
    cases houtcome
    simp only [List.mem_cons, Prod.mk.injEq, List.not_mem_nil, or_false] at hchoice
    rcases hchoice with ⟨-, rfl⟩ | ⟨-, rfl⟩
    · exact hframe _ _ (by simp) (by simp)
    · exact hframe _ _ (by simp) (by simp)
  | askingKey => cases houtcome; exact hframe _ _ (by simp) (by simp)
  | requestingKey => cases houtcome; exact hframe _ _ (by simp) (by simp)
  | sendingText => cases houtcome; exact hframe _ _ (by simp) (by simp)
  | sendingKey => cases houtcome; exact hframe _ _ (by simp) (by simp)

end Context

/-! ### Responses at a party -/

section Response

variable {pair : Pair} {crypto : Crypto} {side : Side} {state : ClientState}
  {identities : List Identity} {data response : Bytes}

/-- Setting the base of entries leaves every key. -/
theorem keys_foldl_setFriendBase (entries : List ListEntry) (ctx : ClientContext) (id : ClientId) :
    let after := entries.foldl (fun ctx entry ↦ ctx.setFriendBase entry.1 entry.name) ctx
    after.clientID = ctx.clientID ∧ after.privateKey = ctx.privateKey ∧
      after.publicKeyFor id = ctx.publicKeyFor id ∧
        after.symmetricKeyFor id = ctx.symmetricKeyFor id := by
  induction entries generalizing ctx with
  | nil => exact ⟨rfl, rfl, rfl, rfl⟩
  | cons entry rest ih =>
    obtain ⟨hid, hprivate, hpublic, hsymmetric⟩ := ih (ctx.setFriendBase entry.1 entry.name)
    exact ⟨hid, hprivate, hpublic.trans (ctx.publicKeyFor_setFriendBase ..),
      hsymmetric.trans (ctx.symmetricKeyFor_setFriendBase ..)⟩

/-- Ensuring an entry leaves every public key. -/
theorem publicKeyFor_ensured (ctx : ClientContext) (id other : ClientId) :
    (ctx.ensured id).publicKeyFor other = ctx.publicKeyFor other := by
  unfold ClientContext.ensured
  split_ifs
  · exact ctx.publicKeyFor_setFriendBase ..
  · rfl

/-- Messages leave every public key. -/
theorem publicKeyFor_foldl_read (crypto : Crypto) (privateKey : Bytes)
    {messages : List Server.WaitingMessage}
    (hmessages : ∀ message ∈ messages, Server.Encodable message) (state : ClientState)
    (id : ClientId) :
    (messages.foldl (ClientState.read crypto privateKey) state).ctx.publicKeyFor id =
      state.ctx.publicKeyFor id := by
  rw [ClientContext.publicKeyFor, tryGetFriendCopy_foldl crypto privateKey hmessages,
    ClientContext.publicKeyFor]
  cases lastKey crypto privateKey id messages with
  | none => rfl
  | some key => cases state.ctx.tryGetFriendCopy id <;> rfl

/-- A reply with another code carries no messages. -/
theorem batch_reply {reply : Reply} (h : reply.code ≠ Server.responseWaitingMessages) :
    batch reply.bytes = [] :=
  batch_of_code (.inl (Server.responseCode_responseFrame reply.code_lt _)) h

variable (crypto) in
/-- A response that carries messages is read message by message. -/
theorem batchEffect_response {messages : List Server.WaitingMessage}
    (hmessages : ∀ message ∈ messages, Server.Encodable message)
    (hloads : crypto.loadsPrivateKey state.ctx.privateKey = true) :
    BatchEffect crypto messages state
      ((responseClientMain (Reply.waiting messages).bytes).exec crypto state).1 := by
  have hexec : (responseClientMain (Reply.waiting messages).bytes).exec crypto state = _ :=
    responseClientMain_waiting crypto hmessages state hloads
  rw [hexec]
  exact batchEffect_foldl crypto hmessages state

/-- What a response makes of the context of a client: its identity and the public key of the other
one stay, and its symmetric keys are set by the messages that the response carries. Assumes: the
private key of the client can be loaded. -/
theorem Pair.Owns.respond (h : pair.Owns crypto side state.ctx)
    (hloads : crypto.loadsPrivateKey (pair.privateKey side) = true)
    (hmeans : Means identities data response) (hcode : Server.codeOf data ≠ 700)
    (hkeys : ∀ name key, ((pair.id side.other).val, name, key) ∈ identities →
      key = (crypto.publicKeyOf (pair.privateKey side.other)).val) :
    let after := ((responseClientMain response).exec crypto state).1
    pair.Owns crypto side after.ctx ∧
      ∀ id, after.ctx.symmetricKeyFor id =
        inForce (keyFrom crypto (pair.privateKey side) id) (state.ctx.symmetricKeyFor id)
          (batch response) := by
  intro after
  obtain ⟨reply, hintends, hfits, -, rfl⟩ := hmeans
  have hquiet : reply.code ≠ Server.responseWaitingMessages → after.ctx = state.ctx →
      pair.Owns crypto side after.ctx ∧ ∀ id, after.ctx.symmetricKeyFor id =
        inForce (keyFrom crypto (pair.privateKey side) id) (state.ctx.symmetricKeyFor id)
          (batch reply.bytes) := by
    intro hother hsame
    rw [hsame, batch_reply hother]
    exact ⟨h, fun _ ↦ rfl⟩
  have hready : crypto.loadsPrivateKey state.ctx.privateKey = true := h.privateKey ▸ hloads
  cases reply with
  | failed =>
    have hnothing : Reply.failed.Encodable := trivial
    obtain ⟨final, hexec, hrecovered⟩ := exec_reply crypto state hnothing trivial
    refine hquiet (by simp [Reply.code]) ?_
    cases hrecovered
    exact congrArg (fun result ↦ result.1.ctx) hexec
  | registered id => exact absurd hintends.1 hcode
  | listed clients =>
    have hlisted : (Reply.listed clients).Encodable := hfits
    obtain ⟨final, hexec, hrecovered⟩ := exec_reply crypto state hlisted trivial
    cases hrecovered
    have hctx : after.ctx = _ :=
      (congrArg (fun result ↦ result.1.ctx) hexec).trans (foldl_learn_ctx _ state)
    have hkept := keys_foldl_setFriendBase (clients.map listEntry) state.ctx
    rw [hctx, batch_reply (by simp [Reply.code])]
    exact ⟨h.congr (hkept (pair.id side)).1 (hkept (pair.id side)).2.1 fun id ↦ (hkept id).2.2.1,
      fun id ↦ (hkept id).2.2.2⟩
  | key id publicKey =>
    have hctx : after.ctx = (state.ctx.ensured id).setFriendPublicKey id publicKey :=
      congrArg (fun result ↦ result.1.ctx) (exec_reply_key crypto state id publicKey)
    have hensured : (state.ctx.ensured id).clientID = state.ctx.clientID ∧
        (state.ctx.ensured id).privateKey = state.ctx.privateKey := by
      unfold ClientContext.ensured
      split_ifs <;> exact ⟨rfl, rfl⟩
    have howns := h.congr hensured.1 hensured.2 fun other ↦ publicKeyFor_ensured state.ctx id other
    obtain ⟨-, -, name, hidentity⟩ := hintends
    rw [hctx, batch_reply (by simp [Reply.code])]
    refine ⟨⟨howns.clientID, howns.registered, howns.privateKey,
      fun key hfound ↦ ?_⟩, fun other ↦ ?_⟩
    · rcases ClientContext.publicKeyFor_setFriendPublicKey _ _ _ hfound with ⟨rfl, rfl⟩ | hold
      · exact Subtype.ext (hkeys name _ hidentity)
      · exact howns.publicKey key hold
    · exact (ClientContext.symmetricKeyFor_setFriendPublicKey ..).trans
        (ensured_entry state.ctx id other).2
  | sent target msgId =>
    refine hquiet (by simp [Reply.code]) ?_
    cases hentry : state.ctx.tryGetFriendCopy target with
    | none =>
      exact congrArg (fun result ↦ result.1.ctx)
        (exec_reply_sent_unknown crypto state target msgId hentry)
    | some entry =>
      exact congrArg (fun result ↦ result.1.ctx) (exec_reply_sent crypto state target hfits hentry)
  | waiting messages =>
    have heffect := batchEffect_response crypto hfits hready
    have hpublic : ∀ id, after.ctx.publicKeyFor id = state.ctx.publicKeyFor id := by
      intro id
      change ((responseClientMain (Reply.waiting messages).bytes).exec crypto
        state).1.ctx.publicKeyFor id = _
      rw [heffect.folded]
      split_ifs
      · rfl
      · exact publicKeyFor_foldl_read crypto _ hfits state id
    refine ⟨h.congr heffect.clientID heffect.privateKey hpublic, fun id ↦ ?_⟩
    have hbatch : batch (Reply.waiting messages).bytes = messages := batch_frame hfits
    rw [hbatch, inForce_eq, heffect.keys id, lastKey, h.privateKey]

end Response

/-! ### The invariant -/

namespace World

section PutParty

variable {Rest : Type} (world : World Rest) {side other : Side} (party : Party)

@[simp] theorem put_self : (world.put side party).party side = party :=
  Function.update_self ..

theorem put_of_ne (h : other ≠ side) : (world.put side party).party other = world.party other :=
  Function.update_of_ne h ..

/-- What holds of the party that goes on and of the other one holds of both. -/
theorem forall_put {P : Side → Party → Prop} (hparty : P side party)
    (hothers : ∀ other ≠ side, P other (world.party other)) (other : Side) :
    P other ((world.put side party).party other) := by
  by_cases hsame : other = side
  · subst hsame
    rwa [put_self]
  · rw [put_of_ne world party hsame]
    exact hothers other hsame

end PutParty

/-- What a client has not read. -/
def unread {Rest : Type} (world : World Rest) (pair : Pair) (side : Side) :
    List Server.WaitingMessage :=
  System.unread (pair.own side) (pair.id side).val (world.party side).asking world.server

/-- Nobody else uses the ID of one of the two clients. -/
def OwnIds {Rest : Type} (pair : Pair) (_ : World Rest) : WorldEvent → Prop
  | .serve (.arrive _ request _) => ∀ side, Server.requesterIdOf request ≠ (pair.id side).val
  | .serve (.call ..) | .choose .. | .wake _ | .send .. | .receive _ => True

/-- A handler selects no more messages than a payload can hold. -/
def SelectionsFit (world : World Server.Staged) : WorldEvent → Prop
  | .serve event => Server.ServerState.SelectionsFit world.server event
  | .choose .. | .wake _ | .send .. | .receive _ => True

/-- What holds of the server alone. -/
structure ServerSound (pair : Pair) (crypto : Crypto) (server : Server.ServerState Server.Staged) :
    Prop where
  answers : AnswersSound server
  held : Server.ServerState.HeldStored server
  registered : pair.Registered crypto server.tables.identities
  alive : ∀ side, server.connections (pair.own side) ≠ .stopped

/-- What holds of the two clients and of what the server keeps for them. -/
structure Sound (pair : Pair) (crypto : Crypto) (world : World Server.Staged) : Prop where
  loads : ∀ side, crypto.loadsPrivateKey (pair.privateKey side) = true
  server : ServerSound pair crypto world.server
  inbox : ∀ side, Inbox (pair.own side) (pair.id side).val world.server
  /-- A connection waits for a request while its client does not ask. -/
  free : ∀ side, (world.party side).asking = false → world.server.running (pair.own side) = none
  /-- A client that asks is at the request of its connection. -/
  asked : ∀ side, (world.party side).asking = true →
    ∃ data, (world.party side).exchanging = some data ∧
    Link.requestAt (world.server.connections (pair.own side)) = some data
  stage : ∀ side, (world.party side).Stage crypto
  began : ∀ side, pair.Owns crypto side (world.party side).began.ctx
  owns : ∀ side, pair.Owns crypto side (world.party side).client.ctx

variable {pair : Pair} {crypto : Crypto} {world : World Server.Staged}

theorem ServerSound.step {server : Server.ServerState Server.Staged}
    (h : ServerSound pair crypto server) (limit : Option ℕ) (event : Server.Event) :
    ServerSound pair crypto (server.stagedStep limit event) where
  answers := h.answers.step limit event
  held := h.held.step h.answers.sound limit event
  registered := fun side ↦ by
    obtain ⟨name, hmem⟩ := h.registered side
    exact ⟨name, (Server.ServerState.identities_step limit server event).subset hmem⟩
  alive := fun side ↦ alive_stagedStep (h.alive side) limit event

/-- A connection that is not running takes a request. -/
theorem ServerSound.arrive {server : Server.ServerState Server.Staged}
    (h : ServerSound pair crypto server) {side : Side}
    (hfree : server.running (pair.own side) = none) (limit : Option ℕ) (data : Bytes)
    (ambient : Server.Ambient) :
    server.stagedStep limit (.arrive (pair.own side) data ambient) =
      server.settle (pair.own side) data
        (Server.ServerState.stagedOutcome ambient (Server.start data)) := by
  have halive := h.alive side
  simp only [Server.ServerState.running] at hfree
  simp only [Server.ServerState.stagedStep]
  cases hconnection : server.connections (pair.own side) with
  | idle => rfl
  | busy request rest => simp [hconnection] at hfree
  | returned request response => rfl
  | stopped => exact absurd hconnection halive

/-- A party at its request has the ID of its client in it, and does not register. -/
theorem Sound.exchanging (h : world.Sound pair crypto) {side : Side} {data : Bytes}
    (hdata : (world.party side).exchanging = some data) :
    Server.requesterIdOf data = (pair.id side).val ∧ Server.codeOf data ≠ 700 := by
  cases h.stage side with
  | closed outcome hrest =>
    rw [Party.exchanging, hrest] at hdata
    cases hdata
  | main choice request hnonempty hrest hchoice hacted =>
    rw [Party.exchanging_behindAction hnonempty hrest] at hdata
    cases hdata
    exact (h.began side).request hacted hnonempty
  | pull hrest =>
    rw [Party.exchanging_behindPull hrest] at hdata
    cases hdata
    rw [requesterIdOf_pullRequest, codeOf_pullRequest, (h.owns side).clientID]
    exact ⟨rfl, by simp⟩

/-- The connection of a client runs for the client alone, and only while it asks. -/
theorem Sound.running (h : world.Sound pair crypto) {side : Side} {request : Bytes}
    (hrunning : world.server.running (pair.own side) = some request) :
    (world.party side).asking = true ∧ (world.party side).exchanging = some request ∧
      Server.requesterIdOf request = (pair.id side).val := by
  have hasking : (world.party side).asking = true := by
    by_contra hnot
    rw [h.free side (Bool.not_eq_true _ ▸ hnot)] at hrunning
    cases hrunning
  obtain ⟨data, hdata, hrequest⟩ := h.asked side hasking
  have hsame : data = request := by
    rw [Server.ServerState.running] at hrunning
    cases hconnection : world.server.connections (pair.own side) with
    | busy running rest =>
      rw [hconnection] at hrunning hrequest
      exact (Option.some.inj hrequest).symm.trans (Option.some.inj hrunning)
    | idle => simp [hconnection] at hrunning
    | returned running response => simp [hconnection] at hrunning
    | stopped => simp [hconnection] at hrunning
  subst hsame
  exact ⟨hasking, hdata, (h.exchanging hdata).1⟩

/-! ### What an event can do -/

/-- The world when a party sends its request. -/
def sending (world : World Server.Staged) (pair : Pair) (side : Side) (data : Bytes)
    (ambient : Server.Ambient) : World Server.Staged :=
  { world.put side { world.party side with asking := true } with
    server := world.server.settle (pair.own side) data
      (Server.ServerState.stagedOutcome ambient (Server.start data)) }

/-- The world when a handler has come to something. -/
def settled (world : World Server.Staged) (server : Server.ServerState Server.Staged)
    (connection : ℕ) (request : Bytes) (ambient : Server.Ambient) (progress : Server.Progress) :
    World Server.Staged :=
  { world with
    server := server.settle connection request (Server.ServerState.stagedOutcome ambient progress) }

/-- An event leaves the world alone, or a party begins a round, sends its request or processes its
response; or a request of somebody else arrives, or a handler makes a call. -/
theorem step_cases {motive : World Server.Staged → Prop} (h : world.Sound pair crypto)
    (limit : Option ℕ) (event : WorldEvent) (hsame : motive world)
    (hchoose : ∀ side choice surroundings after outcome, event = .choose side choice surroundings →
      (world.party side).ready = true →
      (handleMenuChoice (surroundings.console.length + 1) choice).exec crypto
        (surroundings.apply (world.party side).client) = (after, outcome) →
      motive (world.put side
        { world.party side with
          client := after
          rest := behindAction outcome
          choice := some choice
          began := surroundings.apply (world.party side).client
          asking := false }))
    (hwake : ∀ side, event = .wake side → (world.party side).ready = true →
      motive (world.put side
        { world.party side with
          rest := behindPull (pullRequest (world.party side).client.ctx)
          choice := none
          began := (world.party side).client
          asking := false }))
    (hsend : ∀ side data ambient, event = .send side ambient →
      (world.party side).exchanging = some data → (world.party side).asking = false →
      motive (world.sending pair side data ambient))
    (hreceive : ∀ side data response outcome, event = .receive side →
      (world.party side).exchanging = some data → (world.party side).asking = true →
      world.server.connections (pair.own side) = .returned data response →
      motive (world.put side ((world.party side).answered crypto response outcome)))
    (harrive : ∀ connection request ambient, event = .serve (.arrive connection request ambient) →
      (∀ side, connection ≠ pair.own side) →
      motive (world.settled world.server connection request ambient (Server.start request)))
    (hcall : ∀ connection fault request ambient stage after row progress,
      event = .serve (.call connection fault) →
      world.server.connections connection = .busy request (ambient, stage) →
      Server.StageStep world.server.tables request ambient stage after row progress →
      motive (world.settled (world.server.afterCall after row) connection request
        ambient progress)) :
    motive (world.step (Server.ServerState.stagedStep limit) pair crypto event) := by
  cases event with
  | choose side choice surroundings =>
    rw [step]
    split_ifs with hready
    · have hmotive := hchoose side choice surroundings _ _ rfl hready rfl
      rw [Party.launch, advance_mainTurn]
      exact hmotive
    · exact hsame
  | wake side =>
    rw [step]
    split_ifs with hready
    · rw [Party.launch, advance_pullTurn (h.owns side).registered]
      exact hwake side rfl hready
    · exact hsame
  | send side ambient =>
    rw [step]
    cases hdata : (world.party side).exchanging with
    | none => exact hsame
    | some data =>
      cases hasking : (world.party side).asking with
      | true => exact hsame
      | false =>
        dsimp only
        rw [h.server.arrive (h.free side hasking)]
        exact hsend side data ambient rfl hdata hasking
  | receive side =>
    rw [step, response]
    split_ifs with hasking
    · obtain ⟨data, hdata, hrequest⟩ := h.asked side hasking
      cases hconnection : world.server.connections (pair.own side) with
      | returned request response =>
        rw [hconnection] at hrequest
        cases hrequest
        have hexchanging : (world.party side).exchanging ≠ none := by simp [hdata]
        obtain ⟨outcome, hreceived⟩ := (h.stage side).receive hexchanging response
        change motive (world.put side ((world.party side).receive crypto response))
        rw [hreceived]
        exact hreceive side _ response outcome rfl hdata hasking hconnection
      | idle => exact hsame
      | busy request rest => exact hsame
      | stopped => exact hsame
    · exact hsame
  | serve happening =>
    cases happening with
    | arrive connection request ambient =>
      rw [step]
      split_ifs with hown
      · exact hsame
      · have hothers : ∀ side, connection ≠ pair.own side := by
          intro side hside
          cases side with
          | first => exact hown (.inl hside)
          | second => exact hown (.inr hside)
        refine Server.ServerState.stagedStep_cases
          (motive := fun server ↦ motive { world with server := server }) limit world.server _ hsame
          (fun other sent drawn hevent _ ↦ ?_)
          fun other fault sent drawn stage after row progress hevent _ _ ↦ by cases hevent
        cases hevent
        exact harrive connection request ambient rfl hothers
    | call connection fault =>
      rw [step]
      refine Server.ServerState.stagedStep_cases
        (motive := fun server ↦ motive { world with server := server }) limit world.server _ hsame
        (fun other sent drawn hevent _ ↦ by cases hevent)
        fun other failing sent drawn stage after row progress hevent hbusy hstep ↦ ?_
      cases hevent
      exact hcall connection fault sent drawn stage after row progress rfl hbusy hstep

/-! ### What is unread behind an event -/

section Unread

variable {side : Side} {data request : Bytes} {ambient : Server.Ambient} {connection : ℕ}

/-- A request that a party sends leaves what is unread. -/
theorem Sound.unread_sending (h : world.Sound pair crypto)
    (hdata : (world.party side).exchanging = some data)
    (hasking : (world.party side).asking = false)
    (ambient : Server.Ambient) (other : Side) :
    Inbox (pair.own other) (pair.id other).val (world.sending pair side data ambient).server ∧
      (world.sending pair side data ambient).unread pair other = world.unread pair other := by
  by_cases hsame : other = side
  · subst hsame
    obtain ⟨hinbox, hunread⟩ := (h.inbox other).send data ambient
    refine ⟨hinbox, ?_⟩
    have hafter : ((world.sending pair other data ambient).party other).asking = true :=
      congrArg Party.asking (world.put_self _)
    rw [unread, unread, hafter, hasking]
    exact hunread
  · have hparty : (world.sending pair side data ambient).party other = world.party other :=
      world.put_of_ne _ hsame
    have hne : pair.own side ≠ pair.own other := fun heq ↦ hsame (pair.own_injective heq).symm
    have hid : Server.requesterIdOf data ≠ (pair.id other).val := by
      rw [(h.exchanging hdata).1]
      exact fun heq ↦ hsame (pair.id_injective (Subtype.ext heq)).symm
    rw [unread, hparty]
    exact (h.inbox other).arrive hne hid ambient

/-- So does a request of somebody else. -/
theorem Sound.unread_arrive (h : world.Sound pair crypto)
    (hothers : ∀ side, connection ≠ pair.own side)
    (hids : ∀ side, Server.requesterIdOf request ≠ (pair.id side).val) (ambient : Server.Ambient)
    (side : Side) :
    let after := world.settled world.server connection request ambient (Server.start request)
    Inbox (pair.own side) (pair.id side).val after.server ∧
      after.unread pair side = world.unread pair side :=
  (h.inbox side).arrive (hothers side) (hids side) ambient

/-- A call adds the message that it stores. -/
theorem Sound.unread_call (h : world.Sound pair crypto) {stage : Server.Stage}
    {after : Server.Tables}
    {row : Option Server.MessageRow} {progress : Server.Progress}
    (hbusy : world.server.connections connection = .busy request (ambient, stage))
    (hfits : stage = .fetchMessages →
      ((world.server.tables.waitingFor (Server.requesterIdOf request)).flatMap
        Server.recordBytes).length < 2 ^ 32)
    (hstep : Server.StageStep world.server.tables request ambient stage after row progress)
    (side : Side) :
    let next := world.settled (world.server.afterCall after row) connection request ambient progress
    Inbox (pair.own side) (pair.id side).val next.server ∧
      next.unread pair side =
        world.unread pair side ++ Server.messagesFor row.toList (pair.id side).val := by
  have hmine : ∀ running, world.server.running (pair.own side) = some running →
      (world.party side).asking = true ∧ Server.requesterIdOf running = (pair.id side).val :=
    fun running hrunning ↦ ⟨(h.running hrunning).1, (h.running hrunning).2.2⟩
  refine (h.inbox side).call h.server.answers.sound h.server.held hmine hbusy
    (fun hown hstage ↦ ?_) hstep
  have hid := (hmine request (hown ▸ Server.ServerState.running_of_busy hbusy)).2
  rw [← hid]
  exact hfits hstage

end Unread

/-! ### The invariant along a run -/

/-- A party goes on that is not asking behind it. -/
theorem Sound.put (h : world.Sound pair crypto) {side : Side} {party : Party}
    (hasking : party.asking = false) (hfree : world.server.running (pair.own side) = none)
    (hstage : party.Stage crypto) (hbegan : pair.Owns crypto side party.began.ctx)
    (howns : pair.Owns crypto side party.client.ctx) :
    (world.put side party).Sound pair crypto where
  loads := h.loads
  server := h.server
  inbox := h.inbox
  free := world.forall_put party (P := fun other party ↦ party.asking = false →
    world.server.running (pair.own other) = none) (fun _ ↦ hfree) fun other _ ↦ h.free other
  asked := world.forall_put party (P := fun other party ↦ party.asking = true → ∃ data,
    party.exchanging = some data ∧
      Link.requestAt (world.server.connections (pair.own other)) = some data)
    (fun hnot ↦ by simp [hasking] at hnot) fun other _ ↦ h.asked other
  stage := world.forall_put party (P := fun _ party ↦ party.Stage crypto) hstage
    fun other _ ↦ h.stage other
  began := world.forall_put party (P := fun other party ↦ pair.Owns crypto other party.began.ctx)
    hbegan fun other _ ↦ h.began other
  owns := world.forall_put party (P := fun other party ↦ pair.Owns crypto other party.client.ctx)
    howns fun other _ ↦ h.owns other

/-- What an action has done. -/
theorem acted_of_exec {surroundings : Surroundings} {client after : ClientState} {choice : ℕ}
    {outcome : Except CppError Bytes}
    (hexec : (handleMenuChoice (surroundings.console.length + 1) choice).exec crypto
      (surroundings.apply client) = (after, outcome)) :
    Acted crypto (surroundings.apply client) choice after.ctx outcome := by
  have hrounds : (surroundings.apply client).console.length < surroundings.console.length + 1 :=
    Nat.lt_succ_self _
  have hacted := handleMenuChoice_acted crypto (surroundings.apply client) _ choice hrounds
  rwa [hexec] at hacted

/-- The stage of a party behind an action. -/
theorem stage_behindAction {party : Party} {choice : ℕ} {outcome : Except CppError Bytes}
    (hrest : party.rest = behindAction outcome) (hasking : party.asking = false)
    (hchoice : party.choice = some choice)
    (hacted : Acted crypto party.began choice party.client.ctx outcome) : party.Stage crypto := by
  cases outcome with
  | error exception => exact .closed _ hrest hasking
  | ok data =>
    by_cases hempty : data = []
    · rw [behindAction, if_pos hempty] at hrest
      exact .closed _ hrest hasking
    · exact .main choice data hempty hrest hchoice hacted

/-- A response that a party reads means what the identities say, and there is one public key for the
other client. -/
theorem Sound.means (h : world.Sound pair crypto) {side : Side} {data response : Bytes}
    (hreturned : world.server.connections (pair.own side) = .returned data response) :
    Means world.server.tables.identities data response ∧
      ∀ name key, ((pair.id side.other).val, name, key) ∈ world.server.tables.identities →
        key = (crypto.publicKeyOf (pair.privateKey side.other)).val := by
  refine ⟨h.server.answers.returned _ _ _ hreturned, fun name key hmem ↦ ?_⟩
  obtain ⟨registered, hregistered⟩ := h.server.registered side.other
  exact publicKey_unique world.server.tables hmem hregistered

/-- What a response that a party reads makes of its context. -/
theorem Sound.respond (h : world.Sound pair crypto) {side : Side} {data response : Bytes}
    (hdata : (world.party side).exchanging = some data)
    (hreturned : world.server.connections (pair.own side) = .returned data response)
    (outcome : Except CppError Unit) :
    let after := ((world.party side).answered crypto response outcome).client
    pair.Owns crypto side after.ctx ∧
      ∀ id, after.ctx.symmetricKeyFor id =
        inForce (keyFrom crypto (pair.privateKey side) id)
          ((world.party side).client.ctx.symmetricKeyFor id) (batch response) := by
  have hreading : (readingBy (world.party side).choice (world.party side).client).ctx =
      (world.party side).client.ctx := by
    rw [readingBy.eq_def]
    cases (world.party side).choice <;> rfl
  obtain ⟨hmeans, hkeys⟩ := h.means hreturned
  have howns := h.owns side
  rw [← hreading] at howns ⊢
  exact howns.respond (h.loads side) hmeans (h.exchanging hdata).2 hkeys

/-- The server makes one of its steps, or none. -/
theorem ServerSound.world_step (h : ServerSound pair crypto world.server) (limit : Option ℕ)
    (event : WorldEvent) : ServerSound pair crypto
      (world.step (Server.ServerState.stagedStep limit) pair crypto event).server := by
  cases event with
  | choose side choice surroundings =>
    rw [World.step]
    split_ifs <;> exact h
  | wake side =>
    rw [World.step]
    split_ifs <;> exact h
  | send side ambient =>
    rw [World.step]
    cases (world.party side).exchanging with
    | none => exact h
    | some data =>
      cases (world.party side).asking with
      | true => exact h
      | false => exact ServerSound.step h limit (.arrive (pair.own side) data ambient)
  | receive side =>
    rw [World.step]
    cases world.response pair side <;> exact h
  | serve happening =>
    cases happening with
    | arrive connection request ambient =>
      rw [World.step]
      split_ifs
      · exact h
      · exact ServerSound.step h limit (.arrive connection request ambient)
    | call connection fault => exact ServerSound.step h limit (.call connection fault)

/-- A party that asks is at the request of its connection while the connection stays at its
request. -/
theorem Sound.settled (h : world.Sound pair crypto) {server : Server.ServerState Server.Staged}
    {connection : ℕ} {request : Bytes} {ambient : Server.Ambient} {progress : Server.Progress}
    (hserver : ServerSound pair crypto
      (world.settled server connection request ambient progress).server)
    (hsame : server.connections = world.server.connections)
    (hbusy : ∀ side, connection = pair.own side → world.server.running connection = some request)
    (hinbox : ∀ side, Inbox (pair.own side) (pair.id side).val
      (world.settled server connection request ambient progress).server) :
    (world.settled server connection request ambient progress).Sound pair crypto where
  loads := h.loads
  server := hserver
  inbox := hinbox
  free := fun side hasking ↦ by
    have hfree := h.free side hasking
    rw [Option.eq_none_iff_forall_ne_some]
    intro running hrunning
    rcases Server.ServerState.running_of_settle hrunning with ⟨-, hold⟩ | ⟨hown, -⟩
    · rw [Server.ServerState.running, hsame, ← Server.ServerState.running, hfree] at hold
      cases hold
    · rw [hown, hbusy side hown.symm] at hfree
      cases hfree
  asked := fun side hasking ↦ by
    obtain ⟨data, hdata, hrequest⟩ := h.asked side hasking
    refine ⟨data, hdata, ?_⟩
    by_cases hown : connection = pair.own side
    · obtain ⟨-, hrunning, -⟩ := h.running (hown ▸ hbusy side hown)
      change Link.requestAt ((server.settle connection request _).connections (pair.own side)) = _
      rw [← hown, requestAt_settle, ← hrunning]
      exact hdata
    · change Link.requestAt ((server.settle connection request _).connections (pair.own side)) = _
      rw [Server.ServerState.settle_connections_of_ne server request _ (Ne.symm hown), hsame]
      exact hrequest
  stage := h.stage
  began := h.began
  owns := h.owns

/-- A party sends its request. -/
theorem Sound.sending (h : world.Sound pair crypto) {side : Side} {data : Bytes}
    {ambient : Server.Ambient} (hdata : (world.party side).exchanging = some data)
    (hasking : (world.party side).asking = false)
    (hserver : ServerSound pair crypto (world.sending pair side data ambient).server) :
    (world.sending pair side data ambient).Sound pair crypto where
  loads := h.loads
  server := hserver
  inbox := fun other ↦ (h.unread_sending hdata hasking ambient other).1
  free := world.forall_put _ (P := fun other party ↦ party.asking = false →
    (world.sending pair side data ambient).server.running (pair.own other) = none)
    (fun hnot ↦ by simp at hnot) fun other hother hfree ↦ by
      rw [Option.eq_none_iff_forall_ne_some]
      intro running hrunning
      rcases Server.ServerState.running_of_settle hrunning with ⟨-, hold⟩ | ⟨hown, -⟩
      · rw [h.free other hfree] at hold
        cases hold
      · exact hother (pair.own_injective hown)
  asked := world.forall_put _ (P := fun other party ↦ party.asking = true → ∃ request,
    party.exchanging = some request ∧ Link.requestAt
      ((world.sending pair side data ambient).server.connections (pair.own other)) = some request)
    (fun _ ↦ ⟨data, hdata, requestAt_settle⟩) fun other hother hother' ↦ by
      obtain ⟨request, hexchanging, hrequest⟩ := h.asked other hother'
      refine ⟨request, hexchanging, ?_⟩
      change Link.requestAt ((world.server.settle (pair.own side) data _).connections
        (pair.own other)) = _
      rw [Server.ServerState.settle_connections_of_ne world.server data _
        fun heq ↦ hother (pair.own_injective heq)]
      exact hrequest
  stage := world.forall_put _ (P := fun _ party ↦ party.Stage crypto)
    ((h.stage side).send (by simp [hdata])) fun other _ ↦ h.stage other
  began := world.forall_put _ (P := fun other party ↦ pair.Owns crypto other party.began.ctx)
    (h.began side) fun other _ ↦ h.began other
  owns := world.forall_put _ (P := fun other party ↦ pair.Owns crypto other party.client.ctx)
    (h.owns side) fun other _ ↦ h.owns other

/-- Every event keeps the invariant. Assumes: nobody else uses the IDs of the two clients, and every
selection fits a response. -/
theorem Sound.step (h : world.Sound pair crypto) (limit : Option ℕ) {event : WorldEvent}
    (hids : OwnIds pair world event) (hfits : SelectionsFit world event) :
    (world.step (Server.ServerState.stagedStep limit) pair crypto event).Sound pair crypto := by
  refine step_cases (motive := fun after ↦ ServerSound pair crypto after.server →
      Sound pair crypto after) h limit event (fun _ ↦ h)
    (fun side choice surroundings after outcome _ hready hexec _ ↦ ?_)
    (fun side _ hready _ ↦ ?_) (fun side data ambient _ hdata hasking hserver ↦ ?_)
    (fun side data response outcome _ hdata hasking hreturned _ ↦ ?_)
    (fun connection request ambient hevent hothers hserver ↦ ?_)
    (fun connection fault request ambient stage after row progress hevent hbusy hstep hserver ↦ ?_)
    (h.server.world_step limit event)
  · have hfree := h.free side ((h.stage side).of_ready hready).2
    have hbegan : pair.Owns crypto side (surroundings.apply (world.party side).client).ctx :=
      h.owns side
    have hacted := acted_of_exec hexec
    exact h.put rfl hfree (stage_behindAction rfl rfl rfl hacted) hbegan (hbegan.act hacted)
  · have hfree := h.free side ((h.stage side).of_ready hready).2
    exact h.put rfl hfree (.pull rfl rfl) (h.owns side) (h.owns side)
  · exact h.sending hdata hasking hserver
  · have hfree : world.server.running (pair.own side) = none := by
      rw [Server.ServerState.running, hreturned]
    exact h.put rfl hfree (.closed outcome rfl rfl) (h.began side)
      (h.respond hdata hreturned outcome).1
  · subst hevent
    exact h.settled hserver rfl (fun side hown ↦ absurd hown (hothers side)) fun side ↦
      (h.unread_arrive hothers hids ambient side).1
  · subst hevent
    exact h.settled hserver rfl (fun _ _ ↦ Server.ServerState.running_of_busy hbusy) fun side ↦
      (h.unread_call hbusy (fun hstage ↦ hfits request ambient (hstage ▸ hbusy)) hstep side).1

/-! ### Runs -/

/-- The payloads of `2104` responses fit their length field. -/
def PayloadFits (world : World Server.Handler) : WorldEvent → Prop
  | .serve event => Server.ServerState.PayloadFits world.server event
  | .choose .. | .wake _ | .send .. | .receive _ => True

instance (world : World Server.Handler) : DecidablePred (PayloadFits world)
  | .serve event => inferInstanceAs (Decidable (Server.ServerState.PayloadFits world.server event))
  | .choose .. => isTrue trivial
  | .wake _ => isTrue trivial
  | .send .. => isTrue trivial
  | .receive _ => isTrue trivial

instance {Rest : Type} (pair : Pair) (world : World Rest) : DecidablePred (OwnIds pair world)
  | .serve (.arrive _ request _) =>
    inferInstanceAs (Decidable (∀ side, Server.requesterIdOf request ≠ (pair.id side).val))
  | .serve (.call ..) => isTrue trivial
  | .choose .. => isTrue trivial
  | .wake _ => isTrue trivial
  | .send .. => isTrue trivial
  | .receive _ => isTrue trivial

/-- Two registered clients that have had nothing to do with each other. The server has run
before. -/
structure Start (limit : Option ℕ) (pair : Pair) (crypto : Crypto) (world : World Server.Handler) :
    Prop where
  server : ∃ events, world.server =
    runEvents (Server.ServerState.step limit) (.initial Server.Handler) events
  registered : pair.Registered crypto world.server.tables.identities
  privateKey : ∀ side, ∃ seed, pair.privateKey side = crypto.generatePrivateKey seed
  /-- No request of either client is being handled. -/
  free : ∀ connection request, world.server.running connection = some request → ∀ side,
    connection ≠ pair.own side ∧ Server.requesterIdOf request ≠ (pair.id side).val
  idle : ∀ side, world.party side = .idle (world.party side).client
  owns : ∀ side, pair.Owns crypto side (world.party side).client.ctx
  unkeyed : ∀ side, (world.party side).client.ctx.symmetricKeyFor (pair.id side.other) = none
  unwritten : ∀ side, ∀ message ∈ world.server.tables.waitingFor (pair.id side).val,
    message.fromClient ≠ (pair.id side.other).val

/-- The handlers of the server are at stages, and the invariant holds of these. -/
def Running (pair : Pair) (crypto : Crypto) (world : World Server.Handler) : Prop :=
  ∃ staged : World Server.Staged, world = staged.unstage ∧ staged.Sound pair crypto

section Runs

variable {limit : Option ℕ} {start : World Server.Handler}

/-- What holds of the server alone holds in every run from empty tables. -/
theorem serverSound_run (limit : Option ℕ) (events : List Server.Event)
    (hregistered : pair.Registered crypto (runEvents (Server.ServerState.stagedStep limit)
      (.initial Server.Staged) events).tables.identities) :
    ServerSound pair crypto (runEvents (Server.ServerState.stagedStep limit)
      (.initial Server.Staged) events) := by
  let Kept (server : Server.ServerState Server.Staged) : Prop :=
    (AnswersSound server ∧ Server.ServerState.HeldStored server) ∧
      ∀ side, server.connections (pair.own side) ≠ .stopped
  have hkept : Kept (runEvents (Server.ServerState.stagedStep limit)
      (.initial Server.Staged) events) := by
    refine runEvents_invariant (P := Kept) (fun server event h ↦ ?_)
      ⟨⟨answersSound_initial, ?_⟩, ?_⟩ events
    · obtain ⟨⟨hanswers, hheld⟩, halive⟩ := h
      exact ⟨⟨hanswers.step limit event, hheld.step hanswers.sound limit event⟩,
        fun side ↦ alive_stagedStep (halive side) limit event⟩
    · exact fun _ _ _ _ hbusy ↦ by cases hbusy
    · exact fun _ hstopped ↦ by cases hstopped
  exact ⟨hkept.1.1, hkept.1.2, hregistered, hkept.2⟩

theorem Start.running (h : start.Start limit pair crypto) (hcrypto : crypto.Correct) :
    start.Running pair crypto := by
  obtain ⟨events, hserver⟩ := h.server
  rw [Server.ServerState.run_unstage] at hserver
  let staged : World Server.Staged :=
    ⟨runEvents (Server.ServerState.stagedStep limit) (.initial Server.Staged) events, start.party⟩
  have hstaged : start = staged.unstage := congrArg (World.mk · start.party) hserver
  have hrunning : ∀ connection, start.server.running connection =
      staged.server.running connection := by
    intro connection
    rw [hserver]
    exact Server.ServerState.running_unstage _ connection
  have hfree : ∀ side, staged.server.running (pair.own side) = none := by
    intro side
    rw [← hrunning, Option.eq_none_iff_forall_ne_some]
    exact fun request hrequest ↦ (h.free _ request hrequest side).1 rfl
  have hidle : ∀ side, staged.party side = .idle (start.party side).client := h.idle
  refine ⟨staged, hstaged, ?_, ?_, fun side ↦ ⟨?_, ?_⟩, fun side _ ↦ hfree side, ?_, ?_, ?_, h.owns⟩
  · intro side
    obtain ⟨seed, hkey⟩ := h.privateKey side
    rw [hkey]
    exact hcrypto.loads seed
  · have hregistered := h.registered
    rw [hserver] at hregistered
    exact serverSound_run limit events hregistered
  · intro connection request hrequest hme
    rw [← hrunning] at hrequest
    exact absurd hme (h.free connection request hrequest side).2
  · intro request ambient messages hbusy
    have hrequest := Server.ServerState.running_of_busy hbusy
    rw [hfree] at hrequest
    cases hrequest
  · intro side hasking
    rw [hidle] at hasking
    cases hasking
  · intro side
    rw [hidle]
    exact .closed (.ok ()) rfl rfl
  · intro side
    rw [hidle]
    exact h.owns side

theorem OwnIds.staged {world : World Server.Staged} {event : WorldEvent}
    (h : OwnIds pair world.unstage event) : OwnIds pair world event := by
  cases event with
  | serve happening => cases happening <;> exact h
  | _ => trivial

theorem PayloadFits.staged {world : World Server.Staged} {event : WorldEvent}
    (h : PayloadFits world.unstage event) : SelectionsFit world event := by
  cases event with
  | serve happening => exact Server.ServerState.selectionsFit_of_payloadFits h
  | _ => trivial

/-- Every event keeps it. Assumes: nobody else uses the IDs of the two clients, and a payload that
fits. -/
theorem Running.step {world : World Server.Handler} (h : world.Running pair crypto)
    (limit : Option ℕ)
    {event : WorldEvent} (hids : OwnIds pair world event) (hfits : PayloadFits world event) :
    (world.step (Server.ServerState.step limit) pair crypto event).Running pair crypto := by
  obtain ⟨staged, rfl, hsound⟩ := h
  exact ⟨_, step_unstage limit pair crypto staged event, hsound.step limit hids.staged hfits.staged⟩

end Runs

end World

end MessageU.System
