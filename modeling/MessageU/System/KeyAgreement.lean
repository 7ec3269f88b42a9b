import MessageU.Client.Online
import MessageU.System.PairSound

/-!
# The symmetric keys of two clients

A client that sends a symmetric key holds it from then on, and the other client holds it when it
reads the message. So two clients are two replicas of a key (`World.replicas`): what is on its way
to a client are the messages that it has not read, and its phase is pending while it is at a request
with a key that the server has not accepted.

Every event with which nobody makes a key moves the replicas in one of the ways of `Replicas.Move`
(`World.Sound.move`), and a client that makes a key sets a value (`World.Sound.setsValue`). The rest
is the argument of `Replicas`, which `LastMeets.establishes` carries along a run:
`World.keys_agree`.

Keys that cross stay crossed (`World.crossing_keys_differ`), so the last key has to be made while
none is on its way to its maker.
-/

set_option autoImplicit false
set_option relaxedAutoImplicit false

namespace MessageU.System

open Library Client

/-! ### Requests with a key -/

/-- A request with which a client sends a key to the other one. -/
def Pair.SendsKey (pair : Pair) (side : Side) (request : Bytes) : Prop :=
  Server.codeOf request = requestAllMessages ∧ Server.messageTypeOf request = sendSymmetricKey ∧
    Server.requestedIdOf request = (pair.id side.other).val

instance (pair : Pair) (side : Side) (request : Bytes) : Decidable (pair.SendsKey side request) :=
  inferInstanceAs (Decidable (_ ∧ _ ∧ _))

/-- A message with which a client sends a key. -/
def Pair.BringsKey (pair : Pair) (side : Side) (message : Server.WaitingMessage) : Prop :=
  message.type = sendSymmetricKey ∧ message.fromClient = (pair.id side).val

instance (pair : Pair) (side : Side) (message : Server.WaitingMessage) :
    Decidable (pair.BringsKey side message) :=
  inferInstanceAs (Decidable (_ ∧ _))

/-- A choice with which a client makes a key for the other one. -/
def Pair.KeyChoice (pair : Pair) (side : Side) (client : ClientState) (choice : ℕ) : Prop :=
  choice = sendSymmetricKeyChoice ∧ typedTarget client = some (pair.id side.other) ∧
    (client.ctx.publicKeyFor (pair.id side.other)).isSome = true

instance (pair : Pair) (side : Side) (client : ClientState) (choice : ℕ) :
    Decidable (pair.KeyChoice side client choice) :=
  inferInstanceAs (Decidable (_ ∧ _ ∧ _))

/-- The key that a message brings to a client from the other one. -/
def Pair.keyIn (pair : Pair) (crypto : Crypto) (side : Side) (message : Server.WaitingMessage) :
    Option (FixedBytes symmetricKeySize) :=
  keyFrom crypto (pair.privateKey side) (pair.id side.other) message

section Requests

variable {pair : Pair} {crypto : Crypto} {side : Side} {client : ClientState} {choice : ℕ}
  {after : ClientContext}

/-- A message without a key of the other client brings none. -/
theorem Pair.keyIn_eq_none {message : Server.WaitingMessage}
    (h : ¬pair.BringsKey side.other message) : pair.keyIn crypto side message = none :=
  if_neg h

theorem Pair.not_sendsKey_of_code {clientId payload : Bytes} {code : ℕ}
    (hclient : clientId.length = clientIdSize) (hcode : code < 2 ^ 16)
    (hother : code ≠ requestAllMessages) :
    ¬pair.SendsKey side (Server.requestFrame clientId code payload) := by
  rintro ⟨hsame, -⟩
  rw [Server.codeOf_requestFrame hclient hcode] at hsame
  exact hother hsame

/-- A message is a key for the other client if its type and its target say so. -/
theorem Pair.sendsKey_message {clientId content : Bytes} {target : ClientId} {type : ℕ}
    (hclient : clientId.length = clientIdSize) (htype : type < 2 ^ 8) :
    pair.SendsKey side (Server.requestFrame clientId requestAllMessages
        (Server.messagePayload target.val type content)) ↔
      type = sendSymmetricKey ∧ target = pair.id side.other := by
  rw [SendsKey, Server.codeOf_requestFrame hclient (by simp),
    Server.messageTypeOf_message hclient target.property htype,
    Server.requestedIdOf_message hclient target.property, Subtype.ext_iff]
  exact and_iff_right rfl

/-- An action that makes no key for the other client keeps the one that is held, and sends none. -/
theorem Pair.Owns.act_other (h : pair.Owns crypto side client.ctx) {outcome : Except CppError Bytes}
    (hacted : Acted crypto client choice after outcome)
    (hnot : ¬pair.KeyChoice side client choice) :
    after.symmetricKeyFor (pair.id side.other) = client.ctx.symmetricKeyFor (pair.id side.other) ∧
      ∀ data, outcome = .ok data → ¬pair.SendsKey side data := by
  have hsize : client.ctx.clientID.val.length = clientIdSize := client.ctx.clientID.property
  have hstranger : ∀ (target : ClientId) (publicKey : FixedBytes publicKeySize),
      choice = sendSymmetricKeyChoice → typedTarget client = some target →
        client.ctx.publicKeyFor target = some publicKey → target ≠ pair.id side.other := by
    rintro target publicKey hchoice htarget hkey rfl
    exact hnot ⟨hchoice, htarget, by rw [hkey]; rfl⟩
  have hset : ∀ (target : ClientId) (publicKey : FixedBytes publicKeySize),
      client.ctx.publicKeyFor target = some publicKey → target ≠ pair.id side.other →
        (client.ctx.setFriendSymmetricKey target client.entropy.aesKey).symmetricKeyFor
          (pair.id side.other) = client.ctx.symmetricKeyFor (pair.id side.other) := by
    intro target publicKey hkey hother
    rw [ClientContext.symmetricKeyFor_setFriendSymmetricKey _ _ _
      (client.ctx.isSome_of_publicKeyFor target hkey), if_neg hother]
  cases hacted with
  | cancelled =>
    refine ⟨rfl, fun data hdata ↦ ?_⟩
    cases hdata
    exact fun hsends ↦ by cases hsends.1
  | endless => exact ⟨rfl, fun data hdata ↦ by cases hdata⟩
  | registering name rest _ hunregistered =>
    rw [h.registered] at hunregistered
    cases hunregistered
  | asking code hchoice =>
    refine ⟨rfl, fun data hdata ↦ ?_⟩
    cases hdata
    simp only [List.mem_cons, Prod.mk.injEq, List.not_mem_nil, or_false] at hchoice
    rcases hchoice with ⟨-, rfl⟩ | ⟨-, rfl⟩
    · exact not_sendsKey_of_code hsize (by simp) (by simp)
    · exact not_sendsKey_of_code hsize (by simp) (by simp)
  | askingKey =>
    refine ⟨rfl, fun data hdata ↦ ?_⟩
    cases hdata
    exact not_sendsKey_of_code hsize (by simp) (by simp)
  | requestingKey =>
    refine ⟨rfl, fun data hdata ↦ ?_⟩
    cases hdata
    rw [sendsKey_message hsize (by simp)]
    exact fun hkey ↦ absurd hkey.1 (by simp)
  | sendingText =>
    refine ⟨rfl, fun data hdata ↦ ?_⟩
    cases hdata
    rw [sendsKey_message hsize (by simp)]
    exact fun hkey ↦ absurd hkey.1 (by simp)
  | sendingKey target publicKey cipher hchoice htarget hkey =>
    have hother := hstranger target publicKey hchoice htarget hkey
    refine ⟨hset target publicKey hkey hother, fun data hdata ↦ ?_⟩
    cases hdata
    rw [sendsKey_message hsize (by simp)]
    exact fun hkey ↦ hother hkey.2
  | dropped target publicKey hchoice htarget hkey =>
    refine ⟨hset target publicKey hkey (hstranger target publicKey hchoice htarget hkey),
      fun data hdata ↦ ?_⟩
    cases hdata
    exact fun hsends ↦ by cases hsends.1
  | failing target publicKey exception hchoice htarget hkey =>
    exact ⟨hset target publicKey hkey (hstranger target publicKey hchoice htarget hkey),
      fun data hdata ↦ by cases hdata⟩

/-- What the other client decrypts from a request with a key is the key that is held. Assumes: a
request that passes the checks of the server. -/
theorem Pair.Owns.sent_key (h : pair.Owns crypto side client.ctx) (hcrypto : crypto.Correct)
    {data : Bytes}
    (hacted : Acted crypto client choice after (.ok data)) (hsends : pair.SendsKey side data)
    (hvalid : Server.ValidMessage data) :
    deliveredKey crypto (pair.privateKey side.other) (Server.contentOf data) =
      after.symmetricKeyFor (pair.id side.other) := by
  have hsize : client.ctx.clientID.val.length = clientIdSize := client.ctx.clientID.property
  by_cases hchoice : pair.KeyChoice side client choice
  · obtain ⟨rfl, htarget, hpublic⟩ := hchoice
    generalize houtcome : (Except.ok data : Except CppError Bytes) = outcome at hacted
    cases hacted with
    | sendingKey target publicKey cipher _ htyped hkey hcipher =>
      cases houtcome
      rw [htarget] at htyped
      cases htyped
      rw [h.publicKey publicKey hkey] at hcipher
      have hplain := hcrypto.rsa _ _ _ _ hcipher
      rw [Server.contentOf_validMessage hsize (pair.id side.other).property hvalid,
        deliveredKey, hplain,
        ClientContext.symmetricKeyFor_setFriendSymmetricKey _ _ _
          (client.ctx.isSome_of_publicKeyFor _ hkey), if_pos rfl]
      exact dif_pos client.entropy.aesKey.property
    | cancelled => cases houtcome; cases hsends.1
    | endless => cases houtcome
    | registering name rest hregister => cases hregister
    | asking code hasking => simp at hasking
    | askingKey target hasking => cases hasking
    | requestingKey target hrequesting => cases hrequesting
    | sendingText target key hsending => cases hsending
    | dropped => cases houtcome; cases hsends.1
    | failing => cases houtcome
  · exact absurd hsends ((h.act_other hacted hchoice).2 data rfl)

end Requests

/-! ### The clients as replicas -/

/-- An exception has ended the rounds of a party. -/
def Party.ended (party : Party) : Bool :=
  match party.rest with
  | .finished (.error _) => true
  | .finished (.ok _) | .request _ _ => false

theorem Party.ended_of_exchanging {party : Party} {data : Bytes}
    (h : party.exchanging = some data) :
    party.ended = false := by
  rw [exchanging] at h
  rw [ended]
  split at h
  · next hrest => rw [hrest]
  · cases h
  · cases h

/-- A party that is ready is neither at an exchange nor ended. -/
theorem Party.Stage.ready {party : Party} {crypto : Crypto} (h : party.Stage crypto)
    (hready : party.ready = true) :
    party.exchanging = none ∧ party.ended = false ∧ party.asking = false := by
  obtain ⟨hrest, hasking⟩ := h.of_ready hready
  exact ⟨by rw [exchanging, hrest], by rw [ended, hrest], hasking⟩

/-- A party behind its action is at the request of the action, or at none. -/
theorem Party.outcome_of_exchanging {party : Party} {outcome : Except CppError Bytes} {data : Bytes}
    (hrest : party.rest = behindAction outcome) (hdata : party.exchanging = some data) :
    outcome = .ok data := by
  cases outcome with
  | error exception =>
    rw [exchanging, hrest] at hdata
    cases hdata
  | ok request =>
    by_cases hempty : request = []
    · rw [exchanging, hrest, behindAction, if_pos hempty] at hdata
      cases hdata
    · rw [exchanging_behindAction hempty hrest] at hdata
      rw [Option.some.inj hdata]

namespace World

section Keys

variable {Rest : Type} (pair : Pair) (side : Side) (world : World Rest)

/-- The symmetric key that a client holds for the other one. -/
def heldKey : Option (FixedBytes symmetricKeySize) :=
  (world.party side).client.ctx.symmetricKeyFor (pair.id side.other)

/-- A client is at a request with a key, and has not got the answer that it has been sent. -/
def KeyUnderWay : Prop :=
  ∃ data ∈ (world.party side).exchanging, pair.SendsKey side data ∧
    ∀ response ∈ world.response pair side, Server.responseCode response ≠ Server.responseMessageSent

instance : Decidable (world.KeyUnderWay pair side) :=
  inferInstanceAs (Decidable (∃ data ∈ (world.party side).exchanging, pair.SendsKey side data ∧ _))

/-- No key of a client is on its way to the other one: none is waiting there or in a response that
has not been read, and no request with one has still to be sent or to be answered with `2103`. -/
def Silent : Prop :=
  (∀ message ∈ world.unread pair side.other, ¬pair.BringsKey side message) ∧
    ¬world.KeyUnderWay pair side

instance : Decidable (world.Silent pair side) :=
  inferInstanceAs (Decidable (_ ∧ _))

/-- What a client has still to do with its key. -/
def keyPhase : Phase :=
  if (world.party side).ended then .halted
  else if world.KeyUnderWay pair side then .pending
  else .settled

/-- The two clients as replicas of a symmetric key. -/
def replicas : Replicas Server.WaitingMessage (FixedBytes symmetricKeySize) where
  held side := world.heldKey pair side
  incoming side := world.unread pair side
  phase side := world.keyPhase pair side

end Keys

section Views

variable {Rest : Type} {pair : Pair} {crypto : Crypto} {side : Side} {world after : World Rest}
  {data : Bytes}

/-- No key of a client is on its way when none of its messages is. -/
theorem Silent.quiet (h : world.Silent pair side) (crypto : Crypto) :
    (world.replicas pair).Quiet (pair.keyIn crypto) side where
  incoming := fun message hmessage ↦ Pair.keyIn_eq_none (by
    rw [Side.other_other]
    exact h.1 message hmessage)
  phase := by
    change world.keyPhase pair side ≠ .pending
    rw [keyPhase, if_neg h.2]
    split_ifs <;> simp

/-- A client that is not at a request with a key has sent its key. -/
theorem keyPhase_ne_pending (h : ∀ data, (world.party side).exchanging = some data →
    ¬pair.SendsKey side data) : world.keyPhase pair side ≠ .pending := by
  have hnot : ¬world.KeyUnderWay pair side := by
    rintro ⟨data, hdata, hsends, -⟩
    exact h data hdata hsends
  rw [keyPhase, if_neg hnot]
  split_ifs <;> simp

/-- A client at a request that has not been accepted is to send its key if the request does so. -/
theorem keyPhase_exchanging (hdata : (world.party side).exchanging = some data)
    (hresponse : pair.SendsKey side data → ∀ response ∈ world.response pair side,
      Server.responseCode response ≠ Server.responseMessageSent) :
    world.keyPhase pair side = if pair.SendsKey side data then .pending else .settled := by
  have hunderWay : world.KeyUnderWay pair side ↔ pair.SendsKey side data := by
    constructor
    · rintro ⟨request, hrequest, hsends, -⟩
      rw [hdata] at hrequest
      cases hrequest
      exact hsends
    · exact fun hsends ↦ ⟨data, hdata, hsends, hresponse hsends⟩
  rw [keyPhase, Party.ended_of_exchanging hdata, if_neg Bool.false_ne_true]
  simp only [hunderWay]

/-- A response that can be read has been returned. -/
theorem returned_of_response {response : Bytes} (h : response ∈ world.response pair side) :
    ∃ request, world.server.connections (pair.own side) = .returned request response := by
  rw [World.response] at h
  split_ifs at h
  · split at h
    · next request found hconnection => exact ⟨request, by rw [hconnection, Option.some.inj h]⟩
    · cases h
    · cases h
    · cases h
  · cases h

/-- A client that neither goes on nor is answered has the same to do. -/
theorem keyPhase_congr (hparty : after.party side = world.party side)
    (hconnection : after.server.connections (pair.own side) =
      world.server.connections (pair.own side)) :
    after.keyPhase pair side = world.keyPhase pair side := by
  have hresponse : after.response pair side = world.response pair side := by
    rw [response, response, hparty, hconnection]
  have hunderWay : after.KeyUnderWay pair side ↔ world.KeyUnderWay pair side := by
    rw [KeyUnderWay, KeyUnderWay, hparty, hresponse]
  rw [keyPhase, keyPhase, hparty]
  simp only [hunderWay]

/-- A client that does not go on stays what it is, but for messages without a key of the other
one. -/
theorem stays (hparty : after.party side = world.party side)
    (hphase : after.keyPhase pair side = world.keyPhase pair side)
    {messages : List Server.WaitingMessage}
    (hunread : after.unread pair side = world.unread pair side ++ messages)
    (hmessages : ∀ message ∈ messages, ¬pair.BringsKey side.other message) :
    Replicas.Stays (pair.keyIn crypto) (world.replicas pair) (after.replicas pair) side where
  held := by
    change after.heldKey pair side = world.heldKey pair side
    rw [heldKey, heldKey, hparty]
  phase := hphase
  incoming := ⟨messages, hunread,
    fun message hmessage ↦ Pair.keyIn_eq_none (hmessages message hmessage)⟩

/-- Of two clients the one that does not go on stays what it is. -/
theorem stays_put {party : Party} :
    Replicas.Stays (pair.keyIn crypto) (world.replicas pair) ((world.put side party).replicas pair)
      side.other := by
  have hparty : (world.put side party).party side.other = world.party side.other :=
    world.put_of_ne party side.other_ne
  have hunread : (world.put side party).unread pair side.other =
      world.unread pair side.other ++ [] := by
    rw [unread, unread, hparty, List.append_nil]
    rfl
  exact stays hparty (keyPhase_congr hparty rfl) hunread fun _ h ↦ absurd h List.not_mem_nil

end Views

/-! ### What an event does to the replicas -/

section Moves

variable {Rest : Type} (pair : Pair)

/-- The server accepts every request with a key. -/
def KeysAccepted (world : World Rest) : WorldEvent → Prop
  | .receive side => ∀ data ∈ (world.party side).exchanging, pair.SendsKey side data →
      ∀ response ∈ world.response pair side,
        Server.responseCode response = Server.responseMessageSent
  | .choose .. | .wake _ | .send .. | .serve _ => True

/-- A client makes a key for the other one. -/
def MakesKey (side : Side) (world : World Rest) : WorldEvent → Prop
  | .choose actor choice surroundings =>
    actor = side ∧ (world.party side).ready = true ∧
      pair.KeyChoice side (surroundings.apply (world.party side).client) choice
  | .wake _ | .send .. | .receive _ | .serve _ => False

end Moves

section Steps

variable {pair : Pair} {crypto : Crypto} {side : Side} {world : World Server.Staged} {data : Bytes}

/-- A client that is ready has sent its key. -/
theorem Sound.settled_of_ready (h : world.Sound pair crypto)
    (hready : (world.party side).ready = true) :
    world.keyPhase pair side = .settled := by
  obtain ⟨hexchanging, hended, -⟩ := (h.stage side).ready hready
  have hnot : ¬world.KeyUnderWay pair side := by
    rintro ⟨data, hdata, -⟩
    rw [hexchanging] at hdata
    cases hdata
  rw [keyPhase, hended, if_neg Bool.false_ne_true, if_neg hnot]

/-- A client that begins a round that sends no key moves nothing. -/
theorem Sound.move_begin (h : world.Sound pair crypto) (hready : (world.party side).ready = true)
    {party : Party} (hasking : party.asking = false)
    (hheld : party.client.ctx.symmetricKeyFor (pair.id side.other) = world.heldKey pair side)
    (hnot : ∀ data, party.exchanging = some data → ¬pair.SendsKey side data) :
    Replicas.Move (pair.keyIn crypto) (world.replicas pair)
      ((world.put side party).replicas pair) := by
  refine .take side [] (h.settled_of_ready hready) (keyPhase_ne_pending ?_) ?_ ?_ stays_put
  · rwa [put_self]
  · change world.unread pair side = (world.put side party).unread pair side
    rw [unread, unread, put_self, hasking, ((h.stage side).ready hready).2.2]
    rfl
  · change (world.put side party).heldKey pair side = world.heldKey pair side
    rw [heldKey, put_self]
    exact hheld

/-- A client that sends its request moves nothing. -/
theorem Sound.move_send (h : world.Sound pair crypto)
    (hdata : (world.party side).exchanging = some data)
    (hasking : (world.party side).asking = false)
    (ambient : Server.Ambient) :
    Replicas.Move (pair.keyIn crypto) (world.replicas pair)
      ((world.sending pair side data ambient).replicas pair) := by
  have hunread : ∀ other, (world.sending pair side data ambient).unread pair other =
      world.unread pair other ++ [] := fun other ↦
    ((h.unread_sending hdata hasking ambient other).2).trans (List.append_nil _).symm
  have hparty : (world.sending pair side data ambient).party side =
      { world.party side with asking := true } := world.put_self _
  refine .stay fun other ↦ ?_
  by_cases hsame : other = side
  · subst hsame
    refine ⟨?_, ?_, [], hunread other, fun _ h ↦ absurd h List.not_mem_nil⟩
    · change (world.sending pair other data ambient).heldKey pair other = world.heldKey pair other
      rw [heldKey, hparty]
      rfl
    · -- the server has not accepted what it has just been sent
      have hexchanging : ((world.sending pair other data ambient).party other).exchanging =
          some data := by
        rw [hparty]
        exact hdata
      have hbefore : world.response pair other = none := by
        rw [response, hasking, if_neg Bool.false_ne_true]
      have hafter : ∀ response ∈ (world.sending pair other data ambient).response pair other,
          Server.responseCode response ≠ Server.responseMessageSent := by
        intro response hresponse
        obtain ⟨request, hreturned⟩ := returned_of_response hresponse
        rw [Server.start_answer (answer_of_settle hreturned), Server.responseCode_errorResponse]
        simp
      change keyPhase pair other _ = keyPhase pair other _
      rw [keyPhase_exchanging hexchanging fun _ ↦ hafter,
        keyPhase_exchanging hdata (by simp [hbefore])]
  · have hother : (world.sending pair side data ambient).party other = world.party other :=
      world.put_of_ne _ hsame
    refine stays hother (keyPhase_congr hother ?_) (hunread other) fun _ h ↦
      absurd h List.not_mem_nil
    exact Server.ServerState.settle_connections_of_ne _ _ _ fun heq ↦ hsame (pair.own_injective heq)

/-- A client that processes its response takes the messages that it carries. Assumes: a key that has
been sent has been accepted. -/
theorem Sound.move_receive (h : world.Sound pair crypto) {response : Bytes}
    (hdata : (world.party side).exchanging = some data) (hasking : (world.party side).asking = true)
    (hreturned : world.server.connections (pair.own side) = .returned data response)
    (haccepted : KeysAccepted pair world (.receive side)) (outcome : Except CppError Unit) :
    Replicas.Move (pair.keyIn crypto) (world.replicas pair)
      ((world.put side ((world.party side).answered crypto response outcome)).replicas pair) := by
  have hresponse : world.response pair side = some response := by
    rw [World.response, if_pos hasking, hreturned]
  have hnot : ¬world.KeyUnderWay pair side := by
    rintro ⟨request, hrequest, hsends, hcode⟩
    exact hcode response hresponse (haccepted request hrequest hsends response hresponse)
  refine .take side (batch response) ?_ (keyPhase_ne_pending ?_) ?_ ?_ stays_put
  · change world.keyPhase pair side = .settled
    rw [keyPhase, Party.ended_of_exchanging hdata, if_neg Bool.false_ne_true, if_neg hnot]
  · rw [put_self]
    exact fun request hrequest ↦ by cases hrequest
  · change world.unread pair side = batch response ++ World.unread _ pair side
    rw [unread, unread, put_self, System.unread, System.unread, hasking, if_pos rfl, hreturned]
    rfl
  · change World.heldKey pair side _ = inForce _ (world.heldKey pair side) _
    rw [heldKey, put_self]
    exact (h.respond hdata hreturned outcome).2 (pair.id side.other)

section Calls

variable {connection : ℕ} {request : Bytes} {ambient : Server.Ambient} {stage : Server.Stage}
  {after : Server.Tables} {row : Option Server.MessageRow} {progress : Server.Progress}

/-- A connection at work has not answered. -/
theorem Sound.response_busy (h : world.Sound pair crypto)
    (hbusy : world.server.connections (pair.own side) = .busy request (ambient, stage)) :
    (world.party side).exchanging = some request ∧ world.response pair side = none := by
  obtain ⟨hasking, hdata, -⟩ := h.running (Server.ServerState.running_of_busy hbusy)
  exact ⟨hdata, by rw [World.response, if_pos hasking, hbusy]⟩

/-- A call that does not accept a key of a client leaves the client with the same to do. -/
theorem Sound.keyPhase_call (h : world.Sound pair crypto)
    (hbusy : world.server.connections connection = .busy request (ambient, stage))
    (hcode : connection = pair.own side → pair.SendsKey side request → ∀ response,
      progress = .answer response → Server.responseCode response ≠ Server.responseMessageSent) :
    (world.settled (world.server.afterCall after row) connection request ambient progress).keyPhase
      pair side = world.keyPhase pair side := by
  by_cases hown : connection = pair.own side
  · subst hown
    obtain ⟨hdata, hnone⟩ := h.response_busy hbusy
    have hbefore : pair.SendsKey side request → ∀ response ∈ world.response pair side,
        Server.responseCode response ≠ Server.responseMessageSent := by simp [hnone]
    rw [keyPhase_exchanging hdata hbefore]
    refine keyPhase_exchanging hdata fun hsends response hresponse ↦ ?_
    obtain ⟨other, hreturned⟩ := returned_of_response hresponse
    exact hcode rfl hsends response (answer_of_settle hreturned)
  · exact keyPhase_congr rfl
      (Server.ServerState.settle_connections_of_ne _ request _ (Ne.symm hown))

/-- A message that is stored is a key of a client if its request sends one. -/
theorem Sound.sendsKey_of_bringsKey (h : world.Sound pair crypto)
    (hbusy : world.server.connections connection = .busy request (ambient, .storeMessage))
    {id : ℕ} {message : Server.WaitingMessage}
    (hmessage : message ∈ Server.messagesFor [⟨id, Server.requestedIdOf request,
      Server.requesterIdOf request, Server.messageTypeOf request, Server.contentOf request⟩]
        (pair.id side.other).val) (hbrings : pair.BringsKey side message) :
    Server.requesterIdOf request = (pair.id side).val ∧ pair.SendsKey side request := by
  obtain ⟨row, hrow, rfl⟩ := List.mem_map.mp hmessage
  obtain ⟨hmem, hto⟩ := List.mem_filter.mp hrow
  rw [List.mem_singleton.mp hmem] at hbrings hto
  exact ⟨hbrings.2, (h.server.answers.coded connection request ambient _ hbusy).1, hbrings.1,
    of_decide_eq_true hto⟩

/-- The request with a key of a client is stored: the key is the one that the client holds. -/
theorem Sound.stored_key (h : world.Sound pair crypto) (hcrypto : crypto.Correct)
    (hbusy : world.server.connections (pair.own side) = .busy request (ambient, .storeMessage))
    (hsends : pair.SendsKey side request) :
    deliveredKey crypto (pair.privateKey side.other) (Server.contentOf request) =
      world.heldKey pair side := by
  have hdata := (h.response_busy hbusy).1
  have hvalid : Server.ValidMessage request := (h.server.answers.sound.ready _ _ _ _ hbusy).2.2
  cases h.stage side with
  | closed outcome hrest =>
    rw [Party.exchanging, hrest] at hdata
    cases hdata
  | main choice data hnonempty hrest hchoice hacted =>
    rw [Party.exchanging_behindAction hnonempty hrest] at hdata
    cases hdata
    exact (h.began side).sent_key hcrypto hacted hsends hvalid
  | pull hrest =>
    rw [Party.exchanging_behindPull hrest] at hdata
    rw [← Option.some.inj hdata] at hsends
    have hcode := hsends.1
    rw [codeOf_pullRequest] at hcode
    simp at hcode

/-- A call sends the key of a client that it stores, and else moves nothing. Assumes: what is
selected for a client fits a response. -/
theorem Sound.move_call (h : world.Sound pair crypto) (hcrypto : crypto.Correct)
    (hbusy : world.server.connections connection = .busy request (ambient, stage))
    (hfits : stage = .fetchMessages →
      ((world.server.tables.waitingFor (Server.requesterIdOf request)).flatMap
        Server.recordBytes).length < 2 ^ 32)
    (hstep : Server.StageStep world.server.tables request ambient stage after row progress) :
    Replicas.Move (pair.keyIn crypto) (world.replicas pair)
      ((world.settled (world.server.afterCall after row) connection request ambient
        progress).replicas pair) := by
  have hunread := fun side ↦ (h.unread_call hbusy hfits hstep side).2
  rcases stored_cases hstep with ⟨rfl, hcode⟩ | ⟨rfl, rfl, rfl⟩
  · refine .stay fun side ↦ stays rfl (h.keyPhase_call hbusy fun _ _ ↦ hcode) (hunread side) ?_
    exact fun message hmessage ↦ absurd hmessage List.not_mem_nil
  by_cases hkey : ∃ side, Server.requesterIdOf request = (pair.id side).val ∧
    pair.SendsKey side request
  · obtain ⟨side, hrequester, hsends⟩ := hkey
    obtain rfl := (h.inbox side).alone connection request
      (Server.ServerState.running_of_busy hbusy) hrequester
    obtain ⟨hdata, hnone⟩ := h.response_busy hbusy
    have hne : Server.requestedIdOf request ≠ (pair.id side).val := by
      rw [hsends.2.2]
      exact fun heq ↦ side.other_ne (pair.id_injective (Subtype.ext heq))
    have hmine := hunread side
    rw [Option.toList_some, Server.messagesFor_singleton_other hne, List.append_nil] at hmine
    have hothers := hunread side.other
    rw [Option.toList_some, Server.messagesFor_singleton hsends.2.2] at hothers
    refine .sendOff side _ ?_ rfl ?_ hmine rfl ?_ hothers
    · change world.keyPhase pair side = .pending
      rw [keyPhase_exchanging hdata (by simp [hnone]), if_pos hsends]
    · change pair.keyIn crypto side.other _ = world.heldKey pair side
      rw [← h.stored_key hcrypto hbusy hsends, Pair.keyIn, Side.other_other]
      exact if_pos ⟨hsends.2.1, hrequester⟩
    · exact h.keyPhase_call hbusy fun hown ↦ absurd (pair.own_injective hown).symm side.other_ne
  · refine .stay fun side ↦ stays rfl (h.keyPhase_call hbusy fun hown hsends ↦ ?_) (hunread side) ?_
    · subst hown
      exact absurd ⟨side, (h.running (Server.ServerState.running_of_busy hbusy)).2.2, hsends⟩ hkey
    · intro message hmessage hbrings
      rw [Option.toList_some, ← side.other_other] at hmessage
      exact hkey ⟨side.other, h.sendsKey_of_bringsKey hbusy hmessage hbrings⟩

end Calls

/-- An event with which nobody makes a key moves the replicas, or leaves them. Assumes: nobody else
uses the IDs of the two clients, every selection fits a response, and keys are accepted. -/
theorem Sound.move (h : world.Sound pair crypto) (hcrypto : crypto.Correct) (limit : Option ℕ)
    {event : WorldEvent} (hids : OwnIds pair world event) (hfits : SelectionsFit world event)
    (haccepted : KeysAccepted pair world event) (hmakes : ∀ side, ¬MakesKey pair side world event) :
    Replicas.Move (pair.keyIn crypto) (world.replicas pair)
      ((world.step (Server.ServerState.stagedStep limit) pair crypto event).replicas pair) := by
  have hnothing : Replicas.Move (pair.keyIn crypto) (world.replicas pair) (world.replicas pair) :=
    .stay fun side ↦ stays rfl rfl (List.append_nil _).symm fun _ hmem ↦
      absurd hmem List.not_mem_nil
  refine step_cases (motive := fun after ↦
      Replicas.Move (pair.keyIn crypto) (world.replicas pair) (after.replicas pair))
        h limit event hnothing
    (fun side choice surroundings after outcome hevent hready hexec ↦ ?_)
    (fun side _ hready ↦ ?_) (fun side data ambient _ hdata hasking ↦
      h.move_send hdata hasking ambient)
    (fun side data response outcome hevent hdata hasking hreturned ↦ ?_)
    (fun connection request ambient hevent hothers ↦ ?_)
    fun connection fault request ambient stage after row progress hevent hbusy hstep ↦ ?_
  · have hbegan : pair.Owns crypto side (surroundings.apply (world.party side).client).ctx :=
      h.owns side
    have hnot : ¬pair.KeyChoice side (surroundings.apply (world.party side).client) choice := by
      subst hevent
      exact fun hkey ↦ hmakes side ⟨rfl, hready, hkey⟩
    obtain ⟨hheld, hsends⟩ := hbegan.act_other (acted_of_exec hexec) hnot
    exact h.move_begin hready rfl hheld fun data hdata ↦
      hsends data (Party.outcome_of_exchanging rfl hdata)
  · refine h.move_begin hready rfl rfl fun data hdata hsends ↦ ?_
    rw [Party.exchanging_behindPull rfl] at hdata
    rw [← Option.some.inj hdata] at hsends
    have hcode := hsends.1
    rw [codeOf_pullRequest] at hcode
    simp at hcode
  · subst hevent
    exact h.move_receive hdata hasking hreturned haccepted outcome
  · subst hevent
    refine .stay fun side ↦ stays rfl (keyPhase_congr rfl ?_)
      (((h.unread_arrive hothers hids ambient side).2).trans (List.append_nil _).symm)
      fun _ hmem ↦ absurd hmem List.not_mem_nil
    exact Server.ServerState.settle_connections_of_ne _ request _ (Ne.symm (hothers side))
  · subst hevent
    exact h.move_call hcrypto hbusy (fun hstage ↦ hfits request ambient (hstage ▸ hbusy)) hstep

/-- A client that makes a key sets it. -/
theorem Sound.setsValue (h : world.Sound pair crypto) (hcrypto : crypto.Correct) (limit : Option ℕ)
    {event : WorldEvent} (hmakes : MakesKey pair side world event) :
    Replicas.SetsValue (pair.keyIn crypto) (world.replicas pair)
      ((world.step (Server.ServerState.stagedStep limit) pair crypto event).replicas pair)
        side := by
  cases event with
  | choose actor choice surroundings =>
    obtain ⟨rfl, hready, rfl, htarget, hpublic⟩ := hmakes
    rw [World.step, if_pos hready, Party.launch, advance_mainTurn]
    refine ⟨?_, ?_, stays_put⟩
    · -- the action has ended with an exception, or it is at the request with the new key
      change keyPhase pair actor _ ≠ .settled
      have hrounds : (surroundings.apply (world.party actor).client).console.length <
          surroundings.console.length + 1 := Nat.lt_succ_self _
      have hsize : (surroundings.apply (world.party actor).client).ctx.clientID.val.length =
          clientIdSize := (surroundings.apply (world.party actor).client).ctx.clientID.property
      rcases outcome_sendKeyChoice hcrypto hrounds htarget hpublic with
        ⟨exception, herror⟩ | ⟨cipher, hrequest⟩
      · rw [keyPhase, put_self, herror]
        exact fun hsettled ↦ by cases hsettled
      · rw [hrequest]
        have hnonempty : Server.requestFrame
            (surroundings.apply (world.party actor).client).ctx.clientID.val requestAllMessages
            (Server.messagePayload (pair.id actor.other).val sendSymmetricKey cipher) ≠ [] :=
          Server.requestFrame_ne_nil hsize _ _
        rw [keyPhase_exchanging ((congrArg Party.exchanging (world.put_self _)).trans
          (Party.exchanging_behindAction hnonempty rfl)) ?_, if_pos]
        · exact fun hsettled ↦ by cases hsettled
        · exact (Pair.sendsKey_message hsize (by simp)).mpr ⟨rfl, rfl⟩
        · intro _ response hresponse
          rw [World.response, put_self, if_neg Bool.false_ne_true] at hresponse
          cases hresponse
    · change World.unread _ pair actor = world.unread pair actor
      rw [unread, unread, put_self, ((h.stage actor).ready hready).2.2]
      rfl
  | wake actor => exact hmakes.elim
  | send actor ambient => exact hmakes.elim
  | receive actor => exact hmakes.elim
  | serve happening => exact hmakes.elim

end Steps

/-! ### Agreement -/

section Guards

variable {Rest : Type} (pair : Pair) (world : World Rest)

instance : DecidablePred (KeysAccepted pair world)
  | .receive side => inferInstanceAs (Decidable (∀ data ∈ (world.party side).exchanging,
      pair.SendsKey side data → ∀ response ∈ world.response pair side,
        Server.responseCode response = Server.responseMessageSent))
  | .choose .. => isTrue trivial
  | .wake _ => isTrue trivial
  | .send .. => isTrue trivial
  | .serve _ => isTrue trivial

instance (side : Side) : DecidablePred (MakesKey pair side world)
  | .choose actor choice surroundings =>
    inferInstanceAs (Decidable (actor = side ∧ (world.party side).ready = true ∧
      pair.KeyChoice side (surroundings.apply (world.party side).client) choice))
  | .wake _ => isFalse id
  | .send .. => isFalse id
  | .receive _ => isFalse id
  | .serve _ => isFalse id

/-- A client makes a key for the other one while none of the other one is on its way to it. -/
def Uncrossed : WorldEvent → Prop := fun event ↦
  ∀ side, MakesKey pair side world event → world.Silent pair side.other

instance : DecidablePred (Uncrossed pair world) := fun event ↦
  inferInstanceAs (Decidable (∀ side, MakesKey pair side world event →
    world.Silent pair side.other))

/-- What the runs of two clients keep to: nobody else uses their IDs, the payloads of `2104`
responses fit their length field, and the server accepts every request with a key. -/
def Regular (pair : Pair) (world : World Server.Handler) (event : WorldEvent) : Prop :=
  OwnIds pair world event ∧ PayloadFits world event ∧ KeysAccepted pair world event

instance (pair : Pair) (world : World Server.Handler) :
    DecidablePred (Regular pair world) := fun _ ↦
  inferInstanceAs (Decidable (_ ∧ _ ∧ _))

end Guards

section Agreement

variable {limit : Option ℕ} {pair : Pair} {crypto : Crypto} {world start : World Server.Handler}
  {event : WorldEvent}

/-- The replicas do not depend on what the handlers are made of. -/
theorem replicas_unstage (world : World Server.Staged) (pair : Pair) :
    world.unstage.replicas pair = world.replicas pair := by
  have hresponse : ∀ side, world.unstage.response pair side = world.response pair side :=
    world.response_unstage pair
  have hunderWay : ∀ side, world.unstage.KeyUnderWay pair side ↔ world.KeyUnderWay pair side := by
    intro side
    rw [KeyUnderWay, KeyUnderWay, hresponse]
    exact Iff.rfl
  have hphase : ∀ side, world.unstage.keyPhase pair side = world.keyPhase pair side := by
    intro side
    simp only [keyPhase, hunderWay]
    rfl
  have hunread : ∀ side, world.unstage.unread pair side = world.unread pair side := by
    intro side
    have hconnection : world.unstage.server.connections (pair.own side) =
        (world.server.connections (pair.own side)).unstage := rfl
    rw [unread, unread, System.unread, System.unread, hconnection]
    cases world.server.connections (pair.own side) <;> rfl
  rw [replicas, replicas, funext hphase, funext hunread]
  rfl

theorem KeysAccepted.staged {world : World Server.Staged} {event : WorldEvent}
    (h : KeysAccepted pair world.unstage event) : KeysAccepted pair world event := by
  cases event with
  | receive side =>
    intro data hdata hsends response hresponse
    exact h data hdata hsends response (by rwa [response_unstage])
  | _ => trivial

/-- The replicas at a running server move. -/
theorem Running.move (h : world.Running pair crypto) (hcrypto : crypto.Correct) (limit : Option ℕ)
    (hregular : Regular pair world event) (hmakes : ∀ side, ¬MakesKey pair side world event) :
    Replicas.Move (pair.keyIn crypto) (world.replicas pair)
      ((world.step (Server.ServerState.step limit) pair crypto event).replicas pair) := by
  obtain ⟨staged, rfl, hsound⟩ := h
  obtain ⟨hids, hfits, haccepted⟩ := hregular
  have hnobody : ∀ side, ¬MakesKey pair side staged event := by
    intro side hkey
    cases event with
    | choose actor choice surroundings => exact hmakes side hkey
    | _ => exact hkey
  rw [step_unstage, replicas_unstage, replicas_unstage]
  exact hsound.move hcrypto limit hids.staged hfits.staged haccepted.staged hnobody

/-- A client that makes a key at a running server sets it. -/
theorem Running.setsValue (h : world.Running pair crypto) (hcrypto : crypto.Correct)
    (limit : Option ℕ)
    {side : Side} (hmakes : MakesKey pair side world event) :
    Replicas.SetsValue (pair.keyIn crypto) (world.replicas pair)
      ((world.step (Server.ServerState.step limit) pair crypto event).replicas pair) side := by
  obtain ⟨staged, rfl, hsound⟩ := h
  have hmaker : MakesKey pair side staged event := by
    cases event with
    | choose actor choice surroundings => exact hmakes
    | _ => exact hmakes
  rw [step_unstage, replicas_unstage, replicas_unstage]
  exact hsound.setsValue hcrypto limit hmaker

/-- At the start nobody holds a key, and none is on its way. -/
theorem Start.silent (h : start.Start limit pair crypto) (side : Side) :
    start.Silent pair side := by
  refine ⟨fun message hmessage hbrings ↦ ?_, ?_⟩
  · rw [unread, h.idle] at hmessage
    have hfrom := h.unwritten side.other message hmessage
    rw [Side.other_other] at hfrom
    exact hfrom hbrings.2
  · rintro ⟨data, hdata, -⟩
    rw [h.idle] at hdata
    cases hdata

theorem Start.follows (h : start.Start limit pair crypto) (side : Side) :
    (start.replicas pair).Follows (pair.keyIn crypto) side := by
  intro key hkey
  change start.heldKey pair side = some key at hkey
  rw [heldKey, h.unkeyed side] at hkey
  cases hkey

/-- The two clients hold the same key. Assumes: two clients that have had nothing to do with each
other; a run in which no exchange of theirs throws, nobody else uses their IDs, the payloads of
`2104` responses fit their length field and every request with a key is accepted; the last key that
one of the two has made for the other one was made while none of the other one was on its way to it.
Then, whenever no key of either is on its way to the other one, and no exception has ended the loop
of either, the keys that they hold for each other are the same. -/
theorem keys_agree (limit : Option ℕ) {pair : Pair} {crypto : Crypto} (hcrypto : crypto.Correct)
    {start : World Server.Handler} (hstart : start.Start limit pair crypto)
    {events : List WorldEvent}
    (hrun : Along (step (Server.ServerState.step limit) pair crypto) (Regular pair) start events)
    (hlast : LastMeets (step (Server.ServerState.step limit) pair crypto)
      (fun world event ↦ ∃ side, MakesKey pair side world event) (Uncrossed pair) start events) :
    let world := runEvents (step (Server.ServerState.step limit) pair crypto) start events
    (∀ side, world.Silent pair side ∧ (world.party side).ended = false) →
      ∀ first second, world.heldKey pair .first = some first →
        world.heldKey pair .second = some second → first = second := by
  intro world hsilent first second hfirst hsecond
  let Led (world : World Server.Handler) : Prop :=
    ∃ side, (world.replicas pair).Quiet (pair.keyIn crypto) side.other ∧
      (world.replicas pair).Follows (pair.keyIn crypto) side
  have hled : Led world := by
    refine hlast.establishes (P := Running pair crypto) hrun
      (fun world event hregular h ↦ h.step limit hregular.1 hregular.2.1)
      (fun world event hregular h hguard huncrossed ↦ ?_)
      (fun world event hregular h hnobody hbefore ↦ ?_) (hstart.running hcrypto)
      ⟨.first, (hstart.silent _).quiet crypto, hstart.follows _⟩
    · obtain ⟨side, hmakes⟩ := hguard
      have hset := h.setsValue hcrypto limit hmakes
      exact ⟨side, hset.quiet ((huncrossed side hmakes).quiet crypto), hset.follows⟩
    · obtain ⟨side, hquiet, hfollows⟩ := hbefore
      have hmove := h.move hcrypto limit hregular (not_exists.mp hnobody)
      exact ⟨side, hmove.quiet hquiet, hmove.follows hquiet hfollows⟩
  obtain ⟨side, -, hfollows⟩ := hled
  have hgoing : (world.replicas pair).phase side ≠ .halted := by
    change world.keyPhase pair side ≠ .halted
    rw [keyPhase, (hsilent side).2, if_neg Bool.false_ne_true]
    split_ifs <;> simp
  have hquiet : ∀ side, (world.replicas pair).Quiet (pair.keyIn crypto) side :=
    fun side ↦ (hsilent side).1.quiet crypto
  cases side with
  | first => exact Replicas.agree hfollows hquiet hgoing hfirst hsecond
  | second => exact (Replicas.agree hfollows hquiet hgoing hsecond hfirst).symm

end Agreement

/-! ### Two clients that send keys -/

/-- The number of a client. -/
def numberOf : Side → UInt8
  | .first => 1
  | .second => 2

/-- Two clients with what belongs to their numbers. -/
def numbered : Pair where
  own side := (numberOf side).toNat
  id side := .numbered (numberOf side)
  privateKey side := Crypto.tagged.generatePrivateKey (numberOf side).toNat
  own_injective := by
    intro side another h
    cases side <;> cases another <;> first | rfl | cases h
  id_injective := by
    intro side another h
    cases side <;> cases another <;> first | rfl | cases h

/-- The name of a client, which is a letter. -/
def nameOf (side : Side) : Bytes :=
  [64 + numberOf side]

/-- A client that knows the name and the public key of the other one. -/
def acquainted (side : Side) : ClientState where
  ctx :=
    ({ ClientContext.empty with
        clientID := numbered.id side
        privateKey := numbered.privateKey side }.setFriendBase (numbered.id side.other)
      (nameOf side.other)).setFriendPublicKey (numbered.id side.other)
        (Crypto.tagged.publicKeyOf (numbered.privateKey side.other))
  console := []
  output := []
  entropy := ⟨.zero symmetricKeySize, 0⟩
  disk := ⟨.ok true, true, none⟩

/-- The registration of a client. -/
def enrolling (side : Side) : List Server.Event :=
  Server.session (numbered.own side) (Server.requestFrame (ClientId.numbered 0).val requestRegister
    (Server.registrationPayload (nameOf side)
      (Crypto.tagged.publicKeyOf (numbered.privateKey side)).val)) (drawing (numbered.id side))

/-- The two clients behind their registration. -/
def meeting : World Server.Handler where
  server := runEvents (Server.ServerState.step none) (.initial Server.Handler)
    (enrolling .first ++ enrolling .second)
  party side := .idle (acquainted side)

theorem meeting_running (connection : ℕ) : meeting.server.running connection = none := by
  have hinitial : (Server.ServerState.initial Server.Staged).Quiet := fun _ ↦ .inl rfl
  have hquiet : (runEvents (Server.ServerState.stagedStep none) (.initial Server.Staged)
      (enrolling .first ++ enrolling .second)).Quiet := by
    have hfirst : (runEvents (Server.ServerState.stagedStep none) (.initial Server.Staged)
        (enrolling .first)).Quiet := hinitial.session none _ _ _
    rw [runEvents_append]
    exact hfirst.session none _ _ _
  rw [meeting, Server.ServerState.run_unstage, Server.ServerState.running_unstage]
  exact hquiet.running connection

theorem meeting_start : meeting.Start none numbered .tagged where
  server := ⟨enrolling .first ++ enrolling .second, by rw [meeting]⟩
  registered side := ⟨nameOf side, by cases side <;> decide +kernel⟩
  privateKey side := ⟨(numberOf side).toNat, rfl⟩
  free connection request hrequest := by
    rw [meeting_running] at hrequest
    cases hrequest
  idle _ := rfl
  owns side := by
    have hkey : (acquainted side).ctx.publicKeyFor (numbered.id side.other) =
        some (Crypto.tagged.publicKeyOf (numbered.privateKey side.other)) := by
      cases side <;> decide +kernel
    refine ⟨rfl, by cases side <;> decide +kernel, rfl, fun key hfound ↦ ?_⟩
    exact Option.some.inj (hfound.symm.trans hkey)
  unkeyed side := by cases side <;> decide +kernel
  unwritten side := by cases side <;> decide +kernel

/-- Lines that are typed, with a key that is drawn. -/
def typing (lines : List Bytes) (byte : UInt8) : Surroundings where
  console := lines
  entropy := ⟨⟨List.replicate symmetricKeySize byte, List.length_replicate⟩, 0⟩
  opens := .ok true
  writes := true

/-- A round of a client while nobody else does anything. -/
def round (side : Side) (choice : ℕ) (surroundings : Surroundings) : List WorldEvent :=
  [.choose side choice surroundings, .send side (drawing (numbered.id side))] ++
    List.replicate 4 (.serve (.call (numbered.own side) false)) ++ [.receive side]

/-- A client sends a key. -/
def keying (side : Side) (byte : UInt8) : List WorldEvent :=
  round side sendSymmetricKeyChoice (typing [nameOf side.other] byte)

/-- A client pulls. -/
def pulling (side : Side) : List WorldEvent :=
  round side waitingMessagesChoice (typing [] 0)

/-- The clients send their keys in turn, and each has pulled before it sends its own. -/
def inTurn : List WorldEvent :=
  keying .first 7 ++ pulling .second ++ keying .second 9 ++ pulling .first

/-- The keys of both are on their way at the same time. -/
def crossing : List WorldEvent :=
  keying .first 7 ++ keying .second 9 ++ pulling .first ++ pulling .second

theorem keys_agree_inTurn :
    let world := runEvents (step (Server.ServerState.step none) numbered .tagged) meeting inTurn
    ∃ key, world.heldKey numbered .first = some key ∧
      world.heldKey numbered .second = some key := by
  intro world
  have hfirst : ∃ key, world.heldKey numbered .first = some key :=
    Option.isSome_iff_exists.mp (by decide +kernel)
  have hsecond : ∃ key, world.heldKey numbered .second = some key :=
    Option.isSome_iff_exists.mp (by decide +kernel)
  obtain ⟨key, hkey⟩ := hfirst
  obtain ⟨other, hother⟩ := hsecond
  have hsame : key = other := keys_agree none Crypto.tagged_correct meeting_start
    (by decide +kernel)
    (by decide +kernel) (by decide +kernel) key other hkey hother
  exact ⟨key, hkey, by rw [hother, hsame]⟩

/-- Both clients are between two actions and no key is on its way, but each holds the key of the
other one. -/
theorem crossing_keys_differ :
    ¬∀ (limit : Option ℕ) (pair : Pair) (crypto : Crypto) (start : World Server.Handler)
      (events : List WorldEvent), crypto.Correct → start.Start limit pair crypto →
        Along (step (Server.ServerState.step limit) pair crypto) (Regular pair) start events →
        let world := runEvents (step (Server.ServerState.step limit) pair crypto) start events
        (∀ side, (world.party side).ready = true ∧ world.Silent pair side) →
          ∀ mine others, world.heldKey pair .first = some mine →
            world.heldKey pair .second = some others → mine = others := by
  intro h
  have hsame : Puller.keyOf 9 = Puller.keyOf 7 := h none numbered .tagged meeting crossing
    Crypto.tagged_correct meeting_start (by decide +kernel) (by decide +kernel) _ _
      (by decide +kernel)
    (by decide +kernel)
  exact absurd hsame (by decide)

end World

end MessageU.System
