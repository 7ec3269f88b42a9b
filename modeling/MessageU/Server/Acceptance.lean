import MessageU.Server.Limits

/-!
# Requests that are not refused

A request is refused for what it is, for who sends it or whom it names, for a fault of the database,
or because something has become too large. `Acceptable` is a request of which the first two are not
true: it is well formed, and the clients that it names are registered. They stay registered, so that
a request that is acceptable when it arrives is acceptable at every call that its handler makes.
`Room` is what is left to ask of the tables at a call, and `granted_call` that the handler then goes
on to the answer that belongs to the request, whose code is 1400 above the one of the request.
-/

set_option autoImplicit false
set_option relaxedAutoImplicit false

namespace MessageU.Server

open Library

/-- A request that is well formed and names registered clients. -/
structure Acceptable (tables : Tables) (request : Bytes) : Prop where
  header : ValidHeader request
  requester : tables.Registered (requesterIdOf request)
  kind : (codeOf request ∈ [requestClientsList, requestWaitingMessages] ∧
      request.length = headerSize) ∨
    (codeOf request = requestPublicKey ∧ request.length = headerSize + clientIdSize ∧
      tables.Registered (requestedIdOf request)) ∨
    (codeOf request = requestSendMessage ∧ minLen ≤ request.length ∧ ValidMessage request ∧
      tables.Registered (requestedIdOf request))

/-- What the server has for a client fits its answers, and there is one more message ID. -/
structure Room (limit : Option ℕ) (tables : Tables) (clientId : Bytes) : Prop where
  list : (clientListPayload (tables.otherClients clientId)).length < 2 ^ 32
  mailbox : Deliverable limit (tables.waitingFor clientId)
  sequence : tables.sequence + 1 < 2 ^ 32

instance (limit : Option ℕ) (tables : Tables) (clientId : Bytes) :
    Decidable (Room limit tables clientId) :=
  decidable_of_iff ((clientListPayload (tables.otherClients clientId)).length < 2 ^ 32 ∧
      (¬limit.any (· < (tables.waitingFor clientId).length) ∧
        (∀ message ∈ tables.waitingFor clientId, message.id < 2 ^ 32) ∧
        ((tables.waitingFor clientId).map fun message ↦
          recordHeaderSize + message.content.length).sum < 2 ^ 32) ∧ tables.sequence + 1 < 2 ^ 32)
    ⟨fun h ↦ ⟨h.1, ⟨h.2.1.1, h.2.1.2.1, h.2.1.2.2⟩, h.2.2⟩,
      fun h ↦ ⟨h.list, ⟨h.mailbox.number, h.mailbox.id, h.mailbox.size⟩, h.sequence⟩⟩

/-- The answer to a request has the code that belongs to the request. -/
def Granted (request response : Bytes) : Prop :=
  responseCode response = codeOf request + 1400

/-- The stages of a request that is being granted. -/
def Stage.Granting (limit : Option ℕ) (request : Bytes) : Stage → Prop
  | .findRequester | .touchRequester => True
  | .register => False
  | .listClients => codeOf request = requestClientsList
  | .fetchKey => codeOf request = requestPublicKey
  | .fetchMessages => codeOf request = requestWaitingMessages
  | .removeMessages messages => codeOf request = requestWaitingMessages ∧
    ¬limit.any (· < messages.length) ∧ (messages.flatMap recordBytes).length < 2 ^ 32
  | .findTarget | .storeMessage => codeOf request = requestSendMessage

/-- A request that is being granted, or has been. -/
def Progress.Granting (limit : Option ℕ) (request : Bytes) : Progress → Prop
  | .answer response => Granted request response
  | .next stage => stage.Granting limit request

section Request

variable {limit : Option ℕ} {tables after : Tables} {request : Bytes} {ambient : Ambient}
  {stage : Stage}

theorem Acceptable.of_extends (h : Acceptable tables request)
    (hextends : tables.identities <+: after.identities) : Acceptable after request where
  header := h.header
  requester := h.requester.of_extends hextends
  kind := h.kind.imp_right (Or.imp
    (fun hkey ↦ ⟨hkey.1, hkey.2.1, hkey.2.2.of_extends hextends⟩)
    fun hmessage ↦ ⟨hmessage.1, hmessage.2.1, hmessage.2.2.1, hmessage.2.2.2.of_extends hextends⟩)

/-- An acceptable request is no registration. -/
theorem Acceptable.not_register (h : Acceptable tables request) :
    codeOf request ≠ requestRegister := by
  rcases h.kind with ⟨hcode, -⟩ | ⟨hcode, -⟩ | ⟨hcode, -⟩
  · rintro heq
    simp [heq] at hcode
  · simp [hcode]
  · simp [hcode]

theorem Acceptable.target (h : Acceptable tables request)
    (hcode : codeOf request ∈ [requestPublicKey, requestSendMessage]) :
    tables.Registered (requestedIdOf request) ∧ (codeOf request = requestPublicKey →
      request.length = headerSize + clientIdSize) ∧
        (codeOf request = requestSendMessage → ValidMessage request) := by
  rcases h.kind with ⟨hother, -⟩ | ⟨hkey, hlength, htarget⟩ | ⟨hmessage, -, hvalid, htarget⟩
  · simp only [List.mem_cons, List.not_mem_nil, or_false] at hcode hother
    rcases hother with heq | heq <;> simp [heq] at hcode
  · exact ⟨htarget, fun _ ↦ hlength, fun heq ↦ by simp [hkey] at heq⟩
  · exact ⟨htarget, fun heq ↦ by simp [hmessage] at heq, fun _ ↦ hvalid⟩

/-- An acceptable request is taken up. -/
theorem Acceptable.start (h : Acceptable tables request) :
    start request = .next .findRequester := by
  rw [Server.start, if_pos h.header, if_neg h.not_register]

/-- An acceptable request is routed to the handler of its code. -/
theorem Acceptable.routed (h : Acceptable tables request) :
    (routed request).Granting limit request := by
  rcases h.kind with ⟨hcode, hlength⟩ | ⟨hcode, hlength, -⟩ | ⟨hcode, hlength, -⟩
  · rw [List.mem_cons, List.mem_singleton] at hcode
    rcases hcode with hcode | hcode
    · rw [Server.routed, if_pos hcode, if_pos hlength]
      exact hcode
    · rw [Server.routed, if_neg (by simp [hcode]), if_neg (by simp [hcode]), if_pos hcode,
        if_pos hlength]
      exact hcode
  · rw [Server.routed, if_neg (by simp [hcode]), if_pos hcode, if_pos hlength]
    exact hcode
  · rw [Server.routed, if_neg (by simp [hcode]), if_neg (by simp [hcode]), if_neg (by simp [hcode]),
      if_pos hcode, if_pos hlength]
    exact hcode

/-- A response that fits its size field has its code. -/
theorem granted_caught {code : ℕ} {payload : Bytes} (hrequest : codeOf request + 1400 = code)
    (hcode : code < 2 ^ 16) (hsize : payload.length < 2 ^ 32) :
    Granted request (caught (buildResponse code payload)) := by
  rw [Granted, caught_buildResponse hcode hsize, responseCode_responseFrame hcode, hrequest]

/-- The records of messages that can be delivered fit a response. -/
theorem Deliverable.flatMap_length {clientId : Bytes} (hstore : Store tables)
    (h : Deliverable limit (tables.waitingFor clientId)) :
    ((tables.waitingFor clientId).flatMap recordBytes).length < 2 ^ 32 := by
  rw [flatMap_recordBytes_length fun message hmessage ↦ (hstore.waiting hmessage).2]
  exact h.size

/-- A call that does not fail brings an acceptable request closer to the answer that belongs to it.
Assumes: room for what the call answers. -/
theorem granted_call (hstore : Store tables) (h : Acceptable tables request)
    (hroom : Room limit tables (requesterIdOf request)) (hstage : stage.Granting limit request) :
    (stage.resume request ambient ((stage.call request ambient).exec limit tables).2).Granting limit
      request := by
  cases stage with
  | findRequester =>
    have hexec : (Stage.findRequester.call request ambient).exec limit tables = _ :=
      exec_clientExists limit tables (requesterIdOf request)
    have hfound := (find_client_isSome_iff tables (requesterIdOf request)).mpr h.requester
    obtain ⟨found, hfound⟩ := Option.isSome_iff_exists.mp hfound
    rw [hexec, hfound]
    trivial
  | touchRequester => exact h.routed
  | register => exact hstage.elim
  | listClients => exact granted_caught (by rw [hstage]) (by simp) hroom.list
  | fetchKey =>
    have hcode : codeOf request = requestPublicKey := hstage
    obtain ⟨htarget, hlength, -⟩ := h.target (by simp [hcode])
    have hsome := (find_client_isSome_iff tables (requestedIdOf request)).mpr htarget
    rw [Option.isSome_map] at hsome
    obtain ⟨row, hfound⟩ := Option.isSome_iff_exists.mp hsome
    have hkey := (hstore.clients row (List.mem_of_find?_eq_some hfound)).publicKey
    have hexec : (Stage.fetchKey.call request ambient).exec limit tables = _ :=
      exec_getPublicKeyById limit tables (requestedIdOf request)
    rw [hexec, hfound]
    show (if row.publicKey.length = publicKeySize then _ else _ : Progress).Granting limit request
    rw [if_pos hkey]
    refine granted_caught (by rw [hcode]) (by simp) ?_
    have hid := requestedIdOf_length_le request
    rw [List.length_append, hkey]
    simp only [clientIdSize, publicKeySize] at hid ⊢
    omega
  | fetchMessages =>
    have hfits : ∀ message ∈ tables.waitingFor (requesterIdOf request), RecordFits message :=
      fun message hmessage ↦ by
        have hencodable := hroom.mailbox.encodable (fun _ ↦ hstore.waiting) message hmessage
        exact ⟨hencodable.id, hencodable.type, hencodable.content⟩
    show (selected (tables.waitingFor (requesterIdOf request))).Granting limit request
    rw [selected, if_pos hfits]
    exact ⟨hstage, hroom.mailbox.number, hroom.mailbox.flatMap_length hstore⟩
  | removeMessages messages =>
    obtain ⟨hcode, hnumber, hsize⟩ := hstage
    have hexec : ((Stage.removeMessages messages).call request ambient).exec limit tables = _ :=
      exec_deleteMessages limit tables (messages.map WaitingMessage.id)
    rw [hexec, List.length_map, if_neg hnumber]
    exact granted_caught (by rw [hcode]) (by simp) hsize
  | findTarget =>
    have hcode : codeOf request = requestSendMessage := hstage
    obtain ⟨htarget, -, hvalid⟩ := h.target (by simp [hcode])
    have hexec : (Stage.findTarget.call request ambient).exec limit tables = _ :=
      exec_clientExists limit tables (requestedIdOf request)
    obtain ⟨found, hfound⟩ := Option.isSome_iff_exists.mp
      ((find_client_isSome_iff tables (requestedIdOf request)).mpr htarget)
    rw [hexec, hfound]
    show (if ValidMessage request then _ else _ : Progress).Granting limit request
    rw [if_pos (hvalid hcode)]
    exact hcode
  | storeMessage =>
    have hcode : codeOf request = requestSendMessage := hstage
    show Granted request (sentResponse (requestedIdOf request) (tables.sequence + 1))
    rw [sentResponse_eq hroom.sequence (requestedIdOf_length_le request), Granted,
      responseCode_responseFrame (by simp), hcode]

end Request

namespace ServerState

/-- The requests of a connection that are not exempt are being granted, or have been. -/
structure Granting (limit : Option ℕ) (exempt : Bytes → Prop) (own : ℕ)
    (server : ServerState Staged) :
    Prop where
  busy : ∀ request ambient stage, server.connections own = .busy request (ambient, stage) →
    exempt request ∨ (Acceptable server.tables request ∧ stage.Granting limit request)
  returned : ∀ request response, server.connections own = .returned request response →
    exempt request ∨ Granted request response

section Granting

variable {limit : Option ℕ} {exempt : Bytes → Prop} {own : ℕ} {server after : ServerState Staged}
  {request : Bytes} {ambient : Ambient} {progress : Progress}

theorem granting_initial (limit : Option ℕ) (exempt : Bytes → Prop) (own : ℕ) :
    Granting limit exempt own (.initial Staged) where
  busy := fun _ _ _ h ↦ by cases h
  returned := fun _ _ h ↦ by cases h

/-- A connection that settles goes on with what is being granted. -/
theorem Granting.settle (hprogress : exempt request ∨
      (Acceptable server.tables request ∧ progress.Granting limit request)) :
    Granting limit exempt own (server.settle own request (stagedOutcome ambient progress)) where
  busy := fun other otherAmbient stage hbusy ↦ by
    rcases busy_of_settle hbusy with ⟨hne, -⟩ | ⟨-, rfl, -, rfl⟩
    · exact absurd rfl hne
    · rw [settle_tables]
      exact hprogress
  returned := fun other response hreturned ↦ by
    cases progress with
    | answer built =>
      simp only [ServerState.settle, stagedOutcome, Function.update_self,
        Connection.returned.injEq] at hreturned
      rw [← hreturned.1, ← hreturned.2]
      exact hprogress.imp_right And.right
    | next stage => simp [ServerState.settle, stagedOutcome] at hreturned

/-- What another connection does leaves the requests of this one as they are. -/
theorem Granting.congr (h : Granting limit exempt own server)
    (hsame : after.connections own = server.connections own)
    (hextends : server.tables.identities <+: after.tables.identities) :
    Granting limit exempt own after where
  busy := fun request ambient stage hbusy ↦
    (h.busy request ambient stage (hsame.symm.trans hbusy)).imp_right fun hgoing ↦
      ⟨hgoing.1.of_extends hextends, hgoing.2⟩
  returned := fun request response hreturned ↦
    h.returned request response (hsame.symm.trans hreturned)

/-- Assumes: a request that arrives at the connection is acceptable or exempt, and a call of its
handler does not fail and finds room. -/
theorem Granting.step (h : Granting limit exempt own server) (hstore : Store server.tables)
    {event : Event}
    (harrive : ∀ request ambient, event = .arrive own request ambient →
      exempt request ∨ Acceptable server.tables request)
    (hcall : ∀ fault, event = .call own fault → fault = false ∧
      ∀ request rest, server.connections own = .busy request rest →
        Room limit server.tables (requesterIdOf request)) :
    Granting limit exempt own (server.stagedStep limit event) := by
  cases event with
  | arrive connection request ambient =>
    by_cases hsame : connection = own
    · subst hsame
      have hstart : exempt request ∨
          (Acceptable server.tables request ∧ (start request).Granting limit request) :=
        (harrive request ambient rfl).imp_right fun hacceptable ↦ ⟨hacceptable, by
          rw [hacceptable.start]
          trivial⟩
      simp only [stagedStep]
      cases hconnection : server.connections connection with
      | idle => exact .settle hstart
      | returned earlier response => exact .settle hstart
      | busy earlier rest => exact h
      | stopped => exact h
    · simp only [stagedStep]
      have hother : ∀ outcome : Outcome Staged,
          Granting limit exempt own (server.settle connection request outcome) := fun outcome ↦
        h.congr (settle_connections_of_ne server request _ (Ne.symm hsame))
          ((settle_tables server connection request outcome).symm ▸ List.prefix_rfl)
      cases server.connections connection with
      | idle => exact hother _
      | returned earlier response => exact hother _
      | busy earlier rest => exact h
      | stopped => exact h
  | call connection fault =>
    simp only [stagedStep]
    cases hconnection : server.connections connection with
    | idle => exact h
    | returned request response => exact h
    | stopped => exact h
    | busy request rest =>
      obtain ⟨ambient, stage⟩ := rest
      have hstep := stageStep limit fault server.tables request ambient stage
      by_cases hsame : connection = own
      · subst hsame
        obtain ⟨rfl, hroom⟩ := hcall fault rfl
        refine .settle ((h.busy request ambient stage hconnection).imp_right fun hgoing ↦ ?_)
        exact ⟨hgoing.1.of_extends hstep.identities,
          granted_call hstore hgoing.1 (hroom request _ hconnection) hgoing.2⟩
      · refine h.congr (settle_connections_of_ne _ request _ (Ne.symm hsame)) ?_
        rw [settle_tables]
        exact hstep.identities

end Granting

end ServerState

end MessageU.Server
