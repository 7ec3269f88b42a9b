import MessageU.System.ResponseFormat

/-!
# What the answers of a running server mean

`Replies` says what the server means with an answer in terms of the tables it was shown. In a run
these tables are gone when the client reads the answer. `Intends` keeps of them what lasts: the
identities of the clients, which no step removes. `AnswersSound` is the invariant of a run: every
answer that was built is the bytes of a reply that intends what the identities say
(`means_answered`).
-/

set_option autoImplicit false
set_option relaxedAutoImplicit false

namespace MessageU.System

open Library Client

/-- The ID, the name and the public key of a registered client. -/
abbrev Identity := Bytes × Bytes × Bytes

/-- What a reply to a request says of the clients. -/
def Intends (identities : List Identity) (request : Bytes) : Reply → Prop
  | .failed => True
  | .registered id => Server.codeOf request = 700 ∧
    (id.val, Server.rawNameOf request, Server.publicKeyOf request) ∈ identities
  | .listed clients => Server.codeOf request = 701 ∧ ∀ client ∈ clients,
    client.1 ≠ Server.requesterIdOf request ∧ ∃ key, (client.1, client.2, key) ∈ identities
  | .key id publicKey => Server.codeOf request = 702 ∧ id.val = Server.requestedIdOf request ∧
    ∃ name, (id.val, name, publicKey.val) ∈ identities
  | .sent target _ => Server.codeOf request = 703 ∧ target.val = Server.requestedIdOf request
  | .waiting _ => Server.codeOf request = 704

theorem Intends.mono {identities more : List Identity} {request : Bytes} {reply : Reply}
    (h : Intends identities request reply) (hmore : identities ⊆ more) :
    Intends more request reply := by
  cases reply with
  | failed => trivial
  | registered id => exact ⟨h.1, hmore h.2⟩
  | listed clients =>
    refine ⟨h.1, fun client hclient ↦ ⟨(h.2 client hclient).1, ?_⟩⟩
    obtain ⟨key, hkey⟩ := (h.2 client hclient).2
    exact ⟨key, hmore hkey⟩
  | key id publicKey =>
    obtain ⟨name, hname⟩ := h.2.2
    exact ⟨h.1, h.2.1, name, hmore hname⟩
  | sent target msgId => exact h
  | waiting messages => exact h

/-- A response is the bytes of a reply that intends something. -/
def Means (identities : List Identity) (request response : Bytes) : Prop :=
  ∃ reply, Intends identities request reply ∧ reply.Encodable ∧ reply.payload.length < 2 ^ 32 ∧
    response = reply.bytes

theorem Means.mono {identities more : List Identity} {request response : Bytes}
    (h : Means identities request response) (hmore : identities ⊆ more) :
    Means more request response := by
  obtain ⟨reply, hintends, hrest⟩ := h
  exact ⟨reply, hintends.mono hmore, hrest⟩

theorem means_error (identities : List Identity) (request : Bytes) :
    Means identities request Server.errorResponse :=
  ⟨.failed, trivial, trivial, by simp [Reply.payload], rfl⟩

/-- A payload that is framed, or answered with the general error because it is too long. -/
theorem means_caught {identities : List Identity} {request : Bytes} (reply : Reply)
    (hintends : Intends identities request reply) (hfits : reply.Encodable) :
    Means identities request (Server.caught (Server.buildResponse reply.code reply.payload)) := by
  by_cases hlong : 2 ^ 32 ≤ reply.payload.length
  · rw [Server.caught_buildResponse_of_le hlong]
    exact means_error identities request
  · rw [Server.caught_buildResponse reply.code_lt (not_le.mp hlong)]
    exact ⟨reply, hintends, hfits, not_le.mp hlong, rfl⟩

/-- The code of a request at a stage, with the sizes that have been checked. -/
def Coded (request : Bytes) : Server.Stage → Prop
  | .findRequester | .touchRequester => Server.codeOf request ≠ 700
  | .register => Server.codeOf request = 700
  | .listClients => Server.codeOf request = 701
  | .fetchKey =>
    Server.codeOf request = 702 ∧ request.length = Server.headerSize + Server.clientIdSize
  | .fetchMessages | .removeMessages _ => Server.codeOf request = 704
  | .findTarget | .storeMessage =>
    Server.codeOf request = 703 ∧ Server.minLen ≤ request.length

/-- What a request has come to, with its code. -/
def CodedProgress (identities : List Identity) (request : Bytes) : Server.Progress → Prop
  | .answer response => Means identities request response
  | .next stage => Coded request stage

theorem codedProgress_start (identities : List Identity) (request : Bytes) :
    CodedProgress identities request (Server.start request) := by
  unfold Server.start
  split_ifs with hvalid hcode
  · exact hcode
  · exact means_error identities request
  · exact hcode
  · exact means_error identities request

theorem codedProgress_routed (identities : List Identity) (request : Bytes) :
    CodedProgress identities request (Server.routed request) := by
  unfold Server.routed
  split_ifs with hlist _ hkey hsize hwaiting _ hsend hmin
  · exact hlist
  · exact means_error identities request
  · exact ⟨hkey, hsize⟩
  · exact means_error identities request
  · exact hwaiting
  · exact means_error identities request
  · exact ⟨hsend, hmin⟩
  · exact means_error identities request
  · exact means_error identities request

section Step

variable {tables after : Server.Tables} {request : Bytes} {ambient : Server.Ambient}
  {stage : Server.Stage} {row : Option Server.MessageRow} {progress : Server.Progress}

/-- A row is an identity. -/
theorem identity_mem {row : Server.ClientRow} (hrow : row ∈ tables.clients) :
    (row.id, row.userName, row.publicKey) ∈ tables.identities :=
  List.mem_map_of_mem hrow

/-- A call goes on with its code or answers what the tables say. -/
theorem codedProgress_step (hstore : Server.Store tables) (hready : stage.Ready tables request)
    (hcoded : Coded request stage)
    (hstep : Server.StageStep tables request ambient stage after row progress) :
    CodedProgress after.identities request progress := by
  cases hstep with
  | failed => exact means_error _ request
  | requesterFound => exact hcoded
  | requesterTouched => exact codedProgress_routed _ request
  | registered hinsert =>
    refine ⟨.registered ⟨ambient.token, ambient.token_length⟩, ⟨hcoded, ?_⟩, trivial,
      by simp [Reply.payload, ambient.token_length], rfl⟩
    rw [Server.Tables.identities_insertClient hinsert]
    exact List.mem_append_right _ List.mem_cons_self
  | clientsListed =>
    refine means_caught (.listed (tables.otherClients (Server.requesterIdOf request)))
      ⟨hcoded, fun client hclient ↦ ?_⟩ fun client hclient ↦ ?_
    · obtain ⟨row, hrow, hother, rfl⟩ := mem_otherClients.mp hclient
      exact ⟨hother, row.publicKey, identity_mem hrow⟩
    · obtain ⟨row, hrow, -, rfl⟩ := mem_otherClients.mp hclient
      exact (hstore.clients row hrow).id
  | @keyFetched row hrow hid =>
    have hlength : (Server.requestedIdOf request).length = clientIdSize := slice_length hcoded.2.ge
    have hkey := (hstore.clients _ hrow).publicKey
    refine means_caught (.key ⟨Server.requestedIdOf request, hlength⟩ ⟨_, hkey⟩)
      ⟨hcoded.1, rfl, row.userName, ?_⟩ trivial
    have hidentity := identity_mem hrow
    rwa [hid] at hidentity
  | messagesFetched =>
    unfold Server.selected
    split_ifs
    · exact hcoded
    · exact means_error _ request
  | messagesRemoved messages => exact means_caught (.waiting messages) hcoded hready.2.2
  | targetFound => exact hcoded
  | messageStored =>
    obtain ⟨hcode, hsize⟩ := hcoded
    have hlength : (Server.requestedIdOf request).length = clientIdSize :=
      slice_length (le_trans (by simp) hsize)
    by_cases hnumber : tables.sequence + 1 < 2 ^ 32
    · rw [Server.sentResponse_eq hnumber (Server.requestedIdOf_length_le request)]
      exact ⟨.sent ⟨_, hlength⟩ _, ⟨hcode, rfl⟩, hnumber, by simp [Reply.payload, hlength], rfl⟩
    · rw [Server.sentResponse_eq_error (not_lt.mp hnumber)]
      exact means_error _ request

end Step

/-! ### Runs of the server -/

/-- What holds at every moment of a run of the server. -/
structure AnswersSound (server : Server.ServerState Server.Staged) : Prop where
  sound : Server.ServerState.Sound server
  coded : ∀ connection request ambient stage,
    server.connections connection = .busy request (ambient, stage) → Coded request stage
  answered : ∀ answer ∈ server.answered,
    Means server.tables.identities answer.request answer.response
  returned : ∀ connection request response,
    server.connections connection = .returned request response →
      Means server.tables.identities request response

theorem answersSound_initial : AnswersSound (.initial Server.Staged) where
  sound := Server.ServerState.sound_initial
  coded := fun _ _ _ _ h ↦ by cases h
  answered := fun _ h ↦ absurd h List.not_mem_nil
  returned := fun _ _ _ h ↦ by cases h

/-- A response that has been returned after settling was returned before, or is the answer. -/
theorem returned_of_settle {server : Server.ServerState Server.Staged} {connection other : ℕ}
    {request otherRequest response : Bytes} {ambient : Server.Ambient} {progress : Server.Progress}
    (h : (server.settle connection request
      (Server.ServerState.stagedOutcome ambient progress)).connections other =
        .returned otherRequest response) :
    server.connections other = .returned otherRequest response ∨
      (otherRequest = request ∧ progress = .answer response) := by
  by_cases hsame : other = connection
  · subst hsame
    cases progress with
    | answer built =>
      simp only [Server.ServerState.settle, Server.ServerState.stagedOutcome, Function.update_self,
        Server.Connection.returned.injEq] at h
      exact .inr ⟨h.1.symm, by rw [h.2]⟩
    | next stage => simp [Server.ServerState.settle, Server.ServerState.stagedOutcome] at h
  · rw [Server.ServerState.settle_connections_of_ne server request _ hsame] at h
    exact .inl h

/-- What a connection that settles has returned is the answer. -/
theorem answer_of_settle {server : Server.ServerState Server.Staged} {connection : ℕ}
    {request otherRequest response : Bytes} {ambient : Server.Ambient} {progress : Server.Progress}
    (h : (server.settle connection request
      (Server.ServerState.stagedOutcome ambient progress)).connections connection =
        .returned otherRequest response) : progress = .answer response := by
  cases progress with
  | answer built =>
    simp only [Server.ServerState.settle, Server.ServerState.stagedOutcome, Function.update_self,
      Server.Connection.returned.injEq] at h
    rw [h.2]
  | next stage => simp [Server.ServerState.settle, Server.ServerState.stagedOutcome] at h

/-- A request that comes to its progress keeps the answers sound. Assumes: tables with at least the
identities of before. -/
theorem AnswersSound.settle {server : Server.ServerState Server.Staged} (h : AnswersSound server)
    {after : Server.Tables} {row : Option Server.MessageRow} {connection : ℕ} {request : Bytes}
    {ambient : Server.Ambient} {progress : Server.Progress}
    (hsound : Server.ServerState.Sound ((server.afterCall after row).settle connection request
      (Server.ServerState.stagedOutcome ambient progress)))
    (hextends : server.tables.identities <+: after.identities)
    (hprogress : CodedProgress after.identities request progress) :
    AnswersSound ((server.afterCall after row).settle connection request
      (Server.ServerState.stagedOutcome ambient progress)) where
  sound := hsound
  coded := fun other otherRequest otherAmbient stage hbusy ↦ by
    rcases Server.ServerState.busy_of_settle hbusy with ⟨-, hold⟩ | ⟨-, rfl, -, rfl⟩
    · exact h.coded other otherRequest otherAmbient stage hold
    · exact hprogress
  answered := fun answer hanswer ↦ by
    rw [Server.ServerState.settle_answered, List.mem_append] at hanswer
    rw [Server.ServerState.settle_tables]
    rcases hanswer with hold | hnew
    · exact (h.answered answer hold).mono hextends.subset
    · cases progress with
      | answer response =>
        rw [List.mem_singleton.mp hnew]
        exact hprogress
      | next stage => cases hnew
  returned := fun other otherRequest response hreturned ↦ by
    rw [Server.ServerState.settle_tables]
    rcases returned_of_settle hreturned with hold | ⟨rfl, rfl⟩
    · exact (h.returned other otherRequest response hold).mono hextends.subset
    · exact hprogress

theorem AnswersSound.step {server : Server.ServerState Server.Staged} (h : AnswersSound server)
    (limit : Option ℕ) (event : Server.Event) :
    AnswersSound (Server.ServerState.stagedStep limit server event) := by
  refine Server.ServerState.stagedStep_cases (motive := AnswersSound) limit server event h
    (fun connection request ambient _ _ ↦ ?_)
    fun connection fault request ambient stage after row progress _ hbusy hstep ↦ ?_
  · have hsettled : AnswersSound ((server.afterCall server.tables none).settle connection request
        (Server.ServerState.stagedOutcome ambient (Server.start request))) := by
      refine h.settle ?_ List.prefix_rfl (codedProgress_start _ request)
      simpa [Server.ServerState.afterCall] using h.sound.arrive connection request ambient
    simpa [Server.ServerState.afterCall] using hsettled
  · exact h.settle (h.sound.call hbusy hstep) hstep.identities
      (codedProgress_step h.sound.store (h.sound.ready connection request ambient stage hbusy)
        (h.coded connection request ambient stage hbusy) hstep)

end MessageU.System
