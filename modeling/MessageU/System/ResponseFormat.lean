import MessageU.Client.Replies
import MessageU.Server.Environment

/-!
# The client reads the responses of the server

The server builds its responses with slices and `struct`, and the client takes them apart at offsets
of its own. `Replies` says which answer the server means, in terms of the tables it was shown while
it handled a request, and `ensures_replies` that every request is answered with the bytes of such an
answer: one frame with the length that its header declares.

With `exec_sendAndReceive` and `exec_reply` on the side of the client this gives
`response_understood`: what the server means is what the client recovers, for every request and
whatever the other connections do to the tables meanwhile.
-/

set_option autoImplicit false
set_option relaxedAutoImplicit false

namespace MessageU.System

open Library Client

/-! ### What the server means -/

/-- The answers that a request can have from the tables it was shown. -/
inductive Replies (request : Bytes) (ambient : Server.Ambient) (contents : List Server.Tables) :
    Reply → Prop
  /-- The general error. -/
  | failed : Replies request ambient contents .failed
  /-- The generated ID of a registration. -/
  | registered (id : ClientId) (hcode : Server.codeOf request = 700)
    (hid : id.val = ambient.token) :
    Replies request ambient contents (.registered id)
  /-- Every other client, once. -/
  | listed (tables : Server.Tables) (htables : tables ∈ contents)
    (hcode : Server.codeOf request = 701) (clients : List (Bytes × Bytes))
    (hids : (clients.map Prod.fst).Nodup)
    (hclients : ∀ id name, (id, name) ∈ clients ↔ id ≠ Server.requesterIdOf request ∧
      ∃ row ∈ tables.clients, row.id = id ∧ row.userName = name) :
    Replies request ambient contents (.listed clients)
  /-- The requested ID and the key that is stored for it. -/
  | key (tables : Server.Tables) (htables : tables ∈ contents)
    (hcode : Server.codeOf request = 702) (id : ClientId) (publicKey : FixedBytes publicKeySize)
    (hid : id.val = Server.requestedIdOf request)
    (hrow : ∃ row ∈ tables.clients, row.id = id.val ∧ row.publicKey = publicKey.val) :
    Replies request ambient contents (.key id publicKey)
  /-- The target and the ID of the message that was stored. -/
  | sent (tables : Server.Tables) (htables : tables ∈ contents)
    (hcode : Server.codeOf request = 703) (target : ClientId)
    (htarget : target.val = Server.requestedIdOf request) :
    Replies request ambient contents (.sent target (tables.sequence + 1))
  /-- The messages that waited for the requester. -/
  | waiting (tables : Server.Tables) (htables : tables ∈ contents)
    (hcode : Server.codeOf request = 704) :
    Replies request ambient contents
      (.waiting (tables.waitingFor (Server.requesterIdOf request)))

/-- The bytes of an answer, in a frame that it fits. -/
def Encodes (request : Bytes) (ambient : Server.Ambient) (contents : List Server.Tables)
    (response : Bytes) : Prop :=
  ∃ reply, Replies request ambient contents reply ∧ reply.Encodable ∧
    reply.payload.length < 2 ^ 32 ∧ response = reply.bytes

/-- What a request has come to, with what the code behind it relies on. -/
def Fits (request : Bytes) (ambient : Server.Ambient) :
    Server.Progress → Server.Shown → Prop
  | .answer response, shown =>
    (∀ tables ∈ shown.contents, Server.Store tables) →
      Encodes request ambient shown.contents response
  | .next .findRequester, _ | .next .touchRequester, _ => Server.codeOf request ≠ 700
  | .next .register, _ => Server.codeOf request = 700
  | .next .listClients, _ => Server.codeOf request = 701
  | .next .fetchKey, _ =>
    Server.codeOf request = 702 ∧ request.length = Server.headerSize + Server.clientIdSize
  | .next .fetchMessages, _ => Server.codeOf request = 704
  | .next (.removeMessages messages), shown =>
    Server.codeOf request = 704 ∧ (∀ message ∈ messages, Server.RecordFits message) ∧
      ∃ tables ∈ shown.contents, messages = tables.waitingFor (Server.requesterIdOf request)
  | .next .findTarget, _ | .next .storeMessage, _ =>
    Server.codeOf request = 703 ∧ Server.minLen ≤ request.length

section Server

variable {request : Bytes} {ambient : Server.Ambient}

/-- The general error is an answer. -/
theorem encodes_error (contents : List Server.Tables) :
    Encodes request ambient contents Server.errorResponse :=
  ⟨.failed, .failed, trivial, by simp [Reply.payload], rfl⟩

theorem fits_error (shown : Server.Shown) :
    Fits request ambient (.answer Server.errorResponse) shown :=
  fun _ ↦ encodes_error shown.contents

/-- A payload that is framed, or answered with the general error because it is too long. -/
theorem encodes_caught {contents : List Server.Tables} (reply : Reply)
    (hreply : Replies request ambient contents reply) (hfits : reply.Encodable) :
    Encodes request ambient contents
      (Server.caught (Server.buildResponse reply.code reply.payload)) := by
  by_cases hlong : 2 ^ 32 ≤ reply.payload.length
  · rw [Server.caught_buildResponse_of_le hlong]
    exact encodes_error contents
  · rw [Server.caught_buildResponse reply.code_lt (not_le.mp hlong)]
    exact ⟨reply, hreply, hfits, not_le.mp hlong, rfl⟩

/-- The other clients in the tables. -/
theorem replies_listed {contents : List Server.Tables} {tables : Server.Tables}
    (htables : tables ∈ contents) (hcode : Server.codeOf request = 701) :
    Replies request ambient contents
      (.listed (tables.otherClients (Server.requesterIdOf request))) := by
  refine .listed tables htables hcode _ ?_ fun id name ↦ ?_
  · have hids : (tables.otherClients (Server.requesterIdOf request)).map Prod.fst =
        (tables.clients.filter fun row ↦ row.id ≠ Server.requesterIdOf request).map
          Server.ClientRow.id := by
      rw [Server.Tables.otherClients, List.map_map]
      rfl
    rw [hids]
    exact tables.clientIds_nodup.sublist (List.filter_sublist.map _)
  · rw [mem_otherClients]
    constructor
    · rintro ⟨row, hrow, hother, heq⟩
      cases heq
      exact ⟨hother, row, hrow, rfl, rfl⟩
    · rintro ⟨hother, row, hrow, rfl, rfl⟩
      exact ⟨row, hrow, hother, rfl⟩

/-- Where a request of an existing requester goes. -/
theorem fits_routed (shown : Server.Shown) :
    Fits request ambient (Server.routed request) shown := by
  unfold Server.routed
  split_ifs with hlist _ hkey hsize hwaiting _ hsend hmin
  · exact hlist
  · exact fits_error shown
  · exact ⟨hkey, hsize⟩
  · exact fits_error shown
  · exact hwaiting
  · exact fits_error shown
  · exact ⟨hsend, hmin⟩
  · exact fits_error shown
  · exact fits_error shown

/-- What a call of a request does. -/
theorem fits_step {stage : Server.Stage} {shown : Server.Shown} {tables after : Server.Tables}
    {row : Option Server.MessageRow} {progress : Server.Progress}
    (h : Fits request ambient (.next stage) shown)
    (hstep : Server.StageStep tables request ambient stage after row progress) :
    Fits request ambient progress (shown.tables tables) := by
  have hshown : tables ∈ (shown.tables tables).contents := List.mem_cons_self
  cases hstep with
  | failed => exact fits_error _
  | requesterFound => exact h
  | requesterTouched => exact fits_routed _
  | registered =>
    intro _
    exact ⟨.registered ⟨ambient.token, ambient.token_length⟩, .registered _ h rfl, trivial,
      by simp [Reply.payload, ambient.token_length], rfl⟩
  | clientsListed =>
    intro hstore
    refine encodes_caught (.listed (tables.otherClients (Server.requesterIdOf request)))
      (replies_listed hshown h) fun client hclient ↦ ?_
    obtain ⟨row, hrow, -, rfl⟩ := mem_otherClients.mp hclient
    exact ((hstore tables hshown).clients row hrow).id
  | keyFetched hrow hid =>
    intro hstore
    obtain ⟨hcode, hsize⟩ := h
    have hlength : (Server.requestedIdOf request).length = clientIdSize :=
      slice_length hsize.ge
    have hkey := ((hstore tables hshown).clients _ hrow).publicKey
    exact encodes_caught (.key ⟨Server.requestedIdOf request, hlength⟩ ⟨_, hkey⟩)
      (.key tables hshown hcode _ _ rfl ⟨_, hrow, hid, rfl⟩) trivial
  | messagesFetched =>
    unfold Server.selected
    split_ifs with hfits
    · exact ⟨h, hfits, tables, hshown, rfl⟩
    · exact fits_error _
  | messagesRemoved messages =>
    intro hstore
    obtain ⟨hcode, hfits, earlier, hearlier, rfl⟩ := h
    have hseen : earlier ∈ (shown.tables tables).contents := List.mem_cons_of_mem _ hearlier
    refine encodes_caught (.waiting _) (.waiting earlier hseen hcode) fun message hmessage ↦ ?_
    obtain ⟨hid, htype, hcontent⟩ := hfits message hmessage
    exact ⟨(hstore earlier hseen).fromClient_length hmessage, hid, htype, hcontent⟩
  | targetFound => exact h
  | messageStored =>
    intro _
    obtain ⟨hcode, hsize⟩ := h
    have hlength : (Server.requestedIdOf request).length = clientIdSize :=
      slice_length (le_trans (by simp) hsize)
    by_cases hnumber : tables.sequence + 1 < 2 ^ 32
    · rw [Server.sentResponse_eq hnumber (Server.requestedIdOf_length_le request)]
      exact ⟨.sent ⟨_, hlength⟩ _, .sent tables hshown hcode _ rfl, hnumber,
        by simp [Reply.payload, hlength], rfl⟩
    · rw [Server.sentResponse_eq_error (not_lt.mp hnumber)]
      exact encodes_error _

/-- Every request is answered with the bytes of an answer. -/
theorem ensures_replies (limit : Option ℕ) (request : Bytes) (ambient : Server.Ambient) :
    (Server.requestHandlerMain request ambient).Ensures (Server.Shows limit)
      (fun outcome shown ↦ ∃ response, outcome = .ok response ∧
        ((∀ tables ∈ shown.contents, Server.Store tables) →
          Encodes request ambient shown.contents response)) .nothing := by
  have hanswer : ∀ response shown, Fits request ambient (.answer response) shown →
      ∃ sent, Except.ok response = (Except.ok sent : Except Server.PyError Bytes) ∧
        ((∀ tables ∈ shown.contents, Server.Store tables) →
          Encodes request ambient shown.contents sent) :=
    fun response _ h ↦ ⟨response, rfl, h⟩
  rw [Server.requestHandlerMain_eq]
  refine Server.ensures_progress hanswer (fun _ _ _ ↦ fits_error _)
    (fun stage _ tables h ↦ fits_step h (Server.stageStep limit false tables request ambient stage))
    (Server.start request) .nothing ?_
  unfold Server.start
  split_ifs with hvalid hcode
  · exact hcode
  · exact fits_error _
  · exact hcode
  · exact fits_error _

end Server

/-! ### What the client recovers -/

/-- A response is one frame of a connection, with the code that belongs to the request or the
general error without payload. -/
structure Framed (request response : Bytes) (reply : Reply) : Prop where
  length : headerSize ≤ response.length ∧ response.length = headerSize + declaredSize response
  code : codeOf response = reply.code
  belongs : (reply.code = 9000 ∧ response.length = headerSize) ∨
    (Server.codeOf request, reply.code) ∈
      [(700, 2100), (701, 2101), (702, 2102), (703, 2103), (704, 2104)]

theorem framed_reply {request : Bytes} {ambient : Server.Ambient} {contents : List Server.Tables}
    {reply : Reply} (hreply : Replies request ambient contents reply)
    (hpayload : reply.payload.length < 2 ^ 32) : Framed request reply.bytes reply where
  length := responseFrame_framed hpayload
  code := codeOf_reply reply
  belongs := by
    cases hreply with
    | failed => exact .inl ⟨rfl, Reply.bytes_length .failed⟩
    | registered id hcode => exact .inr (by simp [hcode, Reply.code])
    | listed tables _ hcode => exact .inr (by simp [hcode, Reply.code])
    | key tables _ hcode => exact .inr (by simp [hcode, Reply.code])
    | sent tables _ hcode => exact .inr (by simp [hcode, Reply.code])
    | waiting tables _ hcode => exact .inr (by simp [hcode, Reply.code])

/-- A client takes a response from its connection as one frame and recovers the answer in it. -/
structure ReadBack (crypto : Crypto) (state : ClientState) (reply : Reply) (response : Bytes) :
    Prop where
  received : ∀ request rest,
    (sendAndReceive request).exec (response ++ rest) = (rest, .ok response)
  recovered : ∃ after, (responseClientMain response).exec crypto state = (after, .ok ()) ∧
    Recovered crypto state reply after

/-- The encoders of the server and the parsers of the client agree. For every request, whatever
reachable tables the other connections leave at its calls and whichever of these fail, the server
answers with one frame, and every client that is ready for the answer recovers what the server
means. -/
theorem response_understood (limit : Option ℕ) (request : Bytes) (ambient : Server.Ambient) :
    (Server.requestHandlerMain request ambient).Ensures (Server.Shows limit)
      (fun outcome shown ↦ ∃ response, outcome = .ok response ∧
        ((∀ tables ∈ shown.contents, Server.Reachable limit tables) →
          ∃ reply, Replies request ambient shown.contents reply ∧ Framed request response reply ∧
            ∀ crypto state, Prepared crypto state reply → ReadBack crypto state reply response))
      .nothing := by
  refine (ensures_replies limit request ambient).mono ?_
  rintro outcome shown ⟨response, rfl, hencodes⟩
  refine ⟨response, rfl, fun hreachable ↦ ?_⟩
  obtain ⟨reply, hreply, hfits, hpayload, rfl⟩ :=
    hencodes fun tables htables ↦ (hreachable tables htables).store
  refine ⟨reply, hreply, framed_reply hreply hpayload, fun crypto state hready ↦ ⟨?_, ?_⟩⟩
  · exact fun data rest ↦
      exec_sendAndReceive data (.build reply.code reply.payload hpayload) rest
  · exact exec_reply crypto state hfits hready

/-- A client that registers on empty tables takes the ID that was drawn for it. -/
theorem response_understood_registration : ∃ response after,
    (responseClientMain response).exec .tagged freshClient = (after, .ok ()) ∧
      after.ctx.clientID.val = Server.soloRow.id := by
  have hstart : Server.start Server.soloRegistration = .next .register := by decide +kernel
  have hresume : Server.Stage.register.resume Server.soloRegistration Server.soloAmbient
      ((Server.Stage.register.call Server.soloRegistration Server.soloAmbient).exec none
        Server.Tables.empty).2 =
      .answer (Server.responseFrame Server.responseRegister Server.soloRow.id) := by decide +kernel
  have hcode : codeOf (Server.responseFrame Server.responseRegister Server.soloRow.id) = 2100 := by
    decide
  generalize Server.soloRegistration = request at hstart hresume
  generalize Server.responseFrame Server.responseRegister Server.soloRow.id =
    answer at hresume hcode
  have hunderstood := response_understood none request Server.soloAmbient
  rw [Server.requestHandlerMain_eq, hstart] at hunderstood
  have hanswered := Server.ensures_tables hunderstood Server.Tables.empty
  rw [hresume] at hanswered
  obtain ⟨response, hresponse, hreply⟩ := hanswered
  cases hresponse
  have hreachable : ∀ tables ∈ (Server.Shown.nothing.tables Server.Tables.empty).contents,
      Server.Reachable none tables :=
    List.forall_mem_singleton.mpr (Server.reachable_empty none)
  obtain ⟨reply, hmeant, hframed, hclient⟩ := hreply hreachable
  have hregistered := hframed.code.symm.trans hcode
  cases hmeant with
  | registered id hcode hid =>
    obtain ⟨after, hexec, hrecovered⟩ := (hclient .tagged freshClient ⟨true, rfl⟩).recovered
    cases hrecovered with
    | registered id after hctx hfile =>
      exact ⟨answer, after, hexec, by rw [hctx]; exact hid⟩
  | failed => cases hregistered
  | listed => cases hregistered
  | key => cases hregistered
  | sent => cases hregistered
  | waiting => cases hregistered

end MessageU.System
