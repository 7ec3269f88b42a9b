import Mathlib.Algebra.Order.BigOperators.Group.List
import MessageU.Server.Sequential

/-!
# What the limits of the wire fields do to a request

A message ID and a payload length have four bytes each, and a `DELETE` can name only so many rows.
Where a limit is exceeded the handler raises, and the catch-all answers with the general error. Two
properties depend on where the handler was by then.

An error answer is meant to say that nothing happened. `error_answer_unchanged_iff` says for which
requests it does: all but those that raise behind their commit, a message stored under an ID that no
longer fits and a pull whose payload is too long (`ErrorIsEarly`). A mailbox is meant to be
deliverable: `pull_delivers_iff` says that a pull is answered with all waiting messages exactly when
their number, their IDs and their total size are within the limits (`Deliverable`). Both limits are
reached by a client that floods itself (`error_answer_after_delete`, `mailbox_undeliverable`).
-/

set_option autoImplicit false
set_option relaxedAutoImplicit false

namespace MessageU.Server

open Library

/-! ### Error answers -/

/-- The messages and the identities of the clients are the same; a `LastSeen` may differ. -/
structure Unchanged (before after : Tables) : Prop where
  messages : after.messages = before.messages
  identities : after.identities = before.identities

theorem Unchanged.refl (tables : Tables) : Unchanged tables tables :=
  ⟨rfl, rfl⟩

theorem unchanged_updateLastSeen (tables : Tables) (clientId : Bytes) (now : Timestamp) :
    Unchanged tables (tables.updateLastSeen clientId now) :=
  ⟨rfl, tables.identities_updateLastSeen clientId now⟩

/-- A request that the general error can only answer before anything was committed: a message that
is accepted gets an ID that fits, and a pull that deletes rows has a payload that fits. -/
structure ErrorIsEarly (limit : Option ℕ) (tables : Tables) (data : Bytes) : Prop where
  message : Sends tables data → tables.sequence + 1 < 2 ^ 32
  pull : IsPull (requesterIdOf data) data → tables.Registered (requesterIdOf data) →
    tables.waitingFor (requesterIdOf data) ≠ [] →
    (∀ message ∈ tables.waitingFor (requesterIdOf data), RecordFits message) →
    ¬limit.any (· < (tables.waitingFor (requesterIdOf data)).length) →
    ((tables.waitingFor (requesterIdOf data)).flatMap recordBytes).length < 2 ^ 32

/-- A lookup leaves the tables alone. -/
theorem run_lookup (limit : Option ℕ) (tables : Tables) (data : Bytes) (ambient : Ambient)
    {stage : Stage} (h : stage = .listClients ∨ stage = .fetchKey) :
    ((Progress.next stage).run limit data ambient tables).1 = tables := by
  rcases h with rfl | rfl
  · rw [run_next]
    rfl
  · have hexec : (Stage.fetchKey.call data ambient).exec limit tables = _ :=
      exec_getPublicKeyById limit tables (requestedIdOf data)
    rw [run_next, hexec]
    cases tables.clients.find? fun row ↦ row.id = requestedIdOf data with
    | none => rfl
    | some row =>
      change (Progress.run limit data ambient (if row.publicKey.length = publicKeySize then
        .answer _ else .answer errorResponse) tables).1 = tables
      split_ifs <;> rfl

/-- A request that neither stores a message nor pulls registers a client or changes nothing. -/
theorem serve_quiet (limit : Option ℕ) (tables : Tables) (data : Bytes) (ambient : Ambient)
    (hsends : ¬Sends tables data)
    (hpulls : ¬(IsPull (requesterIdOf data) data ∧ tables.Registered (requesterIdOf data))) :
    Unchanged tables (serve limit tables data ambient).1 ∨
      (serve limit tables data ambient).2 = .ok (responseFrame responseRegister ambient.token) := by
  by_cases hvalid : ValidHeader data
  · by_cases hcode : codeOf data = requestRegister
    · rw [serve_register limit tables data ambient hvalid hcode]
      split_ifs
      · cases tables.insertClient ⟨ambient.token, rawNameOf data, publicKeyOf data,
          ambient.now⟩ with
        | ok after => exact .inr rfl
        | error exception => exact .inl (.refl tables)
      · exact .inl (.refl tables)
    · by_cases hrequester : tables.Registered (requesterIdOf data)
      · left
        have htouched := unchanged_updateLastSeen tables (requesterIdOf data) ambient.now
        rw [serve_requester limit tables data ambient hvalid hcode hrequester]
        generalize htables : tables.updateLastSeen (requesterIdOf data) ambient.now = touched
          at htouched
        unfold routed
        split_ifs with hlist hlistSize hkey hkeySize hwaiting hwaitingSize hsend hsendSize
        · rwa [run_lookup _ _ _ _ (.inl rfl)]
        · exact htouched
        · rwa [run_lookup _ _ _ _ (.inr rfl)]
        · exact htouched
        · have hpayload : payloadSizeOf data = 0 := by
            have hsize := hvalid.size
            omega
          exact absurd ⟨⟨hwaitingSize, hpayload, hvalid.version, hwaiting, rfl⟩, hrequester⟩ hpulls
        · exact htouched
        · rw [run_findTarget, if_neg]
          · exact htouched
          · rintro ⟨htarget, hmessage⟩
            rw [← htables, Tables.registered_iff, Tables.identities_updateLastSeen,
              ← Tables.registered_iff] at htarget
            exact hsends ⟨hvalid, hsend, hrequester, htarget, hmessage⟩
        · exact htouched
        · exact htouched
      · rw [serve_unregistered limit tables data ambient hvalid hcode hrequester]
        exact .inl (.refl tables)
  · rw [serve_invalid limit tables data ambient hvalid]
    exact .inl (.refl tables)

/-- An accepted message changes the messages, whatever it is answered with. -/
theorem not_unchanged_of_sends {limit : Option ℕ} {tables : Tables} {data : Bytes}
    (hsends : Sends tables data) (ambient : Ambient) :
    ¬Unchanged tables (serve limit tables data ambient).1 := by
  intro h
  have hmessages := h.messages
  rw [serve_sends hsends] at hmessages
  have hnone : [(⟨tables.sequence + 1, requestedIdOf data, requesterIdOf data, messageTypeOf data,
      contentOf data⟩ : MessageRow)] = [] := List.append_right_eq_self.mp hmessages
  cases hnone

/-- A pull that deletes rows changes the messages, whatever it is answered with. -/
theorem not_unchanged_of_deleted {tables : Tables} {clientId : Bytes} (now : Timestamp)
    (hwaiting : tables.waitingFor clientId ≠ []) :
    ¬Unchanged tables ((tables.updateLastSeen clientId now).deleteMessages
      ((tables.waitingFor clientId).map WaitingMessage.id)) := by
  intro h
  have hempty : ((tables.updateLastSeen clientId now).deleteMessages
      ((tables.waitingFor clientId).map WaitingMessage.id)).waitingFor clientId = [] :=
    waitingFor_deleteMessages _ (List.append_nil _).symm
  exact hwaiting ((waitingFor_congr h.messages clientId).symm.trans hempty)

/-- The same for a pull. Assumes: a registered client and a request that is its pull, hence no
message to send. -/
theorem pull_error_unchanged_iff (limit : Option ℕ) (tables : Tables) (data : Bytes)
    (ambient : Ambient) (hsends : ¬Sends tables data) (hpull : IsPull (requesterIdOf data) data)
    (hrequester : tables.Registered (requesterIdOf data)) :
    (∀ response, (serve limit tables data ambient).2 = .ok response →
        responseCode response = errorGeneral →
          Unchanged tables (serve limit tables data ambient).1) ↔
      ErrorIsEarly limit tables data := by
  have htouched := unchanged_updateLastSeen tables (requesterIdOf data) ambient.now
  have hserve : serve limit tables data ambient = _ := serve_pull hpull hrequester
  by_cases hfits : ∀ message ∈ tables.waitingFor (requesterIdOf data), RecordFits message
  · rw [if_pos hfits] at hserve
    by_cases hlimit : limit.any (· < (tables.waitingFor (requesterIdOf data)).length) = true
    · rw [if_pos hlimit] at hserve
      rw [hserve]
      exact ⟨fun _ ↦ ⟨fun h ↦ absurd h hsends, fun _ _ _ _ h ↦ absurd hlimit h⟩,
        fun _ _ _ _ ↦ htouched⟩
    · rw [if_neg hlimit] at hserve
      rw [hserve]
      by_cases hsize :
          ((tables.waitingFor (requesterIdOf data)).flatMap recordBytes).length < 2 ^ 32
      · refine ⟨fun _ ↦ ⟨fun h ↦ absurd h hsends, fun _ _ _ _ _ ↦ hsize⟩,
          fun _ response hresponse hcode ↦ ?_⟩
        rw [caught_buildResponse (by simp) hsize] at hresponse
        cases hresponse
        rw [responseCode_responseFrame (by simp)] at hcode
        simp at hcode
      · by_cases hwaiting : tables.waitingFor (requesterIdOf data) = []
        · rw [hwaiting] at hsize
          exact absurd (by simp) hsize
        · have hchanged := not_unchanged_of_deleted ambient.now hwaiting
          have herror : caught (buildResponse responseWaitingMessages _) = errorResponse :=
            caught_buildResponse_of_le (not_lt.mp hsize)
          constructor
          · exact fun h ↦ absurd (h errorResponse (congrArg Except.ok herror)
              responseCode_errorResponse) hchanged
          · exact fun h ↦ absurd (h.pull hpull hrequester hwaiting hfits hlimit) hsize
  · rw [if_neg hfits] at hserve
    rw [hserve]
    exact ⟨fun _ ↦ ⟨fun h ↦ absurd h hsends, fun _ _ _ h ↦ absurd h hfits⟩, fun _ _ _ _ ↦ htouched⟩

/-- When an error answer means that nothing happened. For every tables, every request and every
generated ID, the messages and the identities of the clients are unchanged whenever the answer has
code `9000`, if and only if the request is not one that raises behind its commit. -/
theorem error_answer_unchanged_iff (limit : Option ℕ) (tables : Tables) (data : Bytes)
    (ambient : Ambient) :
    (∀ response, (serve limit tables data ambient).2 = .ok response →
        responseCode response = errorGeneral →
          Unchanged tables (serve limit tables data ambient).1) ↔
      ErrorIsEarly limit tables data := by
  by_cases hsends : Sends tables data
  · have hpull : ¬IsPull (requesterIdOf data) data := fun h ↦ by
      have hcode := h.code
      rw [hsends.code] at hcode
      simp at hcode
    have hserve : serve limit tables data ambient = _ := serve_sends hsends
    have hchanged : ¬Unchanged tables (serve limit tables data ambient).1 :=
      not_unchanged_of_sends hsends ambient
    constructor
    · intro h
      refine ⟨fun _ ↦ ?_, fun hispull ↦ absurd hispull hpull⟩
      by_contra hid
      refine hchanged (h errorResponse ?_ responseCode_errorResponse)
      rw [hserve, sentResponse_eq_error (not_lt.mp hid)]
    · intro h response hresponse hcode
      have hid := h.message hsends
      rw [hserve, sentResponse_eq hid (requestedIdOf_length_le data)] at hresponse
      cases hresponse
      rw [responseCode_responseFrame (by simp)] at hcode
      simp at hcode
  · by_cases hpulls : IsPull (requesterIdOf data) data ∧ tables.Registered (requesterIdOf data)
    · exact pull_error_unchanged_iff limit tables data ambient hsends hpulls.1 hpulls.2
    · constructor
      · exact fun _ ↦ ⟨fun h ↦ absurd h hsends,
          fun hpull hrequester ↦ absurd ⟨hpull, hrequester⟩ hpulls⟩
      · intro _ response hresponse hcode
        rcases serve_quiet limit tables data ambient hsends hpulls with hsame | hregistered
        · exact hsame
        · rw [hregistered] at hresponse
          cases hresponse
          rw [responseCode_responseFrame (by simp)] at hcode
          simp at hcode

/-! ### The limits are reached -/

/-- The size of a payload of records. -/
theorem flatMap_recordBytes_length {messages : List WaitingMessage}
    (h : ∀ message ∈ messages, message.fromClient.length = clientIdSize) :
    (messages.flatMap recordBytes).length =
      (messages.map fun message ↦ recordHeaderSize + message.content.length).sum := by
  induction messages with
  | nil => rfl
  | cons message rest ih =>
    rw [List.flatMap_cons, List.length_append, List.map_cons, List.sum_cons,
      recordBytes_length (h message List.mem_cons_self),
      ih fun other hother ↦ h other (List.mem_cons_of_mem _ hother)]

/-- The size of the payload for a client that has flooded itself. -/
theorem flood_payload_length (content : Bytes) (count : ℕ) :
    (((List.range count).map fun number ↦ (soloMessage content number).waiting).flatMap
      recordBytes).length = count * (recordHeaderSize + content.length) := by
  have hfrom : ∀ message ∈ (List.range count).map fun number ↦
      (soloMessage content number).waiting, message.fromClient.length = clientIdSize := by
    intro message hmessage
    obtain ⟨number, -, rfl⟩ := List.mem_map.mp hmessage
    exact soloRow_id_length
  have hsize : (fun message : WaitingMessage ↦ recordHeaderSize + message.content.length) ∘
      (fun number ↦ (soloMessage content number).waiting) =
        fun _ ↦ recordHeaderSize + content.length := rfl
  rw [flatMap_recordBytes_length hfrom, List.map_map, hsize, List.map_const', List.length_range,
    List.sum_replicate_nat]

theorem registered_solo {tables : Tables} (h : tables.clients = [soloRow]) :
    tables.Registered soloRow.id := by
  rw [Tables.Registered, h]
  exact List.mem_singleton_self _

/-- Eight messages of half a gigabyte: the pull deletes them and is answered with the general
error. -/
theorem error_answer_after_delete :
    ¬∀ (tables : Tables) (data : Bytes) (ambient : Ambient) (response : Bytes),
      Reachable none tables → (serve none tables data ambient).2 = .ok response →
        responseCode response = errorGeneral →
          Unchanged tables (serve none tables data ambient).1 := by
  intro h
  -- the content is kept opaque: only its length matters
  obtain ⟨content, hcontent⟩ : ∃ content : Bytes, content.length = 2 ^ 29 :=
    ⟨List.replicate (2 ^ 29) 0, List.length_replicate⟩
  have hsmall : clientIdSize + messageTypeSize + contentSize + content.length < 2 ^ 32 := by
    rw [hcontent]
    simp
  obtain ⟨tables, hreachable, hclients, hmessages, -⟩ := Reachable.flood none hsmall 8
  have hwaiting := waitingFor_flood hmessages
  have hpayload : 2 ^ 32 ≤ ((tables.waitingFor soloRow.id).flatMap recordBytes).length := by
    rw [hwaiting, flood_payload_length, hcontent]
    simp
  have hfits : ∀ message ∈ tables.waitingFor soloRow.id, RecordFits message := by
    intro message hmessage
    rw [hwaiting] at hmessage
    obtain ⟨number, hnumber, rfl⟩ := List.mem_map.mp hmessage
    rw [List.mem_range] at hnumber
    refine ⟨?_, by simp [soloMessage, MessageRow.waiting], ?_⟩
    · change number + 1 < 2 ^ 32
      omega
    · change content.length < 2 ^ 32
      rw [hcontent]
      simp
  have hne : tables.waitingFor soloRow.id ≠ [] := by
    rw [hwaiting]
    simp
  have hserve : serve none tables soloPull soloAmbient = _ :=
    serve_pull (isPull_requestFrame soloRow_id_length) (registered_solo hclients)
  rw [if_pos hfits, if_neg (by simp), caught_buildResponse_of_le hpayload] at hserve
  refine not_unchanged_of_deleted soloAmbient.now hne ?_
  have hunchanged := h tables soloPull soloAmbient errorResponse hreachable (by rw [hserve])
    responseCode_errorResponse
  rwa [hserve] at hunchanged

/-! ### Mailboxes that cannot be delivered -/

/-- The waiting messages of a client are within the limits of a pull: the number of rows a `DELETE`
can name, the four bytes of a message ID and the four bytes of a payload length. -/
structure Deliverable (limit : Option ℕ) (messages : List WaitingMessage) : Prop where
  number : ¬limit.any (· < messages.length)
  id : ∀ message ∈ messages, message.id < 2 ^ 32
  size : (messages.map fun message ↦ recordHeaderSize + message.content.length).sum < 2 ^ 32

/-- A pull was answered with all that waited, and nothing waits any more. -/
def DeliversAll (clientId : Bytes) (before : Tables) (result : Tables × Except PyError Bytes) :
    Prop :=
  (∃ response, result.2 = .ok response ∧ responseCode response = responseWaitingMessages ∧
      recordsIn response = before.waitingFor clientId) ∧
    result.1.waitingFor clientId = []

/-- Waiting messages have a type of one byte and a sender of sixteen. -/
theorem Store.waiting {tables : Tables} (h : Store tables) {clientId : Bytes}
    {message : WaitingMessage} (hmessage : message ∈ tables.waitingFor clientId) :
    message.type < 2 ^ 8 ∧ message.fromClient.length = clientIdSize := by
  refine ⟨?_, h.fromClient_length hmessage⟩
  obtain ⟨row, hrow, rfl⟩ := List.mem_map.mp hmessage
  have htype := (h.messages row (List.mem_of_mem_filter hrow)).type
  simp only [List.mem_cons, List.not_mem_nil, or_false] at htype
  change row.type < 2 ^ 8
  rcases htype with h | h | h <;> rw [h] <;> simp

/-- The messages of a deliverable mailbox have records. Assumes: their types and senders fit. -/
theorem Deliverable.encodable {limit : Option ℕ} {messages : List WaitingMessage}
    (h : Deliverable limit messages) (hfields : ∀ message ∈ messages,
      message.type < 2 ^ 8 ∧ message.fromClient.length = clientIdSize) :
    ∀ message ∈ messages, Encodable message := by
  intro message hmessage
  have hpart : recordHeaderSize + message.content.length ≤
      (messages.map fun message ↦ recordHeaderSize + message.content.length).sum :=
    List.le_sum_of_mem (List.mem_map_of_mem hmessage)
  have htotal := h.size
  exact ⟨(hfields message hmessage).2, h.id message hmessage,
    (hfields message hmessage).1, by omega⟩

/-- When a mailbox is delivered. For all reachable tables, a pull of a registered client that
nothing else disturbs is answered with all its waiting messages and leaves none waiting if and only
if their number, their IDs and their total size are within the limits. -/
theorem pull_delivers_iff {limit : Option ℕ} {tables : Tables} {clientId data : Bytes}
    (hreachable : Reachable limit tables) (hregistered : tables.Registered clientId)
    (hpull : IsPull clientId data) (ambient : Ambient) :
    DeliversAll clientId tables (serve limit tables data ambient) ↔
      Deliverable limit (tables.waitingFor clientId) := by
  have hserve : serve limit tables data ambient = _ := serve_pull hpull hregistered
  have hfields : ∀ message ∈ tables.waitingFor clientId,
      message.type < 2 ^ 8 ∧ message.fromClient.length = clientIdSize :=
    fun message hmessage ↦ hreachable.store.waiting hmessage
  have hlength : ((tables.waitingFor clientId).flatMap recordBytes).length = _ :=
    flatMap_recordBytes_length fun message hmessage ↦ (hfields message hmessage).2
  constructor
  · rintro ⟨⟨response, hresponse, hcode, hrecords⟩, -⟩
    -- an error answer has another code
    have hne : response ≠ errorResponse := by
      rintro rfl
      rw [responseCode_errorResponse] at hcode
      simp at hcode
    rw [hserve] at hresponse
    by_cases hfits : ∀ message ∈ tables.waitingFor clientId, RecordFits message
    · rw [if_pos hfits] at hresponse
      by_cases hlimit : limit.any (· < (tables.waitingFor clientId).length) = true
      · rw [if_pos hlimit] at hresponse
        exact absurd (Except.ok.inj hresponse).symm hne
      · rw [if_neg hlimit] at hresponse
        refine ⟨hlimit, fun message hmessage ↦ (hfits message hmessage).1, ?_⟩
        by_contra hsize
        rw [← hlength, not_lt] at hsize
        rw [caught_buildResponse_of_le hsize] at hresponse
        exact hne (Except.ok.inj hresponse).symm
    · rw [if_neg hfits] at hresponse
      exact absurd (Except.ok.inj hresponse).symm hne
  · intro h
    have hencodable := h.encodable hfields
    have hfits : ∀ message ∈ tables.waitingFor clientId, RecordFits message :=
      fun message hmessage ↦
        have hrecord := hencodable message hmessage
        ⟨hrecord.id, hrecord.type, hrecord.content⟩
    have hsize := h.size
    rw [← hlength] at hsize
    rw [if_pos hfits, if_neg h.number, caught_buildResponse (by simp) hsize] at hserve
    rw [hserve]
    exact ⟨⟨_, rfl, responseCode_responseFrame (by simp) _, recordsIn_responseFrame hencodable _⟩,
      waitingFor_deleteMessages _ (List.append_nil _).symm⟩

/-- A mailbox with three messages is delivered. -/
theorem pull_delivers_iff_three : ∃ tables, Reachable (some 32766) tables ∧
    (tables.waitingFor soloRow.id).map WaitingMessage.id = [1, 2, 3] ∧
      DeliversAll soloRow.id tables (serve (some 32766) tables soloPull soloAmbient) := by
  have hsmall : clientIdSize + messageTypeSize + contentSize + [(7 : UInt8)].length < 2 ^ 32 := by
    simp
  obtain ⟨tables, hreachable, hclients, hmessages, -⟩ := Reachable.flood (some 32766) hsmall 3
  have hwaiting := waitingFor_flood hmessages
  have hpull : IsPull soloRow.id soloPull := isPull_requestFrame soloRow_id_length
  refine ⟨tables, hreachable, by rw [hwaiting]; rfl, ?_⟩
  refine (pull_delivers_iff hreachable (registered_solo hclients) hpull soloAmbient).mpr ?_
  rw [hwaiting]
  exact ⟨by decide, by decide, by decide⟩

/-- One message more than a `DELETE` can name. -/
theorem mailbox_undeliverable :
    ¬∀ (tables : Tables) (clientId data : Bytes) (ambient : Ambient),
      Reachable (some 32766) tables → tables.Registered clientId → IsPull clientId data →
        DeliversAll clientId tables (serve (some 32766) tables data ambient) := by
  intro h
  have hsmall : clientIdSize + messageTypeSize + contentSize + [(7 : UInt8)].length < 2 ^ 32 := by
    simp
  obtain ⟨tables, hreachable, hclients, hmessages, -⟩ :=
    Reachable.flood (some 32766) hsmall 32767
  have hpull : IsPull soloRow.id soloPull := isPull_requestFrame soloRow_id_length
  obtain ⟨⟨response, hresponse, hcode, -⟩, -⟩ := h tables soloRow.id soloPull soloAmbient
    hreachable (registered_solo hclients) hpull
  have hnumber : (some 32766).any (· < (tables.waitingFor soloRow.id).length) = true := by
    rw [waitingFor_flood hmessages, List.length_map, List.length_range]
    rfl
  have hserve : serve (some 32766) tables soloPull soloAmbient = _ :=
    serve_pull hpull (registered_solo hclients)
  rw [hserve] at hresponse
  split_ifs at hresponse
  all_goals
    rw [← Except.ok.inj hresponse, responseCode_errorResponse] at hcode
    simp at hcode

end MessageU.Server
