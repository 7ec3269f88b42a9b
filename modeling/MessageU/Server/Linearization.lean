import MessageU.Library.History
import MessageU.Server.Sequential
import MessageU.Server.Sockets

/-!
# The concurrent server serves one request at a time

The handlers of different connections interleave between their method calls, and each of them makes
up to four. Still the server is one that takes a request, serves it to its end (`serve`), and takes
the next one: every request has a moment between its arrival and its answer at which it can be
thought to be served as a whole.

For most requests this is the moment of the answer. A pull is different: its messages are selected
by one call and deleted by another, and messages that are stored in between are not among them. It
is served at its `SELECT`, so in between the tables of the sequential server lack the messages that
the handler is about to delete (`Connection.takes`), and its answer is decided before it is given
(`Connection.ahead`).

`Commit` is what the call of a stage can do, seen from the sequential server, and `Written` is the
relation between the server and the history that is written along a run. The timestamps of
`LastSeen` are no part of it: a request that moves its own and is served later leaves another one.
-/

set_option autoImplicit false
set_option relaxedAutoImplicit false

namespace MessageU.Server

open Library

/-! ### The sequential server -/

/-- A request that has been served. -/
structure Served where
  connection : ℕ
  request : Bytes
  ambient : Ambient
  response : Bytes

def Served.answer (served : Served) : Answer :=
  ⟨served.connection, served.request, served.response⟩

/-- Serve a request. -/
def serveNext (limit : Option ℕ) (tables : Tables) (served : Served) : Tables :=
  (serve limit tables served.request served.ambient).1

/-- Serving a request gives the response that it had. -/
def Truthful (limit : Option ℕ) (tables : Tables) (served : Served) : Prop :=
  (serve limit tables served.request served.ambient).2 = .ok served.response

/-! ### What a handler has found out -/

/-- The request of a registered client has passed the checks of the header. -/
def Admitted (tables : Tables) (request : Bytes) : Prop :=
  start request = .next .findRequester ∧ tables.Registered (requesterIdOf request)

/-- How a handler has come to a stage. -/
def Stage.Path (tables : Tables) (request : Bytes) : Stage → Prop
  | .register => start request = .next .register
  | .findRequester => start request = .next .findRequester
  | .touchRequester => Admitted tables request
  | .listClients => Admitted tables request ∧ routed request = .next .listClients
  | .fetchKey => Admitted tables request ∧ routed request = .next .fetchKey
  | .fetchMessages | .removeMessages _ =>
    Admitted tables request ∧ routed request = .next .fetchMessages
  | .findTarget => Admitted tables request ∧ routed request = .next .findTarget
  | .storeMessage => (Admitted tables request ∧ routed request = .next .findTarget) ∧
    tables.Registered (requestedIdOf request) ∧ ValidMessage request

/-- How a handler has come to what is next. -/
def Progress.Path (tables : Tables) (request : Bytes) : Progress → Prop
  | .answer _ => True
  | .next stage => stage.Path tables request

section Path

variable {tables after : Tables} {request : Bytes} {ambient : Ambient} {stage : Stage}
  {row : Option MessageRow} {progress : Progress} {limit : Option ℕ}

theorem Admitted.of_extends (h : Admitted tables request)
    (hextends : tables.identities <+: after.identities) : Admitted after request :=
  ⟨h.1, h.2.of_extends hextends⟩

theorem Stage.Path.of_extends (h : stage.Path tables request)
    (hextends : tables.identities <+: after.identities) : stage.Path after request := by
  cases stage with
  | register | findRequester => exact h
  | touchRequester => exact Admitted.of_extends h hextends
  | listClients | fetchKey | fetchMessages | removeMessages | findTarget =>
    exact ⟨Admitted.of_extends h.1 hextends, h.2⟩
  | storeMessage => exact ⟨⟨h.1.1.of_extends hextends, h.1.2⟩, h.2.1.of_extends hextends, h.2.2⟩

theorem start_path (tables : Tables) (request : Bytes) : (start request).Path tables request := by
  cases hstart : start request with
  | answer response => trivial
  | next stage =>
    unfold start at hstart
    split_ifs at hstart with hvalid hcode hregistration
    · cases hstart
      change start request = _
      rw [start, if_pos hvalid, if_pos hcode, if_pos hregistration]
    · cases hstart
      change start request = _
      rw [start, if_pos hvalid, if_neg hcode]

theorem routed_path (h : Admitted tables request) : (routed request).Path tables request := by
  cases hrouted : routed request with
  | answer response => trivial
  | next stage =>
    have hcases := hrouted
    unfold routed at hcases
    split_ifs at hcases <;> cases hcases <;> exact ⟨h, hrouted⟩

/-- A handler goes on in one of these ways. -/
theorem StageStep.path (h : StageStep tables request ambient stage after row progress)
    (hpath : stage.Path tables request) : progress.Path after request := by
  have hextends := h.identities
  cases h with
  | requesterFound hrequester => exact ⟨hpath, hrequester⟩
  | requesterTouched => exact routed_path (Admitted.of_extends hpath hextends)
  | messagesFetched =>
    unfold selected
    split_ifs
    · exact hpath
    · trivial
  | targetFound htarget hvalid => exact ⟨hpath, htarget, hvalid⟩
  | _ => trivial

end Path

/-! ### Tables that differ by timestamps and messages -/

/-- The same clients, whatever their `LastSeen`, and the same last message ID. -/
structure Tables.Alike (tables other : Tables) : Prop where
  identities : tables.identities = other.identities
  sequence : tables.sequence = other.sequence

section Alike

variable {tables other third : Tables}

theorem Tables.Alike.symm (h : tables.Alike other) : other.Alike tables :=
  ⟨h.identities.symm, h.sequence.symm⟩

theorem Tables.Alike.trans (h : tables.Alike other) (hthird : other.Alike third) :
    tables.Alike third :=
  ⟨h.identities.trans hthird.identities, h.sequence.trans hthird.sequence⟩

theorem Tables.alike_updateLastSeen (tables : Tables) (clientId : Bytes) (now : Timestamp) :
    (tables.updateLastSeen clientId now).Alike tables :=
  ⟨tables.identities_updateLastSeen clientId now, rfl⟩

theorem Tables.Alike.registered (h : tables.Alike other) (clientId : Bytes) :
    tables.Registered clientId ↔ other.Registered clientId := by
  rw [registered_iff, registered_iff, h.identities]

theorem Tables.Alike.userNames (h : tables.Alike other) :
    tables.clients.map ClientRow.userName = other.clients.map ClientRow.userName := by
  have hnames : ∀ tables : Tables,
      tables.clients.map ClientRow.userName =
        tables.identities.map fun identity ↦ identity.2.1 := by
    intro tables
    rw [Tables.identities, List.map_map]
    rfl
  rw [hnames, hnames, h.identities]

/-- The lists of the other clients are the same. -/
theorem Tables.Alike.otherClients (h : tables.Alike other) (clientId : Bytes) :
    tables.otherClients clientId = other.otherClients clientId := by
  have hlist : ∀ tables : Tables, tables.otherClients clientId =
      (tables.identities.filter fun identity ↦ identity.1 ≠ clientId).map
        fun identity ↦ (identity.1, identity.2.1) := by
    intro tables
    rw [Tables.otherClients, Tables.identities, List.filter_map, List.map_map]
    rfl
  rw [hlist, hlist, h.identities]

/-- What is found under an ID but for `LastSeen` is the same. -/
theorem Tables.Alike.find_publicKey (h : tables.Alike other) (clientId : Bytes) :
    (tables.clients.find? fun row ↦ row.id = clientId).map ClientRow.publicKey =
      (other.clients.find? fun row ↦ row.id = clientId).map ClientRow.publicKey := by
  have hfind : ∀ tables : Tables,
      (tables.clients.find? fun row ↦ row.id = clientId).map ClientRow.publicKey =
        (tables.identities.find? fun identity ↦ identity.1 = clientId).map
          fun identity ↦ identity.2.2 := by
    intro tables
    rw [Tables.identities, List.find?_map, Option.map_map]
    rfl
  rw [hfind, hfind, h.identities]

/-- A client is inserted into both, or into neither. -/
theorem Tables.Alike.insertClient (h : tables.Alike other) (row : ClientRow) :
    (∃ after otherAfter, tables.insertClient row = .ok after ∧
        other.insertClient row = .ok otherAfter ∧ after.Alike otherAfter) ∨
      tables.insertClient row = .error .integrityError ∧
        other.insertClient row = .error .integrityError := by
  have hid := h.registered row.id
  have hname := h.userNames
  by_cases hfree : ¬tables.Registered row.id ∧ row.userName ∉ tables.clients.map ClientRow.userName
  · left
    obtain ⟨after, hafter⟩ := exists_insertClient row hfree.1 hfree.2
    have hotherId : ¬other.Registered row.id := fun hregistered ↦ hfree.1 (hid.mpr hregistered)
    have hotherName : row.userName ∉ other.clients.map ClientRow.userName := by
      rw [← hname]
      exact hfree.2
    obtain ⟨otherAfter, hother⟩ := exists_insertClient row hotherId hotherName
    refine ⟨after, otherAfter, hafter, hother, ?_, ?_⟩
    · rw [identities_insertClient hafter, identities_insertClient hother, h.identities]
    · rw [(insertClient_eq_ok hafter).2.2.1, (insertClient_eq_ok hother).2.2.1, h.sequence]
  · right
    rw [not_and_or, not_not, not_not] at hfree
    unfold Tables.insertClient
    rcases hfree with hregistered | htaken
    · exact ⟨dif_pos hregistered, dif_pos (hid.mp hregistered)⟩
    · have hotherTaken := hname ▸ htaken
      constructor
      · split_ifs <;> rfl
      · split_ifs <;> rfl

end Alike

/-! ### What a call is to the sequential server -/

/-- The answer to a pull that has selected messages. -/
def pullAnswer (limit : Option ℕ) (messages : List WaitingMessage) : Bytes :=
  if limit.any (· < messages.length) then errorResponse
  else caught (buildResponse responseWaitingMessages (messages.flatMap recordBytes))

/-- A pull that has selected messages will delete a row. -/
def Doomed (limit : Option ℕ) (messages : List WaitingMessage) (row : MessageRow) : Prop :=
  ¬limit.any (· < messages.length) = true ∧ row.id ∈ messages.map WaitingMessage.id

instance (limit : Option ℕ) (messages : List WaitingMessage) :
    DecidablePred (Doomed limit messages) :=
  fun _ ↦ inferInstanceAs (Decidable (_ ∧ _))

/-- The handler of a stage has not selected messages. -/
def Stage.Plain (stage : Stage) : Prop :=
  ∀ messages, stage ≠ .removeMessages messages

/-- A call that does not fail leaves the request unserved, or it is the moment at which the request
is served: with the answer that is given now, or with the one that a pull is going to give. -/
inductive Commit (limit : Option ℕ) (tables ideal : Tables) (request : Bytes) (ambient : Ambient) :
    Tables → Progress → Prop
  | pass (after : Tables) (stage : Stage) (hafter : after.Alike tables)
    (hmessages : after.messages = tables.messages) (hplain : stage.Plain) :
    Commit limit tables ideal request ambient after (.next stage)
  | answer (after served : Tables) (response : Bytes)
    (hserve : serve limit ideal request ambient = (served, .ok response))
    (halike : served.Alike after) (hmessages : after.messages = tables.messages)
    (hserved : served.messages = ideal.messages) :
    Commit limit tables ideal request ambient after (.answer response)
  | store (after served : Tables) (response : Bytes) (row : MessageRow)
    (hserve : serve limit ideal request ambient = (served, .ok response))
    (halike : served.Alike after) (hid : row.id = tables.sequence + 1)
    (hmessages : after.messages = tables.messages ++ [row])
    (hserved : served.messages = ideal.messages ++ [row]) :
    Commit limit tables ideal request ambient after (.answer response)
  | select (served : Tables) (messages : List WaitingMessage)
    (hserve : serve limit ideal request ambient = (served, .ok (pullAnswer limit messages)))
    (halike : served.Alike tables)
    (hmessages : messages = tables.waitingFor (requesterIdOf request))
    (hserved : served.messages = ideal.messages.filter fun row ↦ ¬Doomed limit messages row) :
    Commit limit tables ideal request ambient tables (.next (.removeMessages messages))

section Serve

variable {limit : Option ℕ} {tables ideal : Tables} {request : Bytes} {ambient : Ambient}
  {stage : Stage}

theorem start_findRequester (h : start request = .next .findRequester) :
    ValidHeader request ∧ codeOf request ≠ requestRegister := by
  unfold start at h
  split_ifs at h with hvalid hcode
  · cases h
  · exact ⟨hvalid, hcode⟩

theorem start_register (h : start request = .next .register) :
    ValidHeader request ∧ codeOf request = requestRegister ∧ ValidRegistration request := by
  unfold start at h
  split_ifs at h with hvalid hcode hregistration
  · exact ⟨hvalid, hcode, hregistration⟩
  · cases h

/-- A handler that is routed has not selected messages. -/
theorem routed_plain (h : routed request = .next stage) : stage.Plain := by
  intro messages hremove
  subst hremove
  unfold routed at h
  split_ifs at h <;> cases h

/-- An admitted request is served by its handler. -/
theorem Admitted.serve (h : Admitted ideal request) :
    Server.serve limit ideal request ambient = (routed request).run limit request ambient
      (ideal.updateLastSeen (requesterIdOf request) ambient.now) := by
  obtain ⟨hvalid, hcode⟩ := start_findRequester h.1
  exact serve_requester limit ideal request ambient hvalid hcode h.2

theorem Admitted.alike (h : Admitted tables request) (halike : ideal.Alike tables) :
    Admitted ideal request :=
  ⟨h.1, (halike.registered _).mpr h.2⟩

/-- An admitted request whose handler makes one more call is served by that call. -/
theorem Admitted.serve_next (h : Admitted ideal request) (hrouted : routed request = .next stage)
    (limit : Option ℕ) (ambient : Ambient) :
    Server.serve limit ideal request ambient = (Progress.next stage).run limit request ambient
      (ideal.updateLastSeen (requesterIdOf request) ambient.now) := by
  rw [h.serve, hrouted]

theorem resume_fetchKey (request : Bytes) (ambient : Ambient) (found : Option Bytes) :
    ∃ response, Stage.fetchKey.resume request ambient (.ok found) = .answer response := by
  cases found with
  | none => exact ⟨_, rfl⟩
  | some publicKey =>
    by_cases hsize : publicKey.length = publicKeySize
    · exact ⟨_, if_pos hsize⟩
    · exact ⟨_, if_neg hsize⟩

/-- What the call of a stage is to the sequential server. Assumes: the sequential server has the
same clients, and when messages are selected, the same messages for the client that pulls. -/
theorem commit_call (halike : ideal.Alike tables) (hpath : stage.Path tables request)
    (hplain : stage.Plain) (hwaiting : stage = .fetchMessages →
      ideal.waitingFor (requesterIdOf request) = tables.waitingFor (requesterIdOf request)) :
    Commit limit tables ideal request ambient ((stage.call request ambient).exec limit tables).1
      (stage.resume request ambient ((stage.call request ambient).exec limit tables).2) := by
  have hself : tables.Alike tables := ⟨rfl, rfl⟩
  have htouched : (ideal.updateLastSeen (requesterIdOf request) ambient.now).Alike tables :=
    (ideal.alike_updateLastSeen _ _).trans halike
  cases stage with
  | findRequester =>
    have hexec : (Stage.findRequester.call request ambient).exec limit tables = _ :=
      exec_clientExists limit tables (requesterIdOf request)
    have hiff := find_client_isSome_iff tables (requesterIdOf request)
    rw [hexec]
    cases hfound : (tables.clients.find? fun row ↦ row.id = requesterIdOf request).map
      ClientRow.id with
    | none =>
      rw [hfound] at hiff
      obtain ⟨hvalid, hcode⟩ := start_findRequester hpath
      have hserve := serve_unregistered limit ideal request ambient hvalid hcode fun hregistered ↦
        Bool.false_ne_true (hiff.mpr ((halike.registered _).mp hregistered))
      exact .answer tables ideal errorResponse hserve halike rfl rfl
    | some found => exact .pass tables .touchRequester hself rfl fun _ h ↦ by cases h
  | touchRequester =>
    have hadmitted : Admitted ideal request := Admitted.alike hpath halike
    change Commit limit tables ideal request ambient
      (tables.updateLastSeen (requesterIdOf request) ambient.now) (routed request)
    cases hrouted : routed request with
    | answer response =>
      have hserve : serve limit ideal request ambient =
          (ideal.updateLastSeen (requesterIdOf request) ambient.now, .ok response) := by
        rw [hadmitted.serve, hrouted, run_answer]
      exact .answer _ _ response hserve
        (htouched.trans (tables.alike_updateLastSeen _ _).symm) rfl rfl
    | next stage => exact .pass _ stage (tables.alike_updateLastSeen _ _) rfl (routed_plain hrouted)
  | register =>
    obtain ⟨hvalid, hcode, hregistration⟩ := start_register hpath
    have hexec : (Stage.register.call request ambient).exec limit tables = _ :=
      exec_addClient limit tables ambient.token (rawNameOf request)
        (publicKeyOf request) ambient.now
    have hserve := serve_register limit ideal request ambient hvalid hcode
    rw [if_pos hregistration] at hserve
    rw [hexec]
    rcases halike.insertClient ⟨ambient.token, rawNameOf request, publicKeyOf request,
      ambient.now⟩ with
      ⟨served, after, hserved, hafter, hboth⟩ | ⟨hideal, htables⟩
    · rw [hserved] at hserve
      rw [hafter]
      exact .answer after served _ hserve hboth (Tables.insertClient_eq_ok hafter).2.1
        (Tables.insertClient_eq_ok hserved).2.1
    · rw [hideal] at hserve
      rw [htables]
      exact .answer tables ideal _ hserve halike rfl rfl
  | listClients =>
    have hserve := (Admitted.alike hpath.1 halike).serve_next hpath.2 limit ambient
    rw [run_next] at hserve
    have hsame := htouched.otherClients (requesterIdOf request)
    have hclients : ∀ tables : Tables, (Stage.listClients.call request ambient).exec limit tables =
        (tables, .ok (tables.otherClients (requesterIdOf request))) := fun _ ↦ rfl
    rw [hclients, hsame] at hserve
    rw [hclients]
    exact .answer tables _ _ hserve htouched rfl rfl
  | fetchKey =>
    have hserve := (Admitted.alike hpath.1 halike).serve_next hpath.2 limit ambient
    rw [run_next] at hserve
    have hsame := htouched.find_publicKey (requestedIdOf request)
    have hkeys : ∀ tables : Tables, (Stage.fetchKey.call request ambient).exec limit tables =
        (tables, .ok ((tables.clients.find? fun row ↦ row.id = requestedIdOf request).map
          ClientRow.publicKey)) := fun _ ↦ rfl
    rw [hkeys, hsame] at hserve
    rw [hkeys]
    obtain ⟨response, hresume⟩ := resume_fetchKey request ambient
      ((tables.clients.find? fun row ↦ row.id = requestedIdOf request).map ClientRow.publicKey)
    rw [hresume, run_answer] at hserve
    rw [hresume]
    exact .answer tables _ response hserve htouched rfl rfl
  | fetchMessages =>
    have hserve := (Admitted.alike hpath.1 halike).serve_next hpath.2 limit ambient
    have hsame : (ideal.updateLastSeen (requesterIdOf request) ambient.now).waitingFor
        (requesterIdOf request) = tables.waitingFor (requesterIdOf request) := hwaiting rfl
    rw [run_fetchMessages, hsame] at hserve
    change Commit limit tables ideal request ambient tables
      (selected (tables.waitingFor (requesterIdOf request)))
    rw [selected]
    split_ifs at hserve ⊢ with hfits hlimit
    · have hanswer : pullAnswer limit (tables.waitingFor (requesterIdOf request)) = errorResponse :=
        if_pos hlimit
      rw [← hanswer] at hserve
      refine .select _ _ hserve htouched rfl (List.filter_eq_self.mpr fun row _ ↦ ?_).symm
      exact decide_eq_true fun hdoomed ↦ hdoomed.1 hlimit
    · have hanswer : pullAnswer limit (tables.waitingFor (requesterIdOf request)) = _ :=
        if_neg hlimit
      rw [← hanswer] at hserve
      refine .select _ _ hserve ⟨htouched.identities, htouched.sequence⟩ rfl
        (List.filter_congr fun row _ ↦ ?_)
      rw [decide_eq_decide, Doomed, not_and]
      exact ⟨fun hnot _ ↦ hnot, fun hnot ↦ hnot hlimit⟩
    · exact .answer tables _ _ hserve htouched rfl rfl
  | removeMessages messages => exact absurd rfl (hplain messages)
  | findTarget =>
    have hserve := (Admitted.alike hpath.1 halike).serve_next hpath.2 limit ambient
    rw [run_findTarget] at hserve
    have hexec : (Stage.findTarget.call request ambient).exec limit tables = _ :=
      exec_clientExists limit tables (requestedIdOf request)
    have hiff := find_client_isSome_iff tables (requestedIdOf request)
    rw [hexec]
    cases hfound : (tables.clients.find? fun row ↦ row.id = requestedIdOf request).map
      ClientRow.id with
    | none =>
      rw [hfound] at hiff
      rw [if_neg fun hboth ↦ Bool.false_ne_true
        (hiff.mpr ((htouched.registered _).mp hboth.1))] at hserve
      exact .answer tables _ _ hserve htouched rfl rfl
    | some found =>
      rw [hfound] at hiff
      change Commit limit tables ideal request ambient tables
        (if ValidMessage request then .next .storeMessage else .answer errorResponse)
      by_cases hvalid : ValidMessage request
      · rw [if_pos hvalid]
        exact .pass tables .storeMessage hself rfl fun _ h ↦ by cases h
      · rw [if_neg hvalid]
        rw [if_neg fun hboth ↦ hvalid hboth.2] at hserve
        exact .answer tables _ _ hserve htouched rfl rfl
  | storeMessage =>
    obtain ⟨⟨hadmitted, hrouted⟩, htarget, hvalid⟩ := hpath
    have hserve := (hadmitted.alike halike).serve_next hrouted limit ambient
    rw [run_findTarget, if_pos ⟨(htouched.registered _).mpr htarget, hvalid⟩,
      htouched.sequence] at hserve
    refine .store _ _ _ ⟨tables.sequence + 1, requestedIdOf request, requesterIdOf request,
      messageTypeOf request, contentOf request⟩ hserve ⟨?_, ?_⟩ rfl rfl ?_
    · exact htouched.identities
    · exact congrArg (· + 1) htouched.sequence
    · change ideal.messages ++ [_] = _
      rw [← htouched.sequence]

end Serve

/-! ### What is decided and not done -/

/-- The answer that is decided at a stage. -/
def Stage.ahead (limit : Option ℕ) (connection : ℕ) (request : Bytes) : Stage → List Answer
  | .removeMessages messages => [⟨connection, request, pullAnswer limit messages⟩]
  | _ => []

/-- The answer that is decided when a request goes on. -/
def Progress.ahead (limit : Option ℕ) (connection : ℕ) (request : Bytes) : Progress → List Answer
  | .answer _ => []
  | .next stage => stage.ahead limit connection request

/-- The answer that is decided on a connection and has not been given. -/
def Connection.ahead (limit : Option ℕ) (connection : ℕ) : Connection Staged → List Answer
  | .busy request (_, stage) => stage.ahead limit connection request
  | .idle | .returned _ _ | .stopped => []

/-- A row that the handler of a stage is about to delete. -/
def Stage.Takes (limit : Option ℕ) (row : MessageRow) : Stage → Prop
  | .removeMessages messages => Doomed limit messages row
  | _ => False

/-- A row that a request is about to delete when it goes on. -/
def Progress.Takes (limit : Option ℕ) (row : MessageRow) : Progress → Prop
  | .answer _ => False
  | .next stage => stage.Takes limit row

/-- A row that the handler of a connection is about to delete. -/
def Connection.Takes (limit : Option ℕ) (row : MessageRow) : Connection Staged → Prop
  | .busy _ (_, stage) => stage.Takes limit row
  | .idle | .returned _ _ | .stopped => False

theorem Stage.Plain.ahead {stage : Stage} (h : stage.Plain) (limit : Option ℕ) (connection : ℕ)
    (request : Bytes) : stage.ahead limit connection request = [] := by
  cases stage with
  | removeMessages messages => exact absurd rfl (h messages)
  | _ => rfl

theorem Stage.Plain.not_takes {stage : Stage} (h : stage.Plain) (limit : Option ℕ)
    (row : MessageRow) : ¬stage.Takes limit row := by
  cases stage with
  | removeMessages messages => exact absurd rfl (h messages)
  | _ => exact fun htakes ↦ htakes

/-- A handler that has not selected messages deletes none by its next call. -/
theorem StageStep.mem_messages {tables after : Tables} {request : Bytes} {ambient : Ambient}
    {stage : Stage} {inserted : Option MessageRow} {progress : Progress} {row : MessageRow}
    (h : StageStep tables request ambient stage after inserted progress) (hplain : stage.Plain)
    (hrow : row ∈ tables.messages) : row ∈ after.messages := by
  cases h with
  | registered hinsert => rwa [(Tables.insertClient_eq_ok hinsert).2.1]
  | messagesRemoved messages => exact absurd rfl (hplain messages)
  | messageStored => exact List.mem_append_left _ hrow
  | _ => exact hrow

/-- The method call of an event raises. -/
def Event.fails : Event → Bool
  | .arrive .. => false
  | .call _ fault => fault

namespace ServerState

/-- A row that a handler is about to delete. -/
def Taken (limit : Option ℕ) (server : ServerState Staged) (row : MessageRow) : Prop :=
  ∃ connection, (server.connections connection).Takes limit row

/-- What the sequential server, which has served a history, has to do with the server. -/
structure Written (limit : Option ℕ) (server : ServerState Staged) (order : List Served) :
    Prop where
  truthful : Along (serveNext limit) (Truthful limit) Tables.empty order
  alike : (runEvents (serveNext limit) Tables.empty order).Alike server.tables
  messages : ∀ row, row ∈ (runEvents (serveNext limit) Tables.empty order).messages ↔
    row ∈ server.tables.messages ∧ ¬server.Taken limit row
  accounts : ∀ connection,
    (order.map Served.answer).filter (fun answer ↦ answer.connection = connection) =
      server.answered.filter (fun answer ↦ answer.connection = connection) ++
        (server.connections connection).ahead limit connection

section Settle

variable {limit : Option ℕ} {server : ServerState Staged} {connection : ℕ} {request : Bytes}
  {ambient : Ambient} {progress : Progress}

theorem ahead_settle :
    ((server.settle connection request
      (stagedOutcome ambient progress)).connections connection).ahead
      limit connection = progress.ahead limit connection request := by
  cases progress <;> simp [settle, stagedOutcome, Connection.ahead, Progress.ahead]

/-- A row is taken by the handler of a connection or by another one. -/
theorem taken_iff (connection : ℕ) (row : MessageRow) :
    server.Taken limit row ↔ (server.connections connection).Takes limit row ∨
      ∃ other ≠ connection, (server.connections other).Takes limit row := by
  constructor
  · rintro ⟨other, htakes⟩
    by_cases hsame : other = connection
    · exact .inl (hsame ▸ htakes)
    · exact .inr ⟨other, hsame, htakes⟩
  · rintro (htakes | ⟨other, -, htakes⟩)
    · exact ⟨connection, htakes⟩
    · exact ⟨other, htakes⟩

theorem taken_settle (row : MessageRow) :
    (server.settle connection request (stagedOutcome ambient progress)).Taken limit row ↔
      progress.Takes limit row ∨ ∃ other ≠ connection,
        (server.connections other).Takes limit row := by
  have hown : ((server.settle connection request (stagedOutcome ambient progress)).connections
      connection).Takes limit row ↔ progress.Takes limit row := by
    cases progress <;> simp [settle, stagedOutcome, Connection.Takes, Progress.Takes]
  rw [taken_iff connection, hown]
  refine or_congr_right (exists_congr fun other ↦ and_congr_right fun hother ↦ ?_)
  rw [settle_connections_of_ne server request _ hother]

/-- A request goes on, and is served or not. Assumes: the entries that are put behind the history
are those of the answer that is given or decided, and the sequential server has, behind them, the
messages that nobody takes. -/
theorem Written.settle {order : List Served} (h : Written limit server order)
    {base : ServerState Staged} (hconnections : base.connections = server.connections)
    (hanswered : base.answered = server.answered) {more : List Served}
    (htruthful : Along (serveNext limit) (Truthful limit)
      (runEvents (serveNext limit) Tables.empty order) more)
    (halike : (runEvents (serveNext limit)
      (runEvents (serveNext limit) Tables.empty order) more).Alike
      base.tables)
    (hmessages : ∀ row,
      row ∈ (runEvents (serveNext limit) (runEvents (serveNext limit) Tables.empty order)
        more).messages ↔ row ∈ base.tables.messages ∧ ¬(progress.Takes limit row ∨
          ∃ other ≠ connection, (server.connections other).Takes limit row))
    (hmine : ∀ served ∈ more, served.connection = connection)
    (haccounts : (server.connections connection).ahead limit connection ++ more.map Served.answer =
      progress.answers connection request ++ progress.ahead limit connection request) :
    Written limit (base.settle connection request (stagedOutcome ambient progress))
      (order ++ more) := by
  refine ⟨Along.append_iff.mpr ⟨h.truthful, htruthful⟩, ?_, fun row ↦ ?_, fun other ↦ ?_⟩
  · rw [runEvents_append, settle_tables]
    exact halike
  · rw [runEvents_append, settle_tables, taken_settle, hconnections]
    exact hmessages row
  · rw [List.map_append, List.filter_append, h.accounts, settle_answered,
      List.filter_append, hanswered,
      List.append_assoc, List.append_assoc]
    refine congrArg _ ?_
    by_cases hother : other = connection
    · subst hother
      have hentries : (more.map Served.answer).filter (fun answer ↦ answer.connection = other) =
          more.map Served.answer := by
        refine List.filter_eq_self.mpr fun answer hanswer ↦ decide_eq_true ?_
        obtain ⟨served, hserved, rfl⟩ := List.mem_map.mp hanswer
        exact hmine served hserved
      have hanswers : (progress.answers other request).filter
        (fun answer ↦ answer.connection = other) =
          progress.answers other request := by
        cases progress <;> simp [Progress.answers]
      rw [hentries, hanswers, ahead_settle, haccounts]
    · have hentries : (more.map Served.answer).filter
        (fun answer ↦ answer.connection = other) = [] := by
        refine List.filter_eq_nil_iff.mpr fun answer hanswer hsame ↦ ?_
        obtain ⟨served, hserved, rfl⟩ := List.mem_map.mp hanswer
        exact hother ((of_decide_eq_true hsame).symm.trans (hmine served hserved))
      have hanswers : (progress.answers connection request).filter
          (fun answer ↦ answer.connection = other) = [] := by
        cases progress with
        | answer response => simp [Progress.answers, Ne.symm hother]
        | next stage => rfl
      rw [hentries, hanswers, settle_connections_of_ne base request _ hother, hconnections,
        List.append_nil, List.nil_append]

/-- A request goes on, and is not served. -/
theorem Written.pass {order : List Served} (h : Written limit server order)
    (base : ServerState Staged)
    (hconnections : base.connections = server.connections)
    (hanswered : base.answered = server.answered)
    (halike : (runEvents (serveNext limit) Tables.empty order).Alike base.tables)
    (hmessages : ∀ row, row ∈ (runEvents (serveNext limit) Tables.empty order).messages ↔
      row ∈ base.tables.messages ∧ ¬(progress.Takes limit row ∨
        ∃ other ≠ connection, (server.connections other).Takes limit row))
    (haccounts : (server.connections connection).ahead limit connection =
      progress.answers connection request ++ progress.ahead limit connection request) :
    Written limit (base.settle connection request (stagedOutcome ambient progress)) order := by
  have hafter : Written limit (base.settle connection request (stagedOutcome ambient progress))
      (order ++ []) := by
    refine h.settle hconnections hanswered trivial halike hmessages
      (fun _ hmem ↦ absurd hmem List.not_mem_nil) ?_
    rw [List.map_nil, List.append_nil, haccounts]
  rwa [List.append_nil] at hafter

/-- A request goes on, and is served. -/
theorem Written.served {order : List Served} (h : Written limit server order)
    (base : ServerState Staged)
    (hconnections : base.connections = server.connections)
    (hanswered : base.answered = server.answered) {served : Tables} {response : Bytes}
    (hserve : Server.serve limit (runEvents (serveNext limit) Tables.empty order) request ambient =
      (served, .ok response))
    (halike : served.Alike base.tables)
    (hmessages : ∀ row, row ∈ served.messages ↔ row ∈ base.tables.messages ∧
      ¬(progress.Takes limit row ∨ ∃ other ≠ connection,
        (server.connections other).Takes limit row))
    (hahead : (server.connections connection).ahead limit connection = [])
    (haccounts : progress.answers connection request ++ progress.ahead limit connection request =
      [⟨connection, request, response⟩]) :
    ∃ more, Written limit (base.settle connection request (stagedOutcome ambient progress))
      (order ++ more) := by
  have hnext : serveNext limit (runEvents (serveNext limit) Tables.empty order)
      ⟨connection, request, ambient, response⟩ = served := congrArg Prod.fst hserve
  refine ⟨[⟨connection, request, ambient, response⟩], h.settle hconnections hanswered
    ⟨congrArg Prod.snd hserve, trivial⟩ ?_ (fun row ↦ ?_)
    (fun entry hentry ↦ by rw [List.mem_singleton.mp hentry]) ?_⟩
  · rw [runEvents_cons, hnext]
    exact halike
  · rw [runEvents_cons, hnext]
    exact hmessages row
  · rw [hahead, haccounts]
    rfl

end Settle

/-! ### One event -/

/-- No call fails, and a pull begins only while no other pull of the same client is being
answered. -/
def Undisturbed {Rest : Type} (server : ServerState Rest) (event : Event) : Prop :=
  event.fails = false ∧ PullsApart server event

/-- What holds of the handlers of a server on which pulls do not overlap. -/
structure Orderly (server : ServerState Staged) : Prop where
  sound : Sound server
  exclusive : PullsExclusive server
  held : HeldStored server
  path : ∀ connection request ambient stage,
    server.connections connection = .busy request (ambient, stage) →
      stage.Path server.tables request

theorem orderly_initial : Orderly (initial Staged) where
  sound := sound_initial
  exclusive := fun _ _ _ _ h ↦ by cases h
  held := fun _ _ _ _ h ↦ by cases h
  path := fun _ _ _ _ h ↦ by cases h

section Step

variable {limit : Option ℕ} {server : ServerState Staged} {event : Event} {connection : ℕ}
  {request : Bytes} {ambient : Ambient} {stage : Stage} {order : List Served}

/-- Every event keeps the handlers orderly. -/
theorem Orderly.step (h : Orderly server) (hundisturbed : Undisturbed server event)
    (limit : Option ℕ) : Orderly (stagedStep limit server event) where
  sound := h.sound.step limit event
  exclusive := h.exclusive.step hundisturbed.2 limit
  held := h.held.step h.sound limit event
  path := by
    refine stagedStep_cases (motive := fun after ↦ ∀ other request ambient stage,
        after.connections other = .busy request (ambient, stage) → stage.Path after.tables request)
      limit server event h.path
      (fun connection request ambient _ _ other otherRequest otherAmbient stage hbusy ↦ ?_)
      fun connection fault request ambient stage after row progress _ hrunning hstep
        other otherRequest otherAmbient otherStage hbusy ↦ ?_
    · rw [settle_tables]
      rcases busy_of_settle hbusy with ⟨-, hold⟩ | ⟨-, rfl, -, hstart⟩
      · exact h.path other otherRequest otherAmbient stage hold
      · have hpath := start_path server.tables otherRequest
        rwa [hstart] at hpath
    · rw [settle_tables]
      rcases busy_of_settle hbusy with ⟨-, hold⟩ | ⟨-, rfl, -, hnext⟩
      · exact (h.path other otherRequest otherAmbient otherStage hold).of_extends hstep.identities
      · have hpath := hstep.path (h.path connection otherRequest ambient stage hrunning)
        rwa [hnext] at hpath

/-- The row that a handler takes has been stored for the client that pulls. -/
theorem Orderly.stored_of_takes (h : Orderly server) {row : MessageRow}
    (htakes : (server.connections connection).Takes limit row) :
    ∃ request ambient messages, server.connections connection =
        .busy request (ambient, .removeMessages messages) ∧
      ∃ stored ∈ server.inserted, stored.id = row.id ∧ stored.toClient = requesterIdOf request := by
  cases hconnection : server.connections connection with
  | idle => rw [hconnection] at htakes; exact htakes.elim
  | returned earlier response => rw [hconnection] at htakes; exact htakes.elim
  | stopped => rw [hconnection] at htakes; exact htakes.elim
  | busy request rest =>
    obtain ⟨ambient, stage⟩ := rest
    rw [hconnection] at htakes
    cases stage with
    | removeMessages messages =>
      obtain ⟨-, hid⟩ := htakes
      obtain ⟨message, hmessage, hsame⟩ := List.mem_map.mp hid
      obtain ⟨stored, hstored, rfl, hclient⟩ :=
        h.held connection request ambient messages hconnection message hmessage
      exact ⟨request, ambient, messages, rfl, stored, hstored, hsame, hclient⟩
    | _ => exact htakes.elim

/-- A row that is taken has an ID that has been assigned. -/
theorem Orderly.le_of_takes (h : Orderly server) {row : MessageRow}
    (htakes : (server.connections connection).Takes limit row) :
    row.id ≤ server.tables.sequence := by
  obtain ⟨-, -, -, -, stored, hstored, hid, -⟩ := h.stored_of_takes htakes
  rw [← hid]
  exact h.sound.inserted_le stored hstored

/-- When a handler selects messages, nobody takes one of its client. -/
theorem Orderly.not_taken (h : Orderly server)
    (hbusy : server.connections connection = .busy request (ambient, .fetchMessages))
    {row : MessageRow}
    (hrow : row ∈ server.tables.messages) (hclient : row.toClient = requesterIdOf request) :
    ¬server.Taken limit row := by
  rintro ⟨other, htakes⟩
  obtain ⟨otherRequest, otherAmbient, messages, hother, stored, hstored, hid, hto⟩ :=
    h.stored_of_takes htakes
  have hincreasing : (server.inserted.map MessageRow.id).Nodup :=
    h.sound.inserted_increasing.imp fun hlt ↦ hlt.ne
  have hsame : stored = row := List.inj_on_of_nodup_map hincreasing hstored
    (h.sound.messages_inserted.subset hrow) hid
  rw [hsame, hclient] at hto
  have hready := h.sound.ready connection request ambient _ hbusy
  have hotherReady := h.sound.ready other otherRequest otherAmbient _ hother
  have hconnections : other = connection := h.exclusive other connection otherRequest request
    (running_of_busy hother) (running_of_busy hbusy) hotherReady.2.1 hready.2 hto.symm
  rw [hconnections, hbusy] at hother
  cases hother

/-- Tables with the same rows for a client have the same messages for it. -/
theorem waitingFor_of_mem {tables other : Tables} {clientId : Bytes}
    (h : ∀ row, row.toClient = clientId → (row ∈ tables.messages ↔ row ∈ other.messages)) :
    tables.waitingFor clientId = other.waitingFor clientId := by
  have hordered : ∀ tables : Tables,
    (tables.messages.filter fun row ↦ row.toClient = clientId).Pairwise
      fun first second ↦ first.id < second.id :=
    fun tables ↦ (List.pairwise_map.mp tables.messageIds_increasing).filter _
  have hnodup : ∀ tables : Tables,
      (tables.messages.filter fun row ↦ row.toClient = clientId).Nodup := fun tables ↦
    (hordered tables).imp fun hlt heq ↦ hlt.ne (congrArg MessageRow.id heq)
  have hperm : (tables.messages.filter fun row ↦ row.toClient = clientId).Perm
      (other.messages.filter fun row ↦ row.toClient = clientId) := by
    refine (List.perm_ext_iff_of_nodup (hnodup tables) (hnodup other)).mpr fun row ↦ ?_
    rw [List.mem_filter, List.mem_filter]
    exact and_congr_left fun hclient ↦ h row (of_decide_eq_true hclient)
  rw [Tables.waitingFor, Tables.waitingFor]
  refine congrArg _ (hperm.eq_of_pairwise (fun first second _ _ hlt hgt ↦ ?_) (hordered tables)
    (hordered other))
  exact absurd hlt (lt_asymm hgt)

/-- A request that arrives is served if it is answered at once. -/
theorem Written.arrive (h : Written limit server order)
    (hahead : (server.connections connection).ahead limit connection = [])
    (htakes : ∀ row, ¬(server.connections connection).Takes limit row) :
    ∃ more, Written limit (server.settle connection request (stagedOutcome ambient (start request)))
      (order ++ more) := by
  have hmessages : ∀ row, row ∈ (runEvents (serveNext limit) Tables.empty order).messages ↔
      row ∈ server.tables.messages ∧
        ¬∃ other ≠ connection, (server.connections other).Takes limit row := by
    intro row
    rw [h.messages, taken_iff connection, or_iff_right (htakes row)]
  cases hstart : start request with
  | answer response =>
    have hserve : serve limit (runEvents (serveNext limit) Tables.empty order) request ambient =
        (runEvents (serveNext limit) Tables.empty order, .ok response) := by
      rw [serve_eq, hstart, run_answer]
    refine h.served server rfl rfl hserve h.alike (fun row ↦ ?_) hahead rfl
    rw [Progress.Takes, or_iff_right not_false]
    exact hmessages row
  | next stage =>
    have hplain : stage.Plain := by
      intro messages hremove
      subst hremove
      unfold start at hstart
      split_ifs at hstart <;> cases hstart
    refine ⟨[], ?_⟩
    rw [List.append_nil]
    refine h.pass server rfl rfl h.alike (fun row ↦ ?_) ?_
    · rw [Progress.Takes, or_iff_right (hplain.not_takes limit row)]
      exact hmessages row
    · rw [hahead, Progress.ahead, hplain.ahead]
      rfl

/-- A pull that deletes its messages has been served. -/
theorem Written.remove (h : Written limit server order) {messages : List WaitingMessage}
    (hbusy : server.connections connection = .busy request (ambient, .removeMessages messages)) :
    let result := ((Stage.removeMessages messages).call request ambient).exec limit server.tables
    Written limit ((server.afterCall result.1 none).settle connection request
      (stagedOutcome ambient ((Stage.removeMessages messages).resume request ambient result.2)))
        order := by
  intro result
  have hexec : result = _ := exec_deleteMessages limit server.tables
    (messages.map WaitingMessage.id)
  rw [List.length_map] at hexec
  have hahead : (server.connections connection).ahead limit connection =
      [⟨connection, request, pullAnswer limit messages⟩] := by rw [hbusy]; rfl
  have htakes : ∀ row, (server.connections connection).Takes limit row ↔
    Doomed limit messages row := by
    intro row
    rw [hbusy]
    exact Iff.rfl
  have hresume : (Stage.removeMessages messages).resume request ambient result.2 =
      .answer (pullAnswer limit messages) := by
    rw [hexec, pullAnswer]
    split_ifs <;> rfl
  rw [hresume]
  refine h.pass (server.afterCall result.1 none) rfl rfl ?_ (fun row ↦ ?_) ?_
  · refine h.alike.trans ?_
    change server.tables.Alike result.1
    rw [hexec]
    split_ifs <;> exact ⟨rfl, rfl⟩
  · rw [h.messages, taken_iff connection, htakes, Progress.Takes, or_iff_right not_false,
      not_or]
    change _ ↔ row ∈ result.1.messages ∧ _
    rw [hexec]
    by_cases hlimit : limit.any (· < messages.length) = true
    · rw [if_pos hlimit]
      exact and_congr_right fun _ ↦ and_iff_right fun hdoomed ↦ hdoomed.1 hlimit
    · rw [if_neg hlimit, ← and_assoc]
      refine and_congr_left fun _ ↦ ?_
      change _ ↔ row ∈ server.tables.messages.filter _
      rw [List.mem_filter, decide_eq_true_iff, Doomed, and_iff_right hlimit]
  · rw [hahead]
    rfl

/-- The call of a handler that has not selected messages. -/
theorem Written.call (h : Written limit server order) (horderly : Orderly server)
    (hbusy : server.connections connection = .busy request (ambient, stage)) (hplain : stage.Plain)
    (row : Option MessageRow) :
    let result := (stage.call request ambient).exec limit server.tables
    ∃ more, Written limit ((server.afterCall result.1 row).settle connection request
      (stagedOutcome ambient (stage.resume request ambient result.2))) (order ++ more) := by
  intro result
  have hahead : (server.connections connection).ahead limit connection = [] := by
    rw [hbusy]
    exact hplain.ahead limit connection request
  have htakes : ∀ row, ¬(server.connections connection).Takes limit row := by
    intro row
    rw [hbusy]
    exact hplain.not_takes limit row
  have hmessages : ∀ row, row ∈ (runEvents (serveNext limit) Tables.empty order).messages ↔
      row ∈ server.tables.messages ∧
        ¬∃ other ≠ connection, (server.connections other).Takes limit row := by
    intro row
    rw [h.messages, taken_iff connection, or_iff_right (htakes row)]
  have hwaiting : stage = .fetchMessages →
      (runEvents (serveNext limit) Tables.empty order).waitingFor (requesterIdOf request) =
        server.tables.waitingFor (requesterIdOf request) := by
    rintro rfl
    refine waitingFor_of_mem fun row hclient ↦ ?_
    rw [h.messages]
    exact and_iff_left_of_imp fun hrow ↦ horderly.not_taken hbusy hrow hclient
  have hpath := horderly.path connection request ambient stage hbusy
  have hcommit : Commit limit server.tables (runEvents (serveNext limit) Tables.empty order) request
      ambient result.1 (stage.resume request ambient result.2) :=
    commit_call h.alike hpath hplain hwaiting
  generalize stage.resume request ambient result.2 = progress at hcommit ⊢
  generalize result.1 = after at hcommit ⊢
  cases hcommit with
  | pass after next hafter hsame hnext =>
    refine ⟨[], ?_⟩
    rw [List.append_nil]
    refine h.pass (server.afterCall after row) rfl rfl (h.alike.trans hafter.symm) (fun row ↦ ?_) ?_
    · change _ ↔ row ∈ after.messages ∧ _
      rw [hsame, Progress.Takes, or_iff_right (hnext.not_takes limit row)]
      exact hmessages row
    · rw [hahead, Progress.ahead, hnext.ahead]
      rfl
  | answer after served response hserve halike hsame hserved =>
    refine h.served (server.afterCall after row) rfl rfl hserve halike (fun row ↦ ?_) hahead rfl
    change _ ↔ row ∈ after.messages ∧ _
    rw [hserved, hsame, Progress.Takes, or_iff_right not_false]
    exact hmessages row
  | store after served response stored hserve halike hid hafter hserved =>
    refine h.served (server.afterCall after row) rfl rfl hserve halike (fun row ↦ ?_) hahead rfl
    -- nobody takes the new row, whose ID has not been assigned before
    have hfree : row = stored → ¬∃ other ≠ connection,
      (server.connections other).Takes limit row := by
      rintro rfl ⟨other, -, htaken⟩
      have hle := horderly.le_of_takes htaken
      rw [hid] at hle
      exact absurd hle (Nat.not_succ_le_self _)
    change _ ↔ row ∈ after.messages ∧ _
    rw [hserved, hafter, Progress.Takes, or_iff_right not_false, List.mem_append, List.mem_append,
      List.mem_singleton, hmessages, or_and_right]
    exact or_congr_right (and_iff_left_of_imp hfree).symm
  | select served messages hserve halike hselected hserved =>
    refine h.served (server.afterCall server.tables row) rfl rfl hserve halike
      (fun row ↦ ?_) hahead rfl
    change _ ↔ row ∈ server.tables.messages ∧ ¬(Doomed limit messages row ∨ _)
    rw [hserved, List.mem_filter, decide_eq_true_iff, hmessages, not_or, and_assoc]
    exact and_congr_right fun _ ↦ and_comm

/-- Every event writes the history. -/
theorem Written.step (h : Written limit server order) (horderly : Orderly server)
    (hundisturbed : Undisturbed server event) :
    ∃ more, Written limit (stagedStep limit server event) (order ++ more) := by
  have hsame : ∃ more, Written limit server (order ++ more) := ⟨[], by rwa [List.append_nil]⟩
  cases event with
  | arrive connection request ambient =>
    simp only [stagedStep]
    cases hconnection : server.connections connection with
    | idle => exact h.arrive (by rw [hconnection]; rfl) fun _ ↦ by rw [hconnection]; exact id
    | returned earlier response =>
      exact h.arrive (by rw [hconnection]; rfl) fun _ ↦ by rw [hconnection]; exact id
    | busy earlier rest => exact hsame
    | stopped => exact hsame
  | call connection fault =>
    have hfault : fault = false := hundisturbed.1
    subst hfault
    simp only [stagedStep]
    cases hconnection : server.connections connection with
    | idle => exact hsame
    | returned earlier response => exact hsame
    | stopped => exact hsame
    | busy request rest =>
      obtain ⟨ambient, stage⟩ := rest
      by_cases hplain : stage.Plain
      · exact h.call horderly hconnection hplain _
      · rw [Stage.Plain, not_forall] at hplain
        obtain ⟨messages, hremove⟩ := hplain
        obtain rfl := not_not.mp hremove
        exact ⟨[], by rw [List.append_nil]; exact h.remove hconnection⟩

end Step

/-! ### Whole runs -/

/-- The next call of a handler takes a message away, unless it fails. -/
def TakesAway (limit : Option ℕ) (server : ServerState Handler) (connection : ℕ)
    (row : MessageRow) : Prop :=
  row ∈ server.tables.messages ∧
    row ∉ (step limit server (.call connection false)).tables.messages

/-- The tables of the sequential server: they have the clients but for `LastSeen`, the last message
ID, and all messages but those that a running pull is about to take away from its client. -/
structure Mirrors (limit : Option ℕ) (server : ServerState Handler) (ideal : Tables) : Prop where
  alike : ideal.Alike server.tables
  messages : ∀ row, row ∈ ideal.messages ↔
    row ∈ server.tables.messages ∧ ¬∃ connection, server.TakesAway limit connection row
  pulled : ∀ connection row, server.TakesAway limit connection row →
    ∃ request, server.running connection = some request ∧
      codeOf request = requestWaitingMessages ∧ row.toClient = requesterIdOf request

/-- On a connection the history has the answers that have been given, in order, and behind them at
most the one to the request that is running. -/
def Accounts (server : ServerState Handler) (order : List Served) (connection : ℕ) : Prop :=
  ∃ ahead, (order.map Served.answer).filter (fun answer ↦ answer.connection = connection) =
      server.answered.filter (fun answer ↦ answer.connection = connection) ++ ahead ∧
    (ahead = [] ∨ ∃ request response, server.running connection = some request ∧
      ahead = [⟨connection, request, response⟩])

section Runs

variable {limit : Option ℕ} {server : ServerState Staged} {order : List Served}

/-- The rows that are taken are those that the next call of the handler deletes. -/
theorem takesAway_iff (limit : Option ℕ) (server : ServerState Staged) (connection : ℕ)
    (row : MessageRow) : server.unstage.TakesAway limit connection row ↔
      row ∈ server.tables.messages ∧ (server.connections connection).Takes limit row := by
  rw [TakesAway, step_unstage]
  change row ∈ server.tables.messages ∧
    row ∉ (stagedStep limit server (.call connection false)).tables.messages ↔ _
  refine and_congr_right fun hrow ↦ ?_
  cases hconnection : server.connections connection with
  | busy request rest =>
    obtain ⟨ambient, stage⟩ := rest
    have hstep := stageStep limit false server.tables request ambient stage
    simp only [stagedStep, hconnection, settle_tables]
    by_cases hplain : stage.Plain
    · exact iff_of_false (not_not.mpr (hstep.mem_messages hplain hrow))
        (hplain.not_takes limit row)
    · rw [Stage.Plain, not_forall] at hplain
      obtain ⟨messages, hremove⟩ := hplain
      obtain rfl := not_not.mp hremove
      have hexec : ((Stage.removeMessages messages).call request ambient).exec limit
          server.tables = _ :=
        exec_deleteMessages limit server.tables (messages.map WaitingMessage.id)
      rw [List.length_map] at hexec
      change row ∉ (((Stage.removeMessages messages).call request ambient).exec limit
        server.tables).1.messages ↔ Doomed limit messages row
      rw [hexec, Doomed]
      split_ifs with hlimit
      · exact iff_of_false (not_not.mpr hrow) fun hdoomed ↦ hdoomed.1 hlimit
      · change row ∉ server.tables.messages.filter _ ↔ _
        rw [List.mem_filter, decide_eq_true_iff, not_and, not_not, and_iff_right hlimit]
        exact ⟨fun hgone ↦ hgone hrow, fun hgone _ ↦ hgone⟩
  | _ =>
    simp only [stagedStep, hconnection]
    exact iff_of_false (not_not.mpr hrow) id

theorem Written.mirrors (h : Written limit server order) (horderly : Orderly server) :
    Mirrors limit server.unstage (runEvents (serveNext limit) Tables.empty order) where
  alike := h.alike
  messages := by
    intro row
    rw [h.messages]
    refine and_congr_right fun hrow ↦ not_congr (exists_congr fun connection ↦ ?_)
    rw [takesAway_iff]
    exact (and_iff_right hrow).symm
  pulled := by
    intro connection row htakes
    rw [takesAway_iff] at htakes
    obtain ⟨hrow, htakes⟩ := htakes
    obtain ⟨request, ambient, messages, hbusy, stored, hstored, hid, hclient⟩ :=
      horderly.stored_of_takes htakes
    have hincreasing : (server.inserted.map MessageRow.id).Nodup :=
      horderly.sound.inserted_increasing.imp fun hlt ↦ hlt.ne
    have hsame : stored = row := List.inj_on_of_nodup_map hincreasing hstored
      (horderly.sound.messages_inserted.subset hrow) hid
    refine ⟨request, ?_, (horderly.sound.ready _ _ _ _ hbusy).2.1, hsame ▸ hclient⟩
    rw [running_unstage]
    exact running_of_busy hbusy

theorem Written.accounts_unstage (h : Written limit server order) (connection : ℕ) :
    Accounts server.unstage order connection := by
  refine ⟨_, h.accounts connection, ?_⟩
  cases hconnection : server.connections connection with
  | idle => exact .inl rfl
  | returned request response => exact .inl rfl
  | stopped => exact .inl rfl
  | busy request rest =>
    obtain ⟨ambient, stage⟩ := rest
    cases stage with
    | removeMessages messages =>
      refine .inr ⟨request, pullAnswer limit messages, ?_, rfl⟩
      rw [running_unstage]
      exact running_of_busy hconnection
    | _ => exact .inl rfl

/-- The server is linearizable. Assumes: a run from empty tables in which no method call fails and a
pull begins only while no other pull of the same client is being answered. Then requests can be put
in an order as the run goes on, so that at every moment a server that serves one request after the
other in this order gives every one of them the answer that it has or will have, and has the tables
of the server but for the timestamps and the messages that running pulls are about to take away; and
of each connection the order contains the requests that have been answered and at most the one that
is being handled. So a request that has been answered when another one arrives is in front of it. -/
theorem linearizable (limit : Option ℕ) {events : List Event}
    (hrun : Along (step limit) Undisturbed (initial Handler) events) :
    ∃ order : ℕ → List Served, order 0 = [] ∧ (∀ time, order time <+: order (time + 1)) ∧ ∀ time,
      let server := runEvents (step limit) (initial Handler) (events.take time)
      Along (serveNext limit) (Truthful limit) Tables.empty (order time) ∧
        Mirrors limit server (runEvents (serveNext limit) Tables.empty (order time)) ∧
          ∀ connection, Accounts server (order time) connection := by
  have hstaged : Along (stagedStep limit) Undisturbed (initial Staged) events :=
    ((Along.comm (step_unstage limit)).mp hrun).mono fun server event hguard ↦
      ⟨hguard.1, pullsApart_unstage hguard.2⟩
  have hstart : Written limit (initial Staged) [] := by
    refine ⟨trivial, ⟨rfl, rfl⟩, fun row ↦ ?_, fun _ ↦ rfl⟩
    exact ⟨fun hrow ↦ absurd hrow List.not_mem_nil, fun hrow ↦ absurd hrow.1 List.not_mem_nil⟩
  obtain ⟨order, hzero, hgrows, hkept⟩ := hstaged.exists_history
    (R := fun server order ↦ Orderly server ∧ Written limit server order)
    (fun server event order hguard hboth ↦ by
      obtain ⟨more, hmore⟩ := hboth.2.step hboth.1 hguard
      exact ⟨more, hboth.1.step hguard limit, hmore⟩) ⟨orderly_initial, hstart⟩
  refine ⟨order, hzero, hgrows, fun time ↦ ?_⟩
  obtain ⟨horderly, hwritten⟩ := hkept time
  intro server
  have hview : server = (runEvents (stagedStep limit) (initial Staged)
    (events.take time)).unstage :=
    run_unstage limit (events.take time)
  rw [hview]
  exact ⟨hwritten.truthful, hwritten.mirrors horderly, hwritten.accounts_unstage⟩

end Runs

/-- While the messages of a client are being pulled, between the `SELECT` and the `DELETE`, it sends
itself another one. -/
def sendDuringPull : List Event :=
  (session 0 soloRegistration soloAmbient ++ session 0 (soloSend [7]) soloAmbient ++
    [.arrive 0 soloPull soloAmbient] ++ List.replicate 3 (.call 0 false)) ++
      (session 1 (soloSend [8]) soloAmbient ++ [.call 0 false])

theorem sendDuringPull_undisturbed :
    Along (step none) Undisturbed (initial Handler) sendDuringPull := by
  have hused : ∀ event ∈ sendDuringPull, event.connection < 2 := by decide +kernel
  have hchecked : Along (step none) (fun server event ↦ event.fails = false ∧
      ApartBelow 2 server event) (initial Handler) sendDuringPull := by decide +kernel
  exact (hchecked.and (along_used none hused)).mono fun server event h ↦
    ⟨h.1.1, h.1.2.apart h.2⟩

theorem linearizable_sendDuringPull :
    ∃ order : List Served, Along (serveNext none) (Truthful none) Tables.empty order ∧
      Mirrors none (runEvents (step none) (initial Handler) sendDuringPull)
        (runEvents (serveNext none) Tables.empty order) := by
  obtain ⟨order, -, -, hkept⟩ := linearizable none sendDuringPull_undisturbed
  have hend := hkept sendDuringPull.length
  rw [List.take_length] at hend
  exact ⟨order sendDuringPull.length, hend.1, hend.2.1⟩

end ServerState

end MessageU.Server
