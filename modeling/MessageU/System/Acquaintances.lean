import MessageU.System.Inbox
import MessageU.System.RegisteredIdentity
import MessageU.System.Wire

/-!
# The entries of the cache are registered clients

What a client believes of the others comes from three kinds of responses: the client list names the
clients, a public key is given for an ID, and the sender of a key message gets an entry. The server
answers all three out of its tables, and clients are never removed or changed there, so that the
cache stays right however long it is kept: every entry belongs to a registered client, its name is
the one of the client or missing, and its public key is the one of the client (`Acquainted`).

`acquaintanceSetting` is this as a setting. A thread writes only what a response has told it
(`Learned`), and the requests that it sends go to clients that are registered, with a key that is
encrypted for nobody else (`Directed`). Neither thread relies on more than that the entries stay
right.
-/

set_option autoImplicit false
set_option relaxedAutoImplicit false

namespace MessageU.System

open Library Client Interaction

/-! ### The senders of the messages that are handed out -/

/-- The messages that a connection has selected or carries back come from registered clients. -/
structure Attributed (own : ℕ) (server : Server.ServerState Server.Staged) : Prop where
  selected : ∀ request ambient messages,
    server.connections own = .busy request (ambient, .removeMessages messages) →
      ∀ message ∈ messages, server.tables.Registered message.fromClient
  carried : ∀ message ∈ carried (server.connections own),
    server.tables.Registered message.fromClient

theorem attributed_initial (own : ℕ) : Attributed own (.initial Server.Staged) where
  selected := fun _ _ _ h ↦ by cases h
  carried := fun _ h ↦ absurd h List.not_mem_nil

section Attributed

variable {server : Server.ServerState Server.Staged} {own connection : ℕ}

/-- What another connection does leaves the messages of this one alone. -/
theorem Attributed.congr {after : Server.ServerState Server.Staged} (h : Attributed own server)
    (hsame : after.connections own = server.connections own)
    (hextends : server.tables.identities <+: after.tables.identities) : Attributed own after where
  selected := fun request ambient messages hbusy message hmessage ↦
    (h.selected request ambient messages (hsame.symm.trans hbusy) message hmessage).of_extends
      hextends
  carried := fun message hmessage ↦ by
    rw [hsame] at hmessage
    exact (h.carried message hmessage).of_extends hextends

/-- A call selects and carries back messages of registered clients. -/
theorem Attributed.call (h : Attributed own server) (hsound : Server.ServerState.Sound server)
    {request : Bytes} {ambient : Server.Ambient} {stage : Server.Stage} {after : Server.Tables}
    {row : Option Server.MessageRow} {progress : Server.Progress}
    (hbusy : server.connections own = .busy request (ambient, stage))
    (hstep : Server.StageStep server.tables request ambient stage after row progress) :
    Attributed own ((server.afterCall after row).settle own request
      (Server.ServerState.stagedOutcome ambient progress)) := by
  have hextends := hstep.identities
  have hready := hsound.ready own request ambient stage hbusy
  have hbatch : ∀ message ∈ batchOf progress, after.Registered message.fromClient := by
    rcases waiting_cases hstep (Server.requesterIdOf request) with
      ⟨hnone, -, -⟩ | ⟨messages, rfl, -, -, rfl⟩
    · rw [hnone]
      exact fun _ hmessage ↦ absurd hmessage List.not_mem_nil
    · intro message hmessage
      refine (h.selected request ambient messages hbusy message ?_).of_extends hextends
      rcases batch_caught hready.2.2 with heq | heq
      · rwa [batchOf, heq] at hmessage
      · rw [batchOf, heq] at hmessage
        cases hmessage
  constructor
  · intro other otherAmbient messages hselected message hmessage
    rw [Server.ServerState.settle_tables]
    rcases Server.ServerState.busy_of_settle hselected with ⟨hne, -⟩ | ⟨-, -, -, hgoing⟩
    · exact absurd rfl hne
    · rcases waiting_cases hstep (Server.requesterIdOf request) with
        ⟨-, -, hnext⟩ | ⟨removed, -, -, -, hanswer⟩
      · obtain ⟨-, rfl⟩ := hnext messages hgoing
        obtain ⟨stored, hstored, rfl⟩ := List.mem_map.mp hmessage
        have hsender := (hsound.store.messages stored (List.mem_of_mem_filter hstored)).fromClient
        exact hsender.of_extends hextends
      · rw [hanswer] at hgoing
        cases hgoing
  · intro message hmessage
    rw [Inbox.carried_settle] at hmessage
    rw [Server.ServerState.settle_tables]
    exact hbatch message hmessage

theorem Attributed.step (h : Attributed own server) (hsound : Server.ServerState.Sound server)
    (limit : Option ℕ) (event : Server.Event) : Attributed own (server.stagedStep limit event) := by
  refine Server.ServerState.stagedStep_cases (motive := Attributed own) limit server event h
    (fun connection request ambient _ _ ↦ ?_)
    fun connection fault request ambient stage after row progress _ hbusy hstep ↦ ?_
  · by_cases hsame : own = connection
    · subst hsame
      obtain ⟨hbatch, hnone⟩ := batchOf_start request (Server.requesterIdOf request)
      constructor
      · intro other otherAmbient messages hselected
        rcases Server.ServerState.busy_of_settle hselected with ⟨hne, -⟩ | ⟨-, -, -, hgoing⟩
        · exact absurd rfl hne
        · rw [hgoing, Server.Progress.heldFor, Server.Stage.heldFor, if_pos rfl] at hnone
          cases hnone
      · rw [Inbox.carried_settle, hbatch]
        exact fun _ hmessage ↦ absurd hmessage List.not_mem_nil
    · refine h.congr (Server.ServerState.settle_connections_of_ne server request _ hsame) ?_
      rw [Server.ServerState.settle_tables]
  · by_cases hsame : own = connection
    · subst hsame
      exact h.call hsound hbusy hstep
    · refine h.congr (Server.ServerState.settle_connections_of_ne _ request _ hsame) ?_
      rw [Server.ServerState.settle_tables]
      exact hstep.identities

end Attributed

/-! ### The cache and the registered clients -/

/-- An entry shows a client as it is registered, as far as it shows it. -/
structure Portrays (identity : Identity) (entry : Friend) : Prop where
  id : identity.1 = entry.friendID.val
  name : entry.friendName = [] ∨ entry.friendName = identity.2.1.take (nameSize - 1)
  publicKey : ∀ publicKey, entry.publicKey = some publicKey → publicKey.val = identity.2.2

/-- A client ID that the client uses: the saved one, or a registered one. -/
def Owned (saved : ClientId) (identities : List Identity) (id : ClientId) : Prop :=
  id = saved ∨ id.val ∈ identities.map Prod.fst

theorem Owned.mono {saved id : ClientId} {identities more : List Identity}
    (h : Owned saved identities id) (hmore : identities ⊆ more) : Owned saved more id :=
  h.imp_right fun hid ↦ List.map_subset Prod.fst hmore hid

/-- The cache agrees with the clients that are registered, and so does the client ID, unless it is
the saved one. -/
structure Acquainted (saved : ClientId) (view : View) : Prop where
  ids_nodup : (view.identities.map Prod.fst).Nodup
  names : ∀ identity ∈ view.identities,
    (∀ code ∈ identity.2.1, code < 128) ∧ ∀ code ∈ identity.2.1, code ≠ 0
  known : ∀ uuid entry, view.client.ctx.tryGetFriendCopy uuid = some entry →
    entry.friendID = uuid ∧ ∃ identity ∈ view.identities, Portrays identity entry
  self : Owned saved view.identities view.client.ctx.clientID

/-- A call writes into the context what the identities say. -/
def Learned (identities : List Identity) : ClientCall → Prop
  | .setFriendBase uuid friendName => ∃ identity ∈ identities, identity.1 = uuid.val ∧
    (friendName = [] ∨ friendName = identity.2.1.take (nameSize - 1))
  | .setFriendPublicKey uuid pubKey => ∃ identity ∈ identities, identity.1 = uuid.val ∧
    pubKey.val = identity.2.2
  | .setClientID id => id.val ∈ identities.map Prod.fst
  | _ => True

/-- What the identities say of a request and its response. -/
structure Told (identities : List Identity) (request response : Bytes) : Prop where
  means : Means identities request response
  senders : ∀ message ∈ batch response, message.fromClient ∈ identities.map Prod.fst

theorem Learned.mono {identities more : List Identity} {call : ClientCall}
    (h : Learned identities call) (hmore : identities ⊆ more) : Learned more call := by
  cases call with
  | setFriendBase uuid friendName =>
    obtain ⟨identity, hidentity, hsays⟩ := h
    exact ⟨identity, hmore hidentity, hsays⟩
  | setFriendPublicKey uuid pubKey =>
    obtain ⟨identity, hidentity, hsays⟩ := h
    exact ⟨identity, hmore hidentity, hsays⟩
  | setClientID id => exact List.map_subset Prod.fst hmore h
  | _ => trivial

theorem learned_of_reads {call : ClientCall} (h : call.Reads) (identities : List Identity) :
    Learned identities call := by
  cases call <;> first | exact h.elim | trivial

section Acquainted

variable {saved : ClientId} {view : View}

/-- Two identities of one ID are the same. -/
theorem Acquainted.identity_eq (h : Acquainted saved view) {first second : Identity}
    (hfirst : first ∈ view.identities) (hsecond : second ∈ view.identities)
    (hid : first.1 = second.1) : first = second :=
  List.inj_on_of_nodup_map h.ids_nodup hfirst hsecond hid

/-- A call that writes what the identities say keeps the cache right. -/
theorem Acquainted.exec (h : Acquainted saved view) (crypto : Crypto) {call : ClientCall}
    (hcall : Learned view.identities call) :
    Acquainted saved (view.after (call.exec crypto view.client).1) := by
  cases call with
  | setFriendBase uuid friendName =>
    obtain ⟨identity, hidentity, hid, hname⟩ := hcall
    refine ⟨h.ids_nodup, h.names, fun other entry hentry ↦ ?_, h.self⟩
    simp only [View.after, ClientCall.exec, ClientContext.tryGetFriendCopy_setFriendBase] at hentry
    split_ifs at hentry with hsame
    · subst hsame
      cases hentry
      refine ⟨rfl, identity, hidentity, hid, hname, fun publicKey hkey ↦ ?_⟩
      cases hold : view.client.ctx.tryGetFriendCopy uuid with
      | none =>
        rw [hold] at hkey
        cases hkey
      | some old =>
        rw [hold] at hkey
        obtain ⟨hindexed, shown, hshown, hportrays⟩ := h.known uuid old hold
        have hsame : shown = identity :=
          h.identity_eq hshown hidentity (by rw [hportrays.id, hindexed, hid])
        exact hsame ▸ hportrays.publicKey publicKey hkey
    · exact h.known other entry hentry
  | setFriendPublicKey uuid pubKey =>
    obtain ⟨identity, hidentity, hid, hkey⟩ := hcall
    refine ⟨h.ids_nodup, h.names, fun other entry hentry ↦ ?_, h.self⟩
    simp only [View.after, ClientCall.exec,
      ClientContext.tryGetFriendCopy_setFriendPublicKey] at hentry
    split_ifs at hentry with hsame
    · subst hsame
      obtain ⟨old, hold, rfl⟩ := Option.map_eq_some_iff.mp hentry
      obtain ⟨hindexed, shown, hshown, hportrays⟩ := h.known uuid old hold
      have hsame : shown = identity :=
        h.identity_eq hshown hidentity (by rw [hportrays.id, hindexed, hid])
      refine ⟨hindexed, shown, hshown, hportrays.id, hportrays.name, fun publicKey hset ↦ ?_⟩
      rw [← Option.some.inj hset, hsame]
      exact hkey
    · exact h.known other entry hentry
  | setFriendSymmetricKey uuid symKey =>
    refine ⟨h.ids_nodup, h.names, fun other entry hentry ↦ ?_, h.self⟩
    simp only [View.after, ClientCall.exec,
      ClientContext.tryGetFriendCopy_setFriendSymmetricKey] at hentry
    split_ifs at hentry with hsame
    · obtain ⟨old, hold, rfl⟩ := Option.map_eq_some_iff.mp hentry
      obtain ⟨hindexed, shown, hshown, hportrays⟩ := h.known other old hold
      exact ⟨hindexed, shown, hshown, hportrays.id, hportrays.name, hportrays.publicKey⟩
    · exact h.known other entry hentry
  | setClientID id => exact ⟨h.ids_nodup, h.names, h.known, .inr hcall⟩
  | _ => exact ⟨h.ids_nodup, h.names, h.known, h.self⟩

/-- A name that is found belongs to a registered client of this name. -/
theorem Acquainted.named (h : Acquainted saved view) {name : Bytes} {uuid : ClientId}
    (hfound : view.client.ctx.tryGetFriendIdByName name = some uuid) :
    ∃ identity ∈ view.identities, identity.1 = uuid.val ∧
      (name = [] ∨ name = identity.2.1.take (nameSize - 1)) := by
  obtain ⟨entry, hentry, rfl⟩ := ClientContext.exists_of_tryGetFriendIdByName
    (fun other entry hentry ↦ (h.known other entry hentry).1) hfound
  obtain ⟨hindexed, identity, hidentity, hportrays⟩ := h.known uuid entry hentry
  exact ⟨identity, hidentity, by rw [hportrays.id, hindexed], hportrays.name⟩

/-- A public key that is found is the one of the registered client. -/
theorem Acquainted.keyed (h : Acquainted saved view) {uuid : ClientId}
    {publicKey : FixedBytes publicKeySize}
    (hfound : (view.client.ctx.tryGetFriendCopy uuid).bind Friend.publicKey = some publicKey) :
    ∃ identity ∈ view.identities, identity.1 = uuid.val ∧ publicKey.val = identity.2.2 := by
  obtain ⟨entry, hentry, hkey⟩ := Option.bind_eq_some_iff.mp hfound
  obtain ⟨hindexed, identity, hidentity, hportrays⟩ := h.known uuid entry hentry
  exact ⟨identity, hidentity, by rw [hportrays.id, hindexed], hportrays.publicKey publicKey hkey⟩

end Acquainted

/-! ### Responses -/

section Responses

variable {kind : ClientCall → Prop}

/-- The identity of the client is written, not changed. -/
theorem within_saveMyInfo_of (hreads : ∀ call : ClientCall, call.Reads → kind call)
    (hopen : kind .openMyInfo) (hwrite : ∀ content, kind (.writeMyInfo content)) :
    Within kind saveMyInfo := by
  have hprint : ∀ output, Within kind (ask (.print output)) :=
    fun output ↦ within_call (hreads _ trivial)
  refine within_ask.mpr ⟨hreads _ trivial, fun registered ↦
    within_ask.mpr ⟨hreads _ trivial, fun name ↦ ?_⟩⟩
  refine within_ask.mpr ⟨hreads _ trivial, fun privateKey ↦ ?_⟩
  split_ifs
  · exact hprint _
  refine within_ask.mpr ⟨hopen, fun isOpen ↦ ?_⟩
  split_ifs
  · exact hprint _
  refine within_ask.mpr ⟨hreads _ trivial,
    fun encoded ↦ within_ask.mpr ⟨hreads _ trivial, fun id ↦ ?_⟩⟩
  refine within_ask.mpr ⟨hwrite _, fun written ↦ ?_⟩
  split_ifs
  · exact hprint _
  · exact within_pure _

/-- A registration writes the name and the private key. -/
theorem within_handleRegister_of (hreads : ∀ call : ClientCall, call.Reads → kind call)
    (hname : ∀ name, kind (.setName name)) (hkey : ∀ privKey, kind (.setPrivateKey privKey))
    (rounds : ℕ) : Within kind (handleRegister rounds) := by
  refine within_ask.mpr ⟨hreads _ trivial, fun registered ↦ ?_⟩
  split_ifs
  · exact within_ask.mpr ⟨hreads _ trivial, fun _ ↦ within_pure _⟩
  refine ((within_getValidUsername _ rounds).mono hreads).bind fun name ↦ ?_
  refine within_ask.mpr ⟨hname _, fun _ ↦ within_ask.mpr ⟨hreads _ trivial, fun privateKey ↦ ?_⟩⟩
  refine within_ask.mpr ⟨hkey _, fun _ ↦ within_ask.mpr ⟨hreads _ trivial, fun publicKey ↦ ?_⟩⟩
  exact within_ask.mpr ⟨hreads _ trivial, fun _ ↦ within_pure _⟩

/-- The loop over a client list names its entries. -/
theorem within_listLoop_entries {entries : List ListEntry} (hprint : ∀ output, kind (.print output))
    (hentries : ∀ entry ∈ entries, kind (.setFriendBase entry.1 entry.name)) (front : Bytes)
    (rounds : ℕ) :
    Within kind (listLoop (front ++ entries.flatMap ListEntry.bytes) rounds front.length) := by
  induction rounds generalizing entries front with
  | zero => exact within_throwing _
  | succ rounds ih =>
    rw [listLoop]
    cases entries with
    | nil =>
      rw [if_neg (by simp)]
      exact within_pure _
    | cons entry rest =>
      rw [List.flatMap_cons]
      split_ifs
      · have hread : readClientID (front ++ (entry.bytes ++ rest.flatMap ListEntry.bytes))
            front.length = .ok entry.1 := by
          rw [ListEntry.bytes, List.append_assoc]
          exact readClientID_append front entry.1 _
        have hnext : (front ++ entry.bytes).length = front.length + (clientIdSize + nameSize) := by
          rw [List.length_append, entry.bytes_length]
        rw [hread, entryName_append]
        refine within_ask.mpr ⟨hprint _, fun _ ↦ within_ask.mpr ⟨hentries entry List.mem_cons_self,
          fun _ ↦ ?_⟩⟩
        have hrest := ih (fun other hother ↦ hentries other (List.mem_cons_of_mem _ hother))
          (front ++ entry.bytes)
        rwa [hnext, List.append_assoc] at hrest
      · exact within_pure _

/-- A record gives its sender an entry without a name, and a key. -/
theorem within_handleRecord_from {fromId : ClientId}
    (hlooks : ∀ call : ClientCall, call.Looks → kind call)
    (hbase : kind (.setFriendBase fromId []))
    (hkey : ∀ symKey, kind (.setFriendSymmetricKey fromId symKey)) (msgType : ℕ)
    (content rsaPriv : Bytes) : Within kind (handleRecord fromId msgType content rsaPriv) := by
  have hprint : ∀ output, Within kind (ask (.print output)) :=
    fun output ↦ within_call (hlooks _ trivial)
  refine within_ask.mpr ⟨hlooks _ trivial,
    fun entry ↦ within_ask.mpr ⟨hlooks _ trivial, fun _ ↦ ?_⟩⟩
  refine within_ask.mpr ⟨hlooks _ trivial, fun _ ↦ ?_⟩
  split_ifs
  · exact (hprint _).bind fun _ ↦ hprint _
  · refine Within.bind (Within.attempt (within_ask.mpr ⟨hlooks _ trivial, fun symKeyBin ↦ ?_⟩)
      fun outcome ↦ ?_) fun _ ↦ hprint _
    · split_ifs
      · refine Within.bind (within_ask.mpr ⟨hlooks _ trivial, fun entry ↦ ?_⟩) fun _ ↦
          within_ask.mpr ⟨hkey _, fun _ ↦ hprint _⟩
        split_ifs
        · exact within_call hbase
        · exact within_pure _
      · exact hprint _
    · cases outcome with
      | ok value => exact within_finished _
      | error exception => exact hprint _
  · exact ((within_handleTextMessage fromId content).mono hlooks).bind fun _ ↦ hprint _
  · exact (hprint _).bind fun _ ↦ hprint _

/-- The loop over the records of messages handles them. -/
theorem within_waitingLoop_records {messages : List Server.WaitingMessage}
    (hmessages : ∀ message ∈ messages, Server.Encodable message) {rsaPriv : Bytes}
    (hrecords : ∀ message ∈ messages, Within kind
      (handleRecord (.ofBytes clientIdSize message.fromClient) message.type message.content
        rsaPriv))
    (front : Bytes) (rounds : ℕ) :
    Within kind (waitingLoop (front ++ messages.flatMap Server.recordBytes) rsaPriv rounds
      front.length) := by
  induction rounds generalizing messages front with
  | zero => exact within_throwing _
  | succ rounds ih =>
    cases messages with
    | nil =>
      rw [waitingLoop, if_neg (by simp)]
      exact within_pure _
    | cons message rest =>
      rw [List.flatMap_cons, waitingLoop_record (hmessages message List.mem_cons_self)]
      refine (hrecords message List.mem_cons_self).bind fun _ ↦ ?_
      have hrest := ih (fun other hother ↦ hmessages other (List.mem_cons_of_mem _ hother))
        (fun other hother ↦ hrecords other (List.mem_cons_of_mem _ hother))
        (front ++ Server.recordBytes message)
      rwa [List.append_assoc] at hrest

end Responses

/-- What a response does to the cache is what the identities say. -/
theorem Told.within {identities : List Identity} {request response : Bytes}
    (h : Told identities request response)
    (hnames : ∀ identity ∈ identities,
      (∀ code ∈ identity.2.1, code < 128) ∧ ∀ code ∈ identity.2.1, code ≠ 0) :
    (responseClientMain response).Within (Learned identities) := by
  obtain ⟨reply, hintends, hfits, -, rfl⟩ := h.means
  have hlooks : ∀ call : ClientCall, call.Looks → Learned identities call :=
    fun call hcall ↦ learned_of_reads hcall.reads identities
  have hprint : ∀ output, (ask (.print output)).Within (Learned identities) :=
    fun output ↦ within_call trivial
  rw [responseClientMain_reply]
  cases reply with
  | failed => exact hprint _
  | registered id =>
    have hread : readClientID (Reply.registered id).bytes headerSize = .ok id :=
      readClientID_reply (List.append_nil _).symm
    have hsave : saveMyInfo.Within (Learned identities) :=
      within_saveMyInfo_of (fun call hcall ↦ learned_of_reads hcall identities) trivial
        fun _ ↦ trivial
    dsimp only
    rw [responseRegister, hread]
    refine within_ask.mpr ⟨List.mem_map_of_mem hintends.2, fun _ ↦ hsave.bind fun _ ↦ ?_⟩
    refine within_ask.mpr ⟨trivial, fun _ ↦ within_ask.mpr ⟨trivial, fun name ↦ ?_⟩⟩
    exact within_ask.mpr ⟨trivial, fun _ ↦ within_ask.mpr ⟨trivial, fun id ↦ hprint _⟩⟩
  | listed clients =>
    show (responseClientList _).Within _
    unfold responseClientList
    split_ifs
    · exact within_throwing _
    have hentries : ∀ entry ∈ clients.map listEntry,
        Learned identities (.setFriendBase entry.1 entry.name) := by
      intro entry hentry
      obtain ⟨client, hclient, rfl⟩ := List.mem_map.mp hentry
      obtain ⟨key, hidentity⟩ := (hintends.2 client hclient).2
      obtain ⟨hascii, hnoNul⟩ := hnames _ hidentity
      refine ⟨_, hidentity, ?_, .inr (listEntry_name hascii hnoNul)⟩
      exact (FixedBytes.val_ofBytes (hfits client hclient)).symm
    have hloop := within_listLoop_entries (fun _ ↦ trivial) hentries
      (frameHeader (Reply.listed clients).code (Reply.listed clients).payload.length)
      (Reply.listed clients).bytes.length
    rw [frameHeader_length, ← clientListPayload_eq hfits] at hloop
    exact hloop
  | key id publicKey =>
    obtain ⟨-, -, name, hidentity⟩ := hintends
    have hread : readClientID (Reply.key id publicKey).bytes headerSize = .ok id :=
      readClientID_reply rfl
    have hsize : headerSize + clientIdSize + publicKeySize ≤
        (Reply.key id publicKey).bytes.length := by
      rw [Reply.bytes_length, Reply.payload, List.length_append, id.property, publicKey.property,
        Nat.add_assoc]
    have hfield : publicKeyField (Reply.key id publicKey).bytes hsize = publicKey := by
      refine Subtype.ext ((slice_reply _ clientIdSize publicKeySize).trans ?_)
      rw [Reply.payload, slice_append_right id.property,
        List.take_of_length_le publicKey.property.le]
    dsimp only
    rw [responsePublicKey, dif_pos hsize, hread, hfield]
    have hensure : (ensureFriend id).Within (Learned identities) := by
      refine within_ask.mpr ⟨trivial, fun entry ↦ ?_⟩
      split_ifs
      · exact within_call ⟨_, hidentity, rfl, .inl rfl⟩
      · exact within_pure _
    refine hensure.bind fun _ ↦ within_ask.mpr ⟨⟨_, hidentity, rfl, rfl⟩, fun _ ↦ ?_⟩
    exact within_ask.mpr ⟨trivial, fun _ ↦ hprint _⟩
  | sent target msgId => exact (within_responseMessageSent _).mono hlooks
  | waiting messages =>
    show (responseWaitingMessages _).Within _
    unfold responseWaitingMessages
    split_ifs
    · exact hprint _
    refine within_ask.mpr ⟨trivial, fun privateKey ↦ within_ask.mpr ⟨trivial, fun _ ↦ ?_⟩⟩
    have hbatch : batch (Reply.waiting messages).bytes = messages := batch_frame hfits
    have hrecords : ∀ message ∈ messages, Within (Learned identities) (handleRecord
        (.ofBytes clientIdSize message.fromClient) message.type message.content privateKey) := by
      intro message hmessage
      obtain ⟨identity, hidentity, hid⟩ := List.mem_map.mp
        (h.senders message (hbatch.symm ▸ hmessage))
      refine within_handleRecord_from hlooks ⟨identity, hidentity, ?_, .inl rfl⟩
        (fun _ ↦ trivial) _ _ _
      rw [FixedBytes.val_ofBytes (hfits message hmessage).fromClient, hid]
    have hloop := within_waitingLoop_records hfits hrecords
      (frameHeader (Reply.waiting messages).code (Reply.waiting messages).payload.length)
      (Reply.waiting messages).bytes.length
    rw [frameHeader_length] at hloop
    exact hloop

/-! ### The setting of a thread -/

/-- What a thread sends: a registration, a request without a payload, or one that is for a
registered client. A symmetric key is encrypted with the public key that its target has
registered. -/
inductive Directed (crypto : Crypto) (saved : ClientId) (identities : List Identity)
    (request : Bytes) : Prop
  | registration (hcode : Server.codeOf request = requestRegister)
  | bare (id : ClientId) (code : ℕ) (hid : Owned saved identities id)
    (hcode : code ∈ [requestClientsList, requestWaitingMessages])
    (hrequest : request = Server.requestFrame id.val code [])
  | keyWanted (id : ClientId) (identity : Identity) (hid : Owned saved identities id)
    (hidentity : identity ∈ identities)
    (hrequest : request = Server.requestFrame id.val requestPublicKey identity.1)
  | message (id : ClientId) (identity : Identity) (type : ℕ) (content : Bytes)
    (hid : Owned saved identities id) (hidentity : identity ∈ identities)
    (hrequest : request = Server.requestFrame id.val requestAllMessages
      (Server.messagePayload identity.1 type content))
    (htype : type ∈ [requestSymmetricKey, sendSymmetricKey, sendText])
    (hempty : type = requestSymmetricKey → content = [])
    (hkey : type = sendSymmetricKey → ∃ publicKey seed, ∃ symKey : FixedBytes symmetricKeySize,
      publicKey.val = identity.2.2 ∧ crypto.rsaEncrypt publicKey seed symKey.val = .ok content)

theorem Directed.mono {crypto : Crypto} {saved : ClientId} {identities more : List Identity}
    {request : Bytes} (h : Directed crypto saved identities request) (hmore : identities ⊆ more) :
    Directed crypto saved more request := by
  cases h with
  | registration hcode => exact .registration hcode
  | bare id code hid hcode hrequest => exact .bare id code (hid.mono hmore) hcode hrequest
  | keyWanted id identity hid hidentity hrequest =>
    exact .keyWanted id identity (hid.mono hmore) (hmore hidentity) hrequest
  | message id identity type content hid hidentity hrequest htype hempty hkey =>
    exact .message id identity type content (hid.mono hmore)
      (hmore hidentity) hrequest htype hempty hkey

/-- What a thread relies on: clients stay registered, and the cache stays right. -/
def AcquaintanceRely (saved : ClientId) (before after : View) : Prop :=
  before.identities ⊆ after.identities ∧ (Acquainted saved before → Acquainted saved after)

/-- The calls that a thread may make. -/
def AcquaintanceAllowed (crypto : Crypto) (saved : ClientId) (view : View) : LoopCall → Prop
  | .method call => Learned view.identities call
  | .sendAndReceive data => Directed crypto saved view.identities data

/-- The setting of the cache. -/
def acquaintanceSetting (crypto : Crypto) (saved : ClientId) (_ : Thread) :
    Setting LoopCalls CppError View where
  rely := AcquaintanceRely saved
  allowed := AcquaintanceAllowed crypto saved
  step
    | view, .method call, answer, after =>
      answer = (call.exec crypto view.client).2 ∧
        after = view.after (call.exec crypto view.client).1
    | view, .sendAndReceive data, answer, after =>
      after.client = view.client ∧ after.identities = view.identities ∧
        ∀ response, answer = .ok response → Told view.identities data response

/-- The identities are there, and the cache is right. -/
structure Meets (saved : ClientId) (identities : List Identity) (view : View) : Prop where
  identities : identities ⊆ view.identities
  acquainted : Acquainted saved view

section Setting

variable {crypto : Crypto} {saved : ClientId} {thread : Thread} {view : View}
  {identities : List Identity} {α : Type}

theorem Acquainted.congr {after : View} (h : Acquainted saved view)
    (hctx : after.client.ctx = view.client.ctx)
    (hidentities : after.identities = view.identities) : Acquainted saved after := by
  refine ⟨?_, ?_, ?_, ?_⟩
  · rw [hidentities]
    exact h.ids_nodup
  · rw [hidentities]
    exact h.names
  · rw [hctx, hidentities]
    exact h.known
  · rw [hctx, hidentities]
    exact h.self

theorem tolerant_acquaintanceSetting (crypto : Crypto) (saved : ClientId) (thread : Thread) :
    (acquaintanceSetting crypto saved thread).Tolerant where
  refl := fun _ ↦ ⟨List.Subset.refl _, id⟩
  trans := fun h hnext ↦ ⟨List.Subset.trans h.1 hnext.1, hnext.2 ∘ h.2⟩

theorem executes_acquaintanceSetting :
    Executes crypto (acquaintanceSetting crypto saved thread) View.client View.after :=
  fun _ _ _ _ hstep ↦ hstep

/-- What a thread may do keeps the cache right. -/
theorem acquainted_step {call : LoopCall} {answer : Except CppError call.Result} {after : View}
    (hallowed : AcquaintanceAllowed crypto saved view call)
    (hstep : (acquaintanceSetting crypto saved thread).step view call answer after) :
    after.identities = view.identities ∧ (Acquainted saved view → Acquainted saved after) := by
  cases call with
  | method call =>
    obtain ⟨-, rfl⟩ := hstep
    exact ⟨rfl, fun h ↦ h.exec crypto hallowed⟩
  | sendAndReceive data =>
    obtain ⟨hclient, hidentities, -⟩ := hstep
    exact ⟨hidentities, fun h ↦ h.congr (congrArg ClientState.ctx hclient) hidentities⟩

theorem compatible_acquaintanceSetting (crypto : Crypto) (saved : ClientId) :
    Team.Compatible (acquaintanceSetting crypto saved) := by
  intro first second _ state call answer after hallowed hstep
  obtain ⟨hidentities, hkeeps⟩ := acquainted_step hallowed hstep
  exact ⟨hidentities.symm ▸ List.Subset.refl _, hkeeps⟩

theorem Meets.of_rely {after : View} (h : Meets saved identities view)
    (hrely : AcquaintanceRely saved view after) :
    Meets saved identities after :=
  ⟨List.Subset.trans h.identities hrely.1, hrely.2 h.acquainted⟩

/-- A function that writes what the identities say. -/
theorem guarantees_learned {program : Program α} (hprogram : program.Within (Learned identities))
    (hview : Meets saved identities view) :
    program.Guarantees (methods (acquaintanceSetting crypto saved thread))
      (fun _ after ↦ Meets saved identities after)
      view := by
  refine guarantees_of_within (fun before seen hbefore hrely ↦ hbefore.of_rely hrely)
    (fun call seen hkind hseen ↦ hkind.mono hseen.identities)
    (fun call seen answer after hkind hseen hstep ↦ ?_) (fun _ _ h ↦ h) hprogram hview
  obtain ⟨-, rfl⟩ := hstep
  exact ⟨hseen.identities, hseen.acquainted.exec crypto (hkind.mono hseen.identities)⟩

/-- A function that leaves the cache alone. -/
theorem guarantees_reading {program : Program α} (hprogram : program.Within ClientCall.Reads)
    (hview : Meets saved identities view) :
    program.Guarantees (methods (acquaintanceSetting crypto saved thread))
      (fun _ after ↦ Meets saved identities after)
      view :=
  guarantees_learned (hprogram.mono fun _ hcall ↦ learned_of_reads hcall identities) hview

/-- A call and what follows it. Assumes: a call that is allowed. -/
theorem guarantees_known {post : Except CppError α → View → Prop} {call : ClientCall}
    {next : call.Result → Program α} (hview : Meets saved identities view)
    (hcall : Learned identities call)
    (h : ∀ seen, Meets saved identities seen →
      Meets saved identities (seen.after (call.exec crypto seen.client).1) →
        (proceed next (call.exec crypto seen.client).2).Guarantees
          (methods (acquaintanceSetting crypto saved thread)) post
            (seen.after (call.exec crypto seen.client).1)) :
    (ask call >>= next).Guarantees
      (methods (acquaintanceSetting crypto saved thread)) post view := by
  refine guarantees_method executes_acquaintanceSetting fun seen hrely ↦ ?_
  have hseen := hview.of_rely hrely
  have hlearned := hcall.mono hseen.identities
  exact ⟨hlearned, h seen hseen ⟨hseen.identities, hseen.acquainted.exec crypto hlearned⟩⟩

end Setting

/-! ### Actions -/

section Actions

variable {crypto : Crypto} {saved : ClientId} {thread : Thread} {view : View}
  {identities : List Identity}

/-- What an action ends with: a request that goes to a registered client, if it goes to one. -/
def Sends (crypto : Crypto) (saved : ClientId) (outcome : Except CppError Bytes)
    (view : View) : Prop :=
  Acquainted saved view ∧ ∀ request, outcome = .ok request → request ≠ [] →
    Directed crypto saved view.identities request

theorem Sends.of_rely {outcome : Except CppError Bytes} {after : View}
    (h : Sends crypto saved outcome view) (hrely : AcquaintanceRely saved view after) :
    Sends crypto saved outcome after :=
  ⟨hrely.2 h.1, fun request hrequest hsent ↦ (h.2 request hrequest hsent).mono hrely.1⟩

/-- A program that has ended. -/
theorem guarantees_sends {outcome : Except CppError Bytes} (h : Sends crypto saved outcome view) :
    (finished outcome : Program Bytes).Guarantees
      (methods (acquaintanceSetting crypto saved thread))
      (Sends crypto saved) view :=
  fun _ hrely ↦ h.of_rely hrely

/-- Nothing is sent. -/
theorem guarantees_nothing (hview : Acquainted saved view) :
    (pure [] : Program Bytes).Guarantees (methods (acquaintanceSetting crypto saved thread))
      (Sends crypto saved) view :=
  guarantees_sends ⟨hview, fun _ hrequest hsent ↦ absurd (Except.ok.inj hrequest).symm hsent⟩

/-- A function that says why nothing is sent. -/
theorem guarantees_refusal (hview : Meets saved identities view) (output : Output) :
    (do ask (.print output); pure [] : Program Bytes).Guarantees
      (methods (acquaintanceSetting crypto saved thread)) (Sends crypto saved) view :=
  guarantees_known hview trivial fun _ _ hprinted ↦ guarantees_nothing hprinted.acquainted

/-- A request to a registered client is built. -/
theorem guarantees_sendContent (hview : Meets saved identities view) {target : ClientId}
    {identity : Identity} (hidentity : identity ∈ identities) (hid : identity.1 = target.val)
    {type : ℕ}
    {content : Bytes} (htype : type ∈ [requestSymmetricKey, sendSymmetricKey, sendText])
    (hempty : type = requestSymmetricKey → content = [])
    (hkey : type = sendSymmetricKey → ∃ publicKey seed,
      ∃ symKey : FixedBytes symmetricKeySize, publicKey.val = identity.2.2 ∧
        crypto.rsaEncrypt publicKey seed symKey.val = .ok content) :
    (sendContent (target.val ++ [UInt8.ofNat type]) content).Guarantees
      (methods (acquaintanceSetting crypto saved thread)) (Sends crypto saved) view := by
  refine guarantees_known hview trivial fun seen hseen hafter ↦
    guarantees_sends ⟨hafter.acquainted, fun request hrequest _ ↦ ?_⟩
  have hpayload : appendUint32LE (target.val ++ [UInt8.ofNat type]) content.length ++ content =
      Server.messagePayload identity.1 type content := by
    rw [appendUint32LE, List.append_assoc, List.append_assoc, hid]
    rfl
  rw [← Except.ok.inj hrequest, createBuffer_eq, hpayload]
  exact .message _ identity type content hseen.acquainted.self
    (hseen.identities hidentity) rfl htype
    hempty hkey

/-- The content of a key message is encrypted with the public key that the target has registered. -/
theorem sends_handleSendSymmetricKey (hview : Meets saved identities view) (target : ClientId) :
    (handleSendSymmetricKey target).Guarantees (methods (acquaintanceSetting crypto saved thread))
      (fun outcome after ↦ Acquainted saved after ∧ ∀ content,
        outcome = .ok content → content = [] ∨
        ∃ identity ∈ after.identities, identity.1 = target.val ∧ ∃ publicKey seed,
          ∃ symKey : FixedBytes symmetricKeySize, publicKey.val = identity.2.2 ∧
            crypto.rsaEncrypt publicKey seed symKey.val = .ok content) view := by
  refine guarantees_known hview trivial fun seen hseen _ ↦ ?_
  have hanswer : (ClientCall.exec crypto seen.client (.tryGetFriendCopy target)).2 =
      .ok (seen.client.ctx.tryGetFriendCopy target) := rfl
  rw [hanswer, proceed_ok]
  cases hfound : (seen.client.ctx.tryGetFriendCopy target).bind Friend.publicKey with
  | none =>
    refine guarantees_known hseen trivial fun printed _ hprinted ↦ fun later hrely ↦ ?_
    refine ⟨hrely.2 hprinted.acquainted, fun content hcontent ↦ .inl ?_⟩
    cases hcontent
    rfl
  | some publicKey =>
    obtain ⟨identity, hidentity, hid, hkey⟩ := hseen.acquainted.keyed hfound
    have hstart : Meets saved seen.identities seen := ⟨List.Subset.refl _, hseen.acquainted⟩
    refine guarantees_known hstart trivial fun drawn _ hdrawn ↦ ?_
    refine guarantees_known hdrawn trivial fun keyed _ hkeyed ↦ ?_
    refine guarantees_known hkeyed trivial fun loaded _ hloaded ↦ ?_
    show Guarantees _ _ (proceed _ (if crypto.loadsPublicKey publicKey then Except.ok () else
      .error CppError.cryptoError)) loaded
    split_ifs
    · refine fun last hrely ↦ ⟨trivial, fun answer after hstep ↦ fun final hfinal ↦ ?_⟩
      obtain ⟨rfl, rfl⟩ := hstep
      have hlast := hloaded.of_rely hrely
      refine ⟨hfinal.2 (hlast.acquainted.congr rfl rfl), fun content hcontent ↦ .inr ?_⟩
      exact ⟨identity, hfinal.1 (hlast.identities hidentity), hid, publicKey, _, _, hkey, hcontent⟩
    · exact fun later hrely ↦ ⟨hrely.2 hloaded.acquainted, fun _ h ↦ by cases h⟩

/-- A request to the client whose name was typed. -/
theorem sends_handlePublicKey (hview : Meets saved identities view) (rounds : ℕ) :
    (handlePublicKey rounds).Guarantees (methods (acquaintanceSetting crypto saved thread))
      (Sends crypto saved)
      view := by
  have hsetting := tolerant_methods (tolerant_acquaintanceSetting crypto saved thread)
  refine (guarantees_reading (within_getValidUsername _ rounds) hview).bind hsetting
    (fun _ after hafter seen hrely ↦ ⟨hrely.2 hafter.acquainted, fun _ h ↦ by cases h⟩)
    fun name after hafter ↦ ?_
  split_ifs
  · exact guarantees_nothing hafter.acquainted
  refine guarantees_known hafter trivial fun seen hseen _ ↦ ?_
  have hanswer : (ClientCall.exec crypto seen.client (.tryGetFriendIdByName name)).2 =
      .ok (seen.client.ctx.tryGetFriendIdByName name) := rfl
  rw [hanswer]
  cases hfound : seen.client.ctx.tryGetFriendIdByName name with
  | none => exact guarantees_refusal hseen _
  | some target =>
    obtain ⟨identity, hidentity, hid, -⟩ := hseen.acquainted.named hfound
    have hstart : Meets saved seen.identities seen := ⟨List.Subset.refl _, hseen.acquainted⟩
    refine guarantees_known hstart trivial fun last hseen hlast ↦
      guarantees_sends ⟨hlast.acquainted, fun request hrequest _ ↦ ?_⟩
    rw [← Except.ok.inj hrequest, createBuffer_eq, ← hid]
    exact .keyWanted _ identity hseen.acquainted.self (hlast.identities hidentity) rfl

/-- A message to the client whose name was typed. -/
theorem sends_handleAllMessages (hview : Meets saved identities view) (rounds : ℕ) {choice : ℕ}
    (hchoice : choice ∈ [sendTextChoice, requestSymmetricKeyChoice, sendSymmetricKeyChoice]) :
    (handleAllMessages rounds choice).Guarantees (methods (acquaintanceSetting crypto saved thread))
      (Sends crypto saved) view := by
  have hsetting := tolerant_methods (tolerant_acquaintanceSetting crypto saved thread)
  refine (guarantees_reading (within_getValidUsername _ rounds) hview).bind hsetting
    (fun _ after hafter seen hrely ↦ ⟨hrely.2 hafter.acquainted, fun _ h ↦ by cases h⟩)
    fun name after hafter ↦ ?_
  by_cases hzero : name = zeroName
  · rw [if_pos hzero]
    exact guarantees_nothing hafter.acquainted
  rw [if_neg hzero]
  refine guarantees_known hafter trivial fun seen hseen _ ↦ ?_
  have hanswer : (ClientCall.exec crypto seen.client (.tryGetFriendIdByName name)).2 =
      .ok (seen.client.ctx.tryGetFriendIdByName name) := rfl
  rw [hanswer]
  cases hfound : seen.client.ctx.tryGetFriendIdByName name with
  | none => exact guarantees_refusal hseen _
  | some target =>
    obtain ⟨identity, hidentity, hid, -⟩ := hseen.acquainted.named hfound
    have hstart : Meets saved seen.identities seen := ⟨List.Subset.refl _, hseen.acquainted⟩
    simp only [List.mem_cons, List.not_mem_nil, or_false] at hchoice
    rw [proceed_ok]
    dsimp only
    rcases hchoice with rfl | rfl | rfl
    · rw [if_pos rfl]
      refine (guarantees_reading (within_handleSendText rounds target) hstart).bind hsetting
        (fun _ after hafter seen hrely ↦ ⟨hrely.2 hafter.acquainted, fun _ h ↦ by cases h⟩)
        fun content last hlast ↦ ?_
      split_ifs
      · exact guarantees_nothing hlast.acquainted
      · exact guarantees_sendContent hlast hidentity hid (by simp) (fun h ↦ by cases h)
          fun h ↦ by cases h
    · rw [if_neg (by decide), if_pos rfl]
      exact guarantees_sendContent hstart hidentity hid (by simp) (fun _ ↦ rfl) fun h ↦ by cases h
    · rw [if_neg (by decide), if_neg (by decide), if_pos rfl]
      refine (sends_handleSendSymmetricKey hstart target).bind hsetting
        (fun _ after hafter seen hrely ↦ ⟨hrely.2 hafter.1, fun _ h ↦ by cases h⟩)
        fun content last hlast ↦ ?_
      split_ifs with hempty
      · exact guarantees_nothing hlast.1
      · obtain ⟨other, hother, hotherId, hkey⟩ := (hlast.2 content rfl).resolve_left hempty
        exact guarantees_sendContent ⟨List.Subset.refl _, hlast.1⟩ hother hotherId (by simp)
          (fun h ↦ by cases h) fun _ ↦ hkey

/-- An action. -/
theorem sends_handleMenuChoice (hview : Meets saved identities view) (rounds choice : ℕ) :
    (handleMenuChoice rounds choice).Guarantees (methods (acquaintanceSetting crypto saved thread))
      (Sends crypto saved) view := by
  have hbare : ∀ {view : View} (code : ℕ), Meets saved identities view →
      code ∈ [requestClientsList, requestWaitingMessages] →
        (do let id ← ask .getClientID; pure (createBuffer id code []) : Program Bytes).Guarantees
          (methods (acquaintanceSetting crypto saved thread)) (Sends crypto saved) view := by
    intro view code hview hcode
    refine guarantees_known hview trivial fun seen hseen hafter ↦
      guarantees_sends ⟨hafter.acquainted, fun request hrequest _ ↦ ?_⟩
    rw [← Except.ok.inj hrequest, createBuffer_eq]
    exact .bare _ code hseen.acquainted.self hcode rfl
  unfold handleMenuChoice
  split_ifs
  · have hlearned : (handleRegister rounds).Within (Learned identities) :=
      within_handleRegister_of (fun call hcall ↦ learned_of_reads hcall identities)
        (fun _ ↦ trivial)
        (fun _ ↦ trivial) rounds
    have hreturns : (handleRegister rounds).Returns
        fun request ↦ request = [] ∨ Server.codeOf request = requestRegister := by
      refine returns_handleRegister (.inl rfl) fun id payload ↦ .inr ?_
      rw [createBuffer_eq, Server.codeOf_requestFrame id.property (by simp)]
    refine ((guarantees_learned hlearned hview).and_returns hreturns).mono
      fun outcome after hafter ↦ ?_
    exact ⟨hafter.1.acquainted, fun request hrequest hsent ↦
      .registration ((hafter.2 request hrequest).resolve_left hsent)⟩
  · exact hbare requestClientsList hview (by simp)
  · exact sends_handlePublicKey hview rounds
  · exact hbare requestWaitingMessages hview (by simp)
  · exact sends_handleAllMessages hview rounds (by simp)
  · exact sends_handleAllMessages hview rounds (by simp)
  · exact sends_handleAllMessages hview rounds (by simp)
  · exact guarantees_nothing hview.acquainted

end Actions

/-! ### Rounds -/

section Rounds

variable {crypto : Crypto} {saved : ClientId} {thread : Thread} {view : View}

/-- An exchange, and the processing of its response. -/
theorem guarantees_exchanged {program : Bytes → Program Unit} {data : Bytes}
    (hprogram : ∀ identities response, Told identities data response →
      (∀ identity ∈ identities,
        (∀ code ∈ identity.2.1, code < 128) ∧ ∀ code ∈ identity.2.1, code ≠ 0) →
          (program response).Within (Learned identities))
    (hview : Acquainted saved view) (hdirected : Directed crypto saved view.identities data) :
    (exchange data >>= fun buffer ↦ here (program buffer)).Guarantees
      (acquaintanceSetting crypto saved thread)
      (fun _ after ↦ Acquainted saved after) view := by
  refine fun seen hrely ↦ ⟨hdirected.mono hrely.1, fun answer after hstep ↦ ?_⟩
  obtain ⟨hclient, hidentities, htold⟩ := hstep
  have hafter : Acquainted saved after :=
    (hrely.2 hview).congr (congrArg ClientState.ctx hclient) hidentities
  cases answer with
  | error exception => exact fun later hlater ↦ hlater.2 hafter
  | ok response =>
    have hresponse : Told after.identities data response := hidentities ▸ htold response rfl
    refine guarantees_here ((guarantees_learned (hprogram _ response hresponse hafter.names)
      ⟨List.Subset.refl _, hafter⟩).mono fun _ _ h ↦ h.acquainted)

/-- A round of the main thread. -/
theorem guarantees_acquainted_main (hview : Acquainted saved view) (rounds choice : ℕ) :
    (mainTurn rounds choice).Guarantees (acquaintanceSetting crypto saved thread)
      (fun _ after ↦ Acquainted saved after) view := by
  have hsetting := tolerant_acquaintanceSetting crypto saved thread
  refine (guarantees_here (sends_handleMenuChoice ⟨List.Subset.refl _, hview⟩ rounds choice)).bind
    hsetting (fun _ after hafter seen hrely ↦ hrely.2 hafter.1) fun data after hafter ↦ ?_
  split_ifs with hsent
  · exact fun seen hrely ↦ hrely.2 hafter.1
  · exact guarantees_exchanged (fun _ _ htold hnames ↦ htold.within hnames) hafter.1
      (hafter.2 data rfl hsent)

/-- The client ID is the saved one or a registered one. -/
theorem guarantees_getClientID (hview : Acquainted saved view) :
    (ask .getClientID).Guarantees (methods (acquaintanceSetting crypto saved thread))
      (fun outcome after ↦ Acquainted saved after ∧ ∀ id, outcome = .ok id →
        Owned saved after.identities id) view := by
  refine fun seen hrely ↦ ⟨trivial, fun answer after hstep last hlast ↦ ?_⟩
  obtain ⟨rfl, rfl⟩ := hstep
  have hseen := hrely.2 hview
  refine ⟨hlast.2 (hseen.congr rfl rfl), fun id hid ↦ ?_⟩
  cases hid
  exact hseen.self.mono hlast.1

/-- A round of the pull thread. -/
theorem guarantees_acquainted_pull (hview : Acquainted saved view) :
    pullTurn.Guarantees (acquaintanceSetting crypto saved thread)
      (fun _ after ↦ Acquainted saved after) view := by
  have hsetting := tolerant_acquaintanceSetting crypto saved thread
  have hreads : ∀ {view : View} (call : ClientCall), call.Reads → Acquainted saved view →
      (here (ask call)).Guarantees (acquaintanceSetting crypto saved thread)
        (fun _ after ↦ Acquainted saved after) view := fun call hcall hview ↦
    guarantees_here ((guarantees_reading (within_call hcall) ⟨List.Subset.refl _, hview⟩).mono
      fun _ _ h ↦ h.acquainted)
  refine (hreads .hasClientID trivial hview).bind hsetting (fun _ _ hafter _ hrely ↦ hrely.2 hafter)
    fun registered after hafter ↦ ?_
  split_ifs
  · exact fun seen hrely ↦ hrely.2 hafter
  refine Guarantees.attempt hsetting
    (show Guarantees _ (fun _ after ↦ Acquainted saved after) _ after from ?_)
    fun outcome last hlast ↦ ?_
  · refine (guarantees_here (guarantees_getClientID hafter)).bind hsetting
      (fun _ _ hafter _ hrely ↦ hrely.2 hafter.1) fun id last hlast ↦ ?_
    obtain ⟨hlast, hid⟩ := hlast
    have hdirected : Directed crypto saved last.identities
        (createBuffer id requestWaitingMessages []) :=
      .bare id _ (hid id rfl) (by simp) (createBuffer_eq _ _ _)
    have hprogram : ∀ identities response,
        Told identities (createBuffer id requestWaitingMessages []) response →
          (∀ identity ∈ identities,
            (∀ code ∈ identity.2.1, code < 128) ∧ ∀ code ∈ identity.2.1, code ≠ 0) →
              Within (Learned identities)
                (ask (.print (.text "Pulling waiting messages automatically:\n")) >>= fun _ ↦
                  responseClientMain response) :=
      fun _ _ htold hnames ↦ within_ask.mpr ⟨trivial, fun _ ↦ htold.within hnames⟩
    have hround := @guarantees_exchanged crypto saved thread last _ _ hprogram hlast hdirected
    simp only [here_bind] at hround
    exact hround
  · cases outcome <;> exact fun seen hrely ↦ hrely.2 hlast

end Rounds

/-! ### Runs -/

/-- The cache stays right when more clients are registered. -/
theorem Acquainted.extend {saved : ClientId} {view after : View} (h : Acquainted saved view)
    {tables : Server.Tables}
    (hstore : Server.Store tables) (hctx : after.client.ctx = view.client.ctx)
    (hmore : view.identities ⊆ after.identities) (htables : after.identities = tables.identities) :
    Acquainted saved after where
  ids_nodup := by
    rw [htables, Server.Tables.identities, List.map_map]
    exact tables.clientIds_nodup
  names := fun identity hidentity ↦ by
    rw [htables] at hidentity
    obtain ⟨row, hrow, rfl⟩ := List.mem_map.mp hidentity
    exact ⟨(hstore.clients row hrow).name_ascii, (hstore.clients row hrow).name_noNul⟩
  known := fun uuid entry hentry ↦ by
    rw [hctx] at hentry
    obtain ⟨hindexed, identity, hidentity, hportrays⟩ := h.known uuid entry hentry
    exact ⟨hindexed, identity, hmore hidentity, hportrays⟩
  self := by
    rw [hctx]
    exact h.self.mono hmore

namespace Session

/-- What holds at every moment of a run. -/
structure Acquainting (own : ℕ) (crypto : Crypto) (saved : ClientId) (session : Session) :
    Prop where
  linked : session.Linked own
  attributed : ∃ staged, session.link.Sound own staged ∧ Attributed own staged
  sound : session.team.Sound (acquaintanceSetting crypto saved) fun _ _ view ↦ Acquainted saved view
  acquainted : Acquainted saved session.view
  directed : ∀ data, session.link.request own = some data →
    Directed crypto saved session.link.identities data

variable {limit : Option ℕ} {own : ℕ} {crypto : Crypto} {saved : ClientId} {session : Session}

theorem acquainting_start (own : ℕ) (crypto : Crypto) (client : ClientState) :
    (start client).Acquainting own crypto client.ctx.clientID := by
  have hacquainted : Acquainted client.ctx.clientID (start client).view := by
    refine ⟨List.nodup_nil, fun _ h ↦ absurd h List.not_mem_nil, fun uuid entry hentry ↦ ?_,
      .inl rfl⟩
    have hnone : (start client).ctx.tryGetFriendCopy uuid = none := by
      show (∅ : Friends)[uuid]? = none
      simp
    exact absurd (hnone.symm.trans hentry) (by simp)
  exact
    { linked := linked_start own client
      attributed := ⟨_, Link.sound_fresh own, attributed_initial own⟩
      sound := fun _ _ hrely ↦ hrely.2 hacquainted
      acquainted := hacquainted
      directed := fun _ h ↦ by cases h }

/-- A response that a thread reads says what the identities say. -/
theorem Acquainting.told (h : session.Acquainting own crypto saved) {thread : Thread}
    {data response : Bytes}
    (hresponse : session.link.response own thread = some response)
    (hrequest : session.link.request own = some data) :
    Told session.link.identities data response := by
  refine ⟨h.linked.means hresponse hrequest, fun message hmessage ↦ ?_⟩
  obtain ⟨staged, hsound, hattributed⟩ := h.attributed
  obtain ⟨-, -, request, hreturned⟩ := hsound.returned hresponse
  have hcarried : message ∈ carried (staged.connections own) := by
    rw [hreturned]
    exact hmessage
  rw [hsound.identities, ← Server.Tables.registered_iff]
  exact hattributed.carried message hcarried

/-- A thread makes its next call. -/
theorem Acquainting.act (h : session.Acquainting own crypto saved) {thread : Thread}
    {call : LoopCall}
    {resume : Except CppError call.Result → Loop Unit} {answer : Except CppError call.Result}
    {after : Session} (hrest : session.threads.rest thread = .request call resume)
    (hstep : (acquaintanceSetting crypto saved thread).step session.view call answer after.view)
    (hafter : after.threads.rest = (session.threads.launch thread after.threads.shared
      (resume answer)).rest) (hlinked : after.Linked own)
    (hattributed : ∃ staged, after.link.Sound own staged ∧ Attributed own staged)
    (hrequest : after.link.request own = session.link.request own) :
    after.Acquainting own crypto saved := by
  have hsetting := tolerant_acquaintanceSetting crypto saved
  have hallowed := h.sound.allowed hsetting hrest
  obtain ⟨hidentities, hkeeps⟩ := acquainted_step hallowed hstep
  have hteam : after.team = session.team.launch thread after.view (resume answer) := by
    rw [team, hafter]
    rfl
  refine ⟨hlinked, hattributed, ?_, hkeeps h.acquainted, fun data hdata ↦ ?_⟩
  · rw [hteam]
    exact h.sound.act hsetting (compatible_acquaintanceSetting crypto saved) hrest hstep
  · rw [hrequest] at hdata
    have hsame : after.link.identities = session.link.identities := hidentities
    rw [hsame]
    exact h.directed data hdata

/-- Something happens at the server. -/
theorem Acquainting.disturb (h : session.Acquainting own crypto saved) {link : Link}
    {staged : Server.ServerState Server.Staged}
    (hidentities : session.link.identities ⊆ link.identities)
    (hlinked : Linked own { session with link := link }) (hsound : link.Sound own staged)
    (hattributed : Attributed own staged)
    (hdirected : ∀ data, link.request own = some data →
      Directed crypto saved link.identities data) :
    Acquainting own crypto saved { session with link := link } := by
  have hextend : ∀ view : View, view.identities = session.link.identities → Acquainted saved view →
      Acquainted saved { view with identities := link.identities } := fun view hview hacquainted ↦
    hacquainted.extend hsound.answers.sound.store rfl (hview ▸ hidentities) hsound.identities
  exact
    { linked := hlinked
      attributed := ⟨staged, hsound, hattributed⟩
      sound := h.sound.disturb (tolerant_acquaintanceSetting crypto saved) fun _ ↦
        ⟨hidentities, hextend session.view rfl⟩
      acquainted := hextend session.view rfl h.acquainted
      directed := hdirected }

theorem Acquainting.step (h : session.Acquainting own crypto saved) (limit : Option ℕ)
    (event : SessionEvent) :
    (session.step limit own crypto event).Acquainting own crypto saved := by
  have hsetting := tolerant_acquaintanceSetting crypto saved
  obtain ⟨staged, hsound, hattributed⟩ := h.attributed
  have hlinked := h.linked.step limit crypto event
  revert hlinked
  refine step_cases
    (motive := fun after ↦ after.Linked own → after.Acquainting own crypto saved) h.linked
    limit crypto event (fun _ ↦ h) (fun choice surroundings _ hrest hlinked ↦ ?_)
    (fun outcome hrest hlinked ↦ ?_) (fun thread call resume _ hrest hlinked ↦ ?_)
    (fun thread data resume ambient _ hrest hlinked ↦ ?_)
    (fun thread data resume response outcome _ hrest hresponse hrequest hlinked ↦ ?_)
    (fun thread data resume exception _ hrest hlinked ↦ ?_) fun happening _ hlinked ↦ ?_
  · let prepared : View := session.view.after (surroundings.apply session.threads.shared.client)
    have hprepared : Acquainted saved prepared := h.acquainted.congr rfl rfl
    exact ⟨hlinked, h.attributed, h.sound.launch hsetting
      (fun _ _ ↦ ⟨List.Subset.refl _, fun hview ↦ hview.congr rfl rfl⟩)
      (guarantees_acquainted_main hprepared _ choice), hprepared, h.directed⟩
  · exact ⟨hlinked, h.attributed, h.sound.launch hsetting (fun other _ ↦ (hsetting other).refl _)
      (guarantees_acquainted_pull h.acquainted), h.acquainted, h.directed⟩
  · exact h.act hrest ⟨rfl, rfl⟩ rfl hlinked h.attributed rfl
  · rcases hsound.send limit thread data ambient with hsame | ⟨-, -, hasking, -, htaken, hafter⟩
    · rw [hsame]
      exact h
    · have hidentities := hsound.identities_send limit thread data ambient
      refine h.disturb hidentities hlinked hafter
        (hattributed.step hsound.answers.sound limit _) fun request hrequest ↦ ?_
      rw [hafter.request, htaken, requestAt_settle] at hrequest
      cases hrequest
      exact (h.sound.allowed hsetting hrest).mono hidentities
  · have htold := h.told hresponse hrequest
    have hreleased : ∃ staged, session.link.release.Sound own staged ∧ Attributed own staged :=
      ⟨staged, hsound.release hresponse, hattributed⟩
    cases outcome with
    | ok value =>
      refine h.act hrest ⟨rfl, rfl, fun other hother ↦ ?_⟩ rfl hlinked hreleased rfl
      cases hother
      exact htold
    | error exception =>
      exact h.act hrest ⟨rfl, rfl, fun other hother ↦ by cases hother⟩ rfl hlinked hreleased rfl
  · have hbroken : (session.link.broken thread).request own = session.link.request own := by
      rw [Link.broken]
      split_ifs <;> rfl
    exact h.act hrest ⟨rfl, session.link.identities_broken thread,
      fun other hother ↦ by cases hother⟩
      rfl hlinked ⟨staged, hsound.broken thread, hattributed⟩ hbroken
  · rcases hsound.serve limit happening with hsame | ⟨hother, hasking, -, hafter⟩
    · rw [hsame]
      exact h
    · have hidentities := hsound.identities_serve limit happening
      refine h.disturb hidentities hlinked hafter
        (hattributed.step hsound.answers.sound limit happening) fun data hrequest ↦ ?_
      rw [hafter.request, requestAt_stagedStep limit happening hother, ← hsound.request] at hrequest
      exact (h.directed data hrequest).mono hidentities

/-- The invariant in a run in which responses are matched to their requests. -/
theorem acquainting_wire (limit : Option ℕ) (own : ℕ) (crypto : Crypto) (client : ClientState)
    {events : List WireEvent}
    (hrun : Along (wireStep limit own crypto) Matched (start client) events) :
    (runEvents (wireStep limit own crypto) (start client) events).whole.Acquainting own crypto
      client.ctx.clientID := by
  refine hrun.invariant
    (P := fun session ↦ session.whole.Acquainting own crypto client.ctx.clientID)
    (fun session event hmatched h ↦ ?_) (acquainting_start own crypto client)
  exact whole_keeps (P := Acquainting own crypto client.ctx.clientID) hmatched h
    fun happened _ ↦ h.step limit happened

/-- In every run of a client in which responses are matched to their requests, whatever its two
threads and the server do: an entry of the cache belongs to a registered client, shows no name or
its name, cut to 254 bytes, and no public key or its key; a name that is found in the cache leads to
a registered client of this name; and a request of the client at the server is a registration or
carries the ID that the client began with or a registered one, and one for a key or with a message
goes to a registered client, a symmetric key encrypted with the public key of just this one. -/
theorem cache_registered (limit : Option ℕ) (own : ℕ) (crypto : Crypto) (client : ClientState)
    {events : List WireEvent}
    (hrun : Along (wireStep limit own crypto) Matched (start client) events) :
    let session := runEvents (wireStep limit own crypto) (start client) events
    (∀ uuid entry, session.ctx.tryGetFriendCopy uuid = some entry →
        ∃ row ∈ session.link.server.tables.clients, row.id = uuid.val ∧
          (entry.friendName = [] ∨ entry.friendName = row.userName.take (nameSize - 1)) ∧
            ∀ publicKey, entry.publicKey = some publicKey → publicKey.val = row.publicKey) ∧
      (∀ name uuid, name ≠ [] → session.ctx.tryGetFriendIdByName name = some uuid →
        ∃ row ∈ session.link.server.tables.clients, row.id = uuid.val ∧
          row.userName.take (nameSize - 1) = name) ∧
      ∀ data, session.link.request own = some data →
        Directed crypto client.ctx.clientID session.link.server.tables.identities data := by
  intro session
  have h := acquainting_wire limit own crypto client hrun
  have hctx : session.whole.ctx = session.ctx := congrArg Threads.ctx (whole_threads session)
  have hserver := whole_server session
  refine ⟨fun uuid entry hentry ↦ ?_, fun name uuid hname hfound ↦ ?_, fun data hrequest ↦ ?_⟩
  · rw [← hctx] at hentry
    obtain ⟨hindexed, identity, hidentity, hportrays⟩ := h.acquainted.known uuid entry hentry
    obtain ⟨row, hrow, rfl⟩ := List.mem_map.mp hidentity
    rw [← hserver]
    exact ⟨row, hrow, by rw [← hindexed]; exact hportrays.id, hportrays.name, hportrays.publicKey⟩
  · rw [← hctx] at hfound
    obtain ⟨identity, hidentity, hid, hshown⟩ := h.acquainted.named hfound
    obtain ⟨row, hrow, rfl⟩ := List.mem_map.mp hidentity
    rw [← hserver]
    exact ⟨row, hrow, hid, (hshown.resolve_left hname).symm⟩
  · have hwhole : session.whole.link.request own = some data := by
      rw [Link.request, hserver]
      exact hrequest
    rw [← hserver]
    exact h.directed data hwhole

/-- The pull of the newcomer throws behind its request, and then it asks for the clients list. -/
def interruptedPull : List SessionEvent :=
  newcomerRun ++ [.wake, .act .pull, .act .pull, .send .pull newcomerAmbient,
    .fail .pull .cryptoError,
    .choose clientsListChoice ⟨[], ⟨.zero symmetricKeySize, 3⟩, .ok true, true⟩, .act .main]

/-- The request that stays at the server is one that the client may send. -/
theorem cache_registered_interrupted :
    let session := runEvents (wireStep none 0 .tagged) (start newcomer)
      (interruptedPull.map .session)
    ∃ data, session.link.request 0 = some data ∧
      Directed .tagged newcomer.ctx.clientID session.link.server.tables.identities data := by
  have hdirected := (cache_registered none 0 .tagged newcomer
    (show Along (wireStep none 0 .tagged) Matched (start newcomer)
      (interruptedPull.map .session) by decide +kernel)).2.2
  have hrequest : ((runEvents (wireStep none 0 .tagged) (start newcomer)
      (interruptedPull.map .session)).link.request 0).isSome = true := by decide +kernel
  obtain ⟨data, hdata⟩ := Option.isSome_iff_exists.mp hrequest
  exact ⟨data, hdata, hdirected data hdata⟩

/-- A clients list with a client that is not registered. -/
def forgedList : Bytes :=
  Server.responseFrame Server.responseClientList
    (List.replicate clientIdSize 9 ++ 66 :: List.replicate (nameSize - 1) 0)

/-- If the next exchange is made all the same and comes upon bytes that look like a clients list, a
client that is not registered comes into the cache. -/
theorem misread_unregistered :
    let session := runEvents (wireStep none 0 .tagged) (start newcomer)
      (interruptedPull.map .session ++ .misread .main (.ok forgedList) ::
        List.replicate 6 (.session (.act .main)))
    session.ctx.tryGetFriendIdByName [66] =
      some (.ofBytes clientIdSize (List.replicate clientIdSize 9)) ∧
      ∀ row ∈ session.link.server.tables.clients, row.id ≠ List.replicate clientIdSize 9 := by
  decide +kernel

end Session

end MessageU.System
