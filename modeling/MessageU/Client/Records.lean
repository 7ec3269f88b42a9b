import MessageU.Client.Actions
import MessageU.Client.ClientList

/-!
# Waiting messages at the client

What a client does with the records of a response to its pull. `exec_handleRecord` says what one
record does: a symmetric key that decrypts to sixteen bytes is set for its sender
(`ClientContext.receive`), and something is printed for every record (`recordOutput`); no exception
leaves the handler. `exec_waitingLoop` is the loop over the records that the server has put one
after the other, and `responseClientMain_waiting` is the client on the response of the server: it
reads every message, in order. `symmetricKeyFor_foldl` says which key the client holds for a sender
afterwards: the last one that it has read from the sender.
-/

set_option autoImplicit false
set_option relaxedAutoImplicit false

namespace MessageU.Client

open Library Interaction

/-! ### What a record does -/

/-- `if (!ctx.tryGetFriendCopy(id)) ctx.setFriendBase(id, "")` on the context. -/
def ClientContext.ensured (ctx : ClientContext) (id : ClientId) : ClientContext :=
  if (ctx.tryGetFriendCopy id).isNone then ctx.setFriendBase id [] else ctx

/-- The symmetric key in the content of a message, if it decrypts to sixteen bytes. -/
def deliveredKey (crypto : Crypto) (privateKey content : Bytes) :
    Option (FixedBytes symmetricKeySize) :=
  match crypto.rsaDecrypt privateKey content with
  | .ok symKeyBin => if h : symKeyBin.length = symmetricKeySize then some ⟨symKeyBin, h⟩ else none
  | .error _ => none

/-- A context after a record. -/
def ClientContext.receive (crypto : Crypto) (privateKey : Bytes) (ctx : ClientContext)
    (fromId : ClientId) (msgType : ℕ) (content : Bytes) : ClientContext :=
  if msgType = sendSymmetricKey then
    match deliveredKey crypto privateKey content with
    | some key => (ctx.ensured fromId).setFriendSymmetricKey fromId key
    | none => ctx
  else ctx

/-- What is printed for the content of a text message. -/
def textOutput (crypto : Crypto) (ctx : ClientContext) (fromId : ClientId) (content : Bytes) :
    Output :=
  match ctx.symmetricKeyFor fromId with
  | none => cannotDecrypt
  | some key =>
    match crypto.aesDecrypt key content with
    | .ok txt => .plaintext txt
    | .error _ => cannotDecrypt

/-- What is printed for the content of a message. -/
def contentOutput (crypto : Crypto) (privateKey : Bytes) (ctx : ClientContext) (fromId : ClientId)
    (msgType : ℕ) (content : Bytes) : Output :=
  if msgType = requestSymmetricKey then .text "Request for symmetric key\n"
  else if msgType = sendSymmetricKey then
    if (deliveredKey crypto privateKey content).isSome then .text "symmetric key received\n"
    else cannotDecrypt
  else if msgType = sendText then textOutput crypto ctx fromId content
  else .unsupportedType msgType

/-- What is printed for a record. -/
def recordOutput (crypto : Crypto) (privateKey : Bytes) (ctx : ClientContext) (fromId : ClientId)
    (msgType : ℕ) (content : Bytes) : List Output :=
  [.sender (shownName fromId (ctx.tryGetFriendCopy fromId)), .text "Content:\n",
    contentOutput crypto privateKey ctx fromId msgType content, .text "-----<EOM>-----\n\n"]

/-- A client after a message. -/
def ClientState.read (crypto : Crypto) (privateKey : Bytes) (state : ClientState)
    (message : Server.WaitingMessage) : ClientState :=
  { state with
    ctx := state.ctx.receive crypto privateKey (.ofBytes clientIdSize message.fromClient)
      message.type message.content
    output := state.output ++ recordOutput crypto privateKey state.ctx
      (.ofBytes clientIdSize message.fromClient) message.type message.content }

section Record

variable (crypto : Crypto) (state : ClientState) (fromId : ClientId)

/-- `ensureFriend` alone. -/
theorem exec_ensureFriend :
    (ensureFriend fromId).exec crypto state =
      ({ state with ctx := state.ctx.ensured fromId }, .ok ()) := by
  rw [ensureFriend, exec_ask rfl, ClientContext.ensured]
  split_ifs <;> rfl

/-- A program with an exception handler. -/
theorem exec_rescue {α : Type} (program : Program α) (handler : CppError → Program α) :
    Program.exec crypto (Interaction.rescue program handler) state =
      match (program.exec crypto state).2 with
      | .ok value => ((program.exec crypto state).1, .ok value)
      | .error exception => (handler exception).exec crypto (program.exec crypto state).1 := by
  refine (run_attempt _ program _ state).trans ?_
  unfold Program.exec
  cases (program.run (ClientCall.exec crypto) state).2 <;> rfl

/-- `handleSymmetricKeyMessage` alone. -/
theorem exec_handleSymmetricKeyMessage (content privateKey : Bytes) :
    (handleSymmetricKeyMessage fromId content privateKey).exec crypto state =
      ({ state with
          ctx := state.ctx.receive crypto privateKey fromId sendSymmetricKey content
          output := state.output ++
            [contentOutput crypto privateKey state.ctx fromId sendSymmetricKey content] },
        .ok ()) := by
  have houtput : contentOutput crypto privateKey state.ctx fromId sendSymmetricKey content =
      if (deliveredKey crypto privateKey content).isSome then .text "symmetric key received\n"
      else cannotDecrypt := rfl
  have hctx : state.ctx.receive crypto privateKey fromId sendSymmetricKey content =
      match deliveredKey crypto privateKey content with
      | some key => (state.ctx.ensured fromId).setFriendSymmetricKey fromId key
      | none => state.ctx := rfl
  rw [houtput, hctx, deliveredKey, handleSymmetricKeyMessage, exec_rescue]
  cases hdecrypted : crypto.rsaDecrypt privateKey content with
  | error exception =>
    have hcall : ClientCall.exec crypto state (.rsaDecrypt privateKey content) =
        (state, .error exception) := congrArg (Prod.mk state) hdecrypted
    rw [exec_ask_error hcall]
    rfl
  | ok symKeyBin =>
    have hcall : ClientCall.exec crypto state (.rsaDecrypt privateKey content) =
        (state, .ok symKeyBin) := congrArg (Prod.mk state) hdecrypted
    rw [exec_ask hcall]
    by_cases hsize : symKeyBin.length = symmetricKeySize
    · simp only [dif_pos hsize]
      rw [exec_bind, exec_ensureFriend]
      rfl
    · simp only [dif_neg hsize]
      rfl

/-- `handleTextMessage` alone. -/
theorem exec_handleTextMessage (content : Bytes) :
    (handleTextMessage fromId content).exec crypto state =
      ({ state with output := state.output ++ [textOutput crypto state.ctx fromId content] },
        .ok ()) := by
  rw [handleTextMessage, exec_ask rfl, textOutput, ClientContext.symmetricKeyFor]
  cases (state.ctx.tryGetFriendCopy fromId).bind Friend.symmetricKey with
  | none => rfl
  | some key =>
    dsimp only
    rw [exec_rescue]
    cases hdecrypted : crypto.aesDecrypt key content with
    | error exception =>
      have hcall : ClientCall.exec crypto state (.aesDecrypt key content) =
          (state, .error exception) := congrArg (Prod.mk state) hdecrypted
      rw [exec_ask_error hcall]
      rfl
    | ok txt =>
      have hcall : ClientCall.exec crypto state (.aesDecrypt key content) =
          (state, .ok txt) := congrArg (Prod.mk state) hdecrypted
      rw [exec_ask hcall]
      rfl

/-- `handleRecord` alone: a record never raises. -/
theorem exec_handleRecord (msgType : ℕ) (content privateKey : Bytes) :
    (handleRecord fromId msgType content privateKey).exec crypto state =
      ({ state with
          ctx := state.ctx.receive crypto privateKey fromId msgType content
          output := state.output ++
            recordOutput crypto privateKey state.ctx fromId msgType content },
        .ok ()) := by
  rw [handleRecord, exec_ask rfl, exec_ask rfl, exec_ask rfl, recordOutput]
  by_cases hrequest : msgType = requestSymmetricKey
  · subst hrequest
    rw [if_pos rfl, exec_ask rfl]
    simp [ask, Program.exec, ClientCall.exec, ClientContext.receive, contentOutput]
  by_cases hsend : msgType = sendSymmetricKey
  · subst hsend
    rw [if_neg hrequest, if_pos rfl, exec_bind, exec_handleSymmetricKeyMessage, proceed_ok]
    simp [ask, Program.exec, ClientCall.exec]
  by_cases htext : msgType = sendText
  · subst htext
    rw [if_neg hrequest, if_neg hsend, if_pos rfl, exec_bind, exec_handleTextMessage, proceed_ok]
    simp [ask, Program.exec, ClientCall.exec, ClientContext.receive, contentOutput]
  · rw [if_neg hrequest, if_neg hsend, if_neg htext, exec_ask rfl, ClientContext.receive,
      if_neg hsend, contentOutput, if_neg hrequest, if_neg hsend, if_neg htext]
    simp [ask, Program.exec, ClientCall.exec]

end Record

/-! ### The keys that are read -/

/-- The key that a message brings from a sender. -/
def keyFrom (crypto : Crypto) (privateKey : Bytes) (sender : ClientId)
    (message : Server.WaitingMessage) : Option (FixedBytes symmetricKeySize) :=
  if message.type = sendSymmetricKey ∧ message.fromClient = sender.val then
    deliveredKey crypto privateKey message.content
  else none

section Keys

variable (crypto : Crypto) (privateKey : Bytes)

/-- A record leaves the identity of the client. -/
theorem receive_identity (ctx : ClientContext) (fromId : ClientId) (msgType : ℕ) (content : Bytes) :
    let after := ctx.receive crypto privateKey fromId msgType content
    after.clientID = ctx.clientID ∧ after.userName = ctx.userName ∧
      after.privateKey = ctx.privateKey := by
  have hensured : (ctx.ensured fromId).clientID = ctx.clientID ∧
      (ctx.ensured fromId).userName = ctx.userName ∧
      (ctx.ensured fromId).privateKey = ctx.privateKey := by
    unfold ClientContext.ensured
    split_ifs <;> exact ⟨rfl, rfl, rfl⟩
  unfold ClientContext.receive
  split_ifs
  · cases deliveredKey crypto privateKey content with
    | none => exact ⟨rfl, rfl, rfl⟩
    | some key => exact hensured
  · exact ⟨rfl, rfl, rfl⟩

/-- An entry that is ensured is there, and its key is the one that was held. -/
theorem ensured_entry (ctx : ClientContext) (id other : ClientId) :
    ((ctx.ensured id).tryGetFriendCopy id).isSome ∧
      (ctx.ensured id).symmetricKeyFor other = ctx.symmetricKeyFor other := by
  unfold ClientContext.ensured
  split_ifs with hmissing
  · rw [ClientContext.tryGetFriendCopy_setFriendBase, if_pos rfl]
    exact ⟨rfl, ctx.symmetricKeyFor_setFriendBase id other []⟩
  · rw [Bool.not_eq_true, Option.isNone_eq_false_iff] at hmissing
    exact ⟨hmissing, rfl⟩

/-- The key that is held for a sender after a record. -/
theorem symmetricKeyFor_receive (ctx : ClientContext) (fromId sender : ClientId) (msgType : ℕ)
    (content : Bytes) :
    (ctx.receive crypto privateKey fromId msgType content).symmetricKeyFor sender =
      (if msgType = sendSymmetricKey ∧ fromId = sender then deliveredKey crypto privateKey content
        else none).or (ctx.symmetricKeyFor sender) := by
  unfold ClientContext.receive
  by_cases htype : msgType = sendSymmetricKey
  · rw [if_pos htype]
    cases deliveredKey crypto privateKey content with
    | none => rw [ite_self, Option.none_or]
    | some key =>
      obtain ⟨hentry, hkept⟩ := ensured_entry ctx fromId sender
      dsimp only
      rw [ClientContext.symmetricKeyFor_setFriendSymmetricKey _ fromId sender hentry, hkept]
      by_cases hsender : fromId = sender
      · rw [if_pos hsender, if_pos ⟨htype, hsender⟩, Option.some_or]
      · rw [if_neg hsender, if_neg fun h ↦ hsender h.2, Option.none_or]
  · rw [if_neg htype, if_neg fun h ↦ htype h.1, Option.none_or]

/-- The sender of a message as an ID. -/
theorem ofBytes_eq_iff {message : Server.WaitingMessage} (h : Server.Encodable message)
    (sender : ClientId) :
    FixedBytes.ofBytes clientIdSize message.fromClient = sender ↔
      message.fromClient = sender.val := by
  rw [Subtype.ext_iff, FixedBytes.val_ofBytes h.fromClient]

/-- The key that is held for a sender after messages is the last one that they bring from the
sender, or the one that was held when they bring none. -/
theorem symmetricKeyFor_foldl {messages : List Server.WaitingMessage}
    (hmessages : ∀ message ∈ messages, Server.Encodable message) (state : ClientState)
    (sender : ClientId) :
    (messages.foldl (ClientState.read crypto privateKey) state).ctx.symmetricKeyFor sender =
      (messages.filterMap (keyFrom crypto privateKey sender)).getLast?.or
        (state.ctx.symmetricKeyFor sender) := by
  induction messages generalizing state with
  | nil => rfl
  | cons message rest ih =>
    have hrest := ih (fun other hother ↦ hmessages other (List.mem_cons_of_mem _ hother))
      (state.read crypto privateKey message)
    have hkey : (state.read crypto privateKey message).ctx.symmetricKeyFor sender =
        (keyFrom crypto privateKey sender message).or (state.ctx.symmetricKeyFor sender) := by
      refine (symmetricKeyFor_receive crypto privateKey state.ctx _ sender _ _).trans ?_
      simp only [keyFrom, ofBytes_eq_iff (hmessages message List.mem_cons_self)]
    rw [List.foldl_cons, hrest, hkey, List.filterMap_cons]
    cases keyFrom crypto privateKey sender message with
    | none => rw [Option.none_or]
    | some key => rw [List.getLast?_cons, Option.some_or, Option.or_some, Option.some_or]

/-- Messages leave the identity of the client. -/
theorem foldl_read_identity (messages : List Server.WaitingMessage) (state : ClientState) :
    let after := messages.foldl (ClientState.read crypto privateKey) state
    after.ctx.clientID = state.ctx.clientID ∧ after.ctx.userName = state.ctx.userName ∧
      after.ctx.privateKey = state.ctx.privateKey := by
  induction messages generalizing state with
  | nil => exact ⟨rfl, rfl, rfl⟩
  | cons message rest ih =>
    obtain ⟨hid, hname, hkey⟩ := ih (state.read crypto privateKey message)
    obtain ⟨hidRead, hnameRead, hkeyRead⟩ := receive_identity crypto privateKey state.ctx
      (.ofBytes clientIdSize message.fromClient) message.type message.content
    exact ⟨hid.trans hidRead, hname.trans hnameRead, hkey.trans hkeyRead⟩

end Keys

/-! ### The loop over the records -/

/-- A number of four bytes in front of further data is read. -/
theorem readUint32LE_of_slice {data : Bytes} {offset value : ℕ} (hinside : offset + 4 ≤ data.length)
    (hvalue : fromLittleEndian (slice data offset 4) = value) :
    readUint32LE data offset = .ok value := by
  rw [readUint32LE, if_neg (not_lt.mpr hinside), hvalue]

/-- The record of a message in front of further data is read as the message. -/
theorem waitingLoop_record {message : Server.WaitingMessage} (hmessage : Server.Encodable message)
    (front rest privateKey : Bytes) (rounds : ℕ) :
    let data := front ++ (Server.recordBytes message ++ rest)
    waitingLoop data privateKey (rounds + 1) front.length =
      handleRecord (.ofBytes clientIdSize message.fromClient) message.type message.content
          privateKey >>= fun _ ↦
        waitingLoop data privateKey rounds (front ++ Server.recordBytes message).length := by
  intro data
  have hrecord := Server.recordBytes_length hmessage.fromClient
  have hdata : data.length = front.length + (25 + message.content.length + rest.length) := by
    simp only [data, List.length_append, hrecord]
  obtain ⟨hfrom, hid, htype, hsize, hcontent⟩ := Server.slice_recordBytes hmessage rest
  have hfield : ∀ offset size, slice data (front.length + offset) size =
      slice (Server.recordBytes message ++ rest) offset size := by
    intro offset size
    rw [slice, slice, List.drop_length_add_append]
  have hmore : front.length < data.length := by
    rw [hdata]
    omega
  have hheader : ¬data.length < front.length + recordMin := by
    change ¬data.length < front.length + 25
    rw [hdata]
    omega
  have hsender : readClientID data front.length =
      .ok (.ofBytes clientIdSize message.fromClient) := by
    have hval := FixedBytes.val_ofBytes (show message.fromClient.length = clientIdSize from
      hmessage.fromClient)
    have hread := readClientID_append front (.ofBytes clientIdSize message.fromClient)
      ((littleEndian Server.messageId message.id ++
        (littleEndian Server.messageTypeSize message.type ++
        (littleEndian Server.contentSize message.content.length ++ message.content))) ++ rest)
    rw [hval, ← List.append_assoc message.fromClient] at hread
    exact hread
  have hbyte : (data.getD (front.length + clientIdSize + msgIdSize) 0).toNat = message.type := by
    have hone : (slice (Server.recordBytes message ++ rest) 20 1).length = 1 := by
      refine slice_length ?_
      rw [List.length_append, hrecord]
      simp only [Server.recordHeaderSize]
      omega
    obtain ⟨byte, hslice⟩ := List.length_eq_one_iff.mp hone
    have hread : Server.byteAt data (front.length + 20) = byte :=
      Server.byteAt_of_slice ((hfield 20 1).trans hslice)
    rw [hslice] at htype
    change (Server.byteAt data (front.length + 20)).toNat = message.type
    rw [hread, ← htype]
    simp [Server.fromBytes, fromLittleEndian]
  have hlength : readUint32LE data (front.length + clientIdSize + msgIdSize + typeSize) =
      .ok message.content.length := by
    refine readUint32LE_of_slice ?_ ?_
    · change front.length + 25 ≤ data.length
      rw [hdata]
      omega
    · exact (congrArg fromLittleEndian (hfield 21 4)).trans hsize
  have hwhole : ¬data.length < front.length + recordMin + message.content.length := by
    change ¬data.length < front.length + 25 + message.content.length
    rw [hdata]
    omega
  have hbody : slice data (front.length + recordMin) message.content.length = message.content :=
    (hfield 25 _).trans hcontent
  have hnext : front.length + recordMin + message.content.length =
      (front ++ Server.recordBytes message).length := by
    rw [List.length_append, hrecord]
    exact Nat.add_assoc front.length 25 message.content.length
  rw [waitingLoop, if_pos hmore, if_neg hheader, hsender, hbyte, hlength]
  change (if data.length < front.length + recordMin + message.content.length then _
    else handleRecord _ _
      (slice data (front.length + recordMin) message.content.length) privateKey >>=
      fun _ ↦ waitingLoop data privateKey rounds
        (front.length + recordMin + message.content.length)) = _
  rw [if_neg hwhole, hbody, hnext]

/-- The loop reads the messages that stand in front of further data, and goes on behind them. -/
theorem exec_waitingLoop_append (crypto : Crypto) (privateKey : Bytes)
    {messages : List Server.WaitingMessage}
    (hmessages : ∀ message ∈ messages, Server.Encodable message)
    (front rest : Bytes) (rounds : ℕ) (state : ClientState) :
    let data := front ++ (messages.flatMap Server.recordBytes ++ rest)
    (waitingLoop data privateKey (messages.length + rounds) front.length).exec crypto state =
      (waitingLoop data privateKey rounds
        (front ++ messages.flatMap Server.recordBytes).length).exec
        crypto (messages.foldl (ClientState.read crypto privateKey) state) := by
  induction messages generalizing front state with
  | nil =>
    intro data
    rw [List.flatMap_nil, List.append_nil, List.length_nil, Nat.zero_add, List.foldl_nil]
  | cons message others ih =>
    intro data
    obtain ⟨hmessage, hothers⟩ := List.forall_mem_cons.mp hmessages
    have hdata : data =
        front ++ (Server.recordBytes message ++ (others.flatMap Server.recordBytes ++ rest)) := by
      show front ++ _ = _
      rw [List.flatMap_cons, List.append_assoc]
    have hrest := ih hothers (front ++ Server.recordBytes message)
      (state.read crypto privateKey message)
    rw [List.append_assoc, ← hdata] at hrest
    rw [List.length_cons, Nat.add_right_comm, List.foldl_cons, hdata,
      waitingLoop_record hmessage, exec_bind, exec_handleRecord, ← hdata, List.flatMap_cons,
      ← List.append_assoc front]
    exact hrest

/-- The loop reads every message. Assumes: more rounds than messages. -/
theorem exec_waitingLoop (crypto : Crypto) (privateKey : Bytes)
    {messages : List Server.WaitingMessage}
    (hmessages : ∀ message ∈ messages, Server.Encodable message)
    (front : Bytes) (rounds : ℕ) (hrounds : messages.length < rounds) (state : ClientState) :
    (waitingLoop (front ++ messages.flatMap Server.recordBytes) privateKey rounds front.length).exec
        crypto state =
      (messages.foldl (ClientState.read crypto privateKey) state, .ok ()) := by
  obtain ⟨spare, rfl⟩ := Nat.exists_eq_add_of_lt hrounds
  have hloop := exec_waitingLoop_append crypto privateKey hmessages front [] (spare + 1) state
  rw [List.append_nil] at hloop
  rw [Nat.add_assoc, hloop, waitingLoop, if_neg (lt_irrefl _)]
  rfl

/-- A record has at least one byte. -/
theorem length_le_flatMap_recordBytes {messages : List Server.WaitingMessage}
    (hmessages : ∀ message ∈ messages, Server.Encodable message) :
    messages.length ≤ (messages.flatMap Server.recordBytes).length := by
  induction messages with
  | nil => exact Nat.zero_le _
  | cons message rest ih =>
    have hrecord := Server.recordBytes_length (hmessages message List.mem_cons_self).fromClient
    have hrest := ih fun other hother ↦ hmessages other (List.mem_cons_of_mem _ hother)
    rw [List.flatMap_cons, List.length_append, hrecord, List.length_cons]
    simp only [Server.recordHeaderSize]
    omega

/-- A client on the messages of a response, whose header may be anything. Assumes: the fields of the
messages fit their records, and a private key that can be loaded. -/
theorem exec_responseWaitingMessages (crypto : Crypto) {header : Bytes}
    (hheader : header.length = headerSize) {messages : List Server.WaitingMessage}
    (hmessages : ∀ message ∈ messages, Server.Encodable message) (before : ClientState)
    (hkey : crypto.loadsPrivateKey before.ctx.privateKey = true) :
    (responseWaitingMessages (header ++ messages.flatMap Server.recordBytes)).exec crypto before =
      (if messages = [] then
        { before with output := before.output ++ [.text "No waiting messages.\n"] }
      else messages.foldl (ClientState.read crypto before.ctx.privateKey) before, .ok ()) := by
  rw [responseWaitingMessages]
  by_cases hempty : messages = []
  · subst hempty
    rw [if_pos (by rw [List.flatMap_nil, List.append_nil, hheader]), if_pos rfl]
    rfl
  · have hmany := length_le_flatMap_recordBytes hmessages
    have hsome : 0 < messages.length := List.length_pos_iff.mpr hempty
    have hlength : (header ++ messages.flatMap Server.recordBytes).length =
        headerSize + (messages.flatMap Server.recordBytes).length := by
      rw [List.length_append, hheader]
    have hload : ClientCall.exec crypto before (.loadPrivateKey before.ctx.privateKey) =
        (before, .ok ()) := by
      rw [ClientCall.exec, hkey]
      rfl
    have hloop := exec_waitingLoop crypto before.ctx.privateKey hmessages header
      (header ++ messages.flatMap Server.recordBytes).length
      (by rw [hlength]; simp only [headerSize]; omega) before
    rw [hheader] at hloop
    rw [if_neg (by rw [hlength]; omega), if_neg hempty, exec_ask rfl, exec_ask hload]
    exact hloop

/-- The client on the messages of the server. Assumes: a private key that can be loaded. -/
theorem responseClientMain_waiting (crypto : Crypto) {messages : List Server.WaitingMessage}
    (hmessages : ∀ message ∈ messages, Server.Encodable message) (state : ClientState)
    (hkey : crypto.loadsPrivateKey state.ctx.privateKey = true) :
    (responseClientMain (Server.responseFrame Server.responseWaitingMessages
      (messages.flatMap Server.recordBytes))).exec crypto state =
        (if messages = [] then
          { state with output := state.output ++ [.text "No waiting messages.\n"] }
        else messages.foldl (ClientState.read crypto state.ctx.privateKey) state, .ok ()) := by
  have hcode : codeOf (Server.responseFrame Server.responseWaitingMessages
      (messages.flatMap Server.recordBytes)) = responseWaitingMessagesCode :=
    codeOf_responseFrame (by simp) _
  rw [responseClientMain, if_neg (headerSize_le_responseFrame _ _), hcode, if_neg (by simp),
    if_neg (by simp), if_neg (by simp), if_neg (by simp), if_pos rfl]
  exact exec_responseWaitingMessages crypto (frameHeader_length _ _) hmessages state hkey

/-- A client with a private key that can be loaded and an empty cache. -/
def loadedClient : ClientState :=
  { freshClient with
    ctx := { ClientContext.empty with privateKey := Crypto.tagged.generatePrivateKey 0 } }

end MessageU.Client
