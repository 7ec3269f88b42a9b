import MessageU.Client.Connection
import MessageU.Client.Records

/-!
# The answers of the server at the client

`Reply` is an answer of the server before it is encoded, and `Reply.bytes` the response that carries
it. `Recovered` says what a client makes of each kind of answer, and `exec_reply` that this is what
`responseClientMain` does with the bytes, without an exception, when the client is `Prepared` for
the answer: its private key can be loaded, the target of a message it sent is in its cache, and the
directory of its file can be found.
-/

set_option autoImplicit false
set_option relaxedAutoImplicit false

namespace MessageU.Client

open Library Interaction

/-! ### Answers -/

/-- An answer of the server. -/
inductive Reply
  | failed
  | registered (id : ClientId)
  | listed (clients : List (Bytes × Bytes))
  | key (id : ClientId) (publicKey : FixedBytes publicKeySize)
  | sent (target : ClientId) (msgId : ℕ)
  | waiting (messages : List Server.WaitingMessage)

/-- The code of an answer. -/
def Reply.code : Reply → ℕ
  | .failed => 9000
  | .registered _ => 2100
  | .listed _ => 2101
  | .key .. => 2102
  | .sent .. => 2103
  | .waiting _ => 2104

/-- The payload of an answer. -/
def Reply.payload : Reply → Bytes
  | .failed => []
  | .registered id => id.val
  | .listed clients => Server.clientListPayload clients
  | .key id publicKey => id.val ++ publicKey.val
  | .sent target msgId => target.val ++ littleEndian 4 msgId
  | .waiting messages => messages.flatMap Server.recordBytes

/-- The response that carries an answer. -/
def Reply.bytes (reply : Reply) : Bytes :=
  Server.responseFrame reply.code reply.payload

/-- The fields of an answer fit the fields of its response. -/
def Reply.Encodable : Reply → Prop
  | .failed | .registered _ | .key .. => True
  | .listed clients => ∀ client ∈ clients, client.1.length = clientIdSize
  | .sent _ msgId => msgId < 2 ^ 32
  | .waiting messages => ∀ message ∈ messages, Server.Encodable message

/-- A client is ready for an answer. -/
def Prepared (crypto : Crypto) (state : ClientState) : Reply → Prop
  | .failed | .listed _ | .key .. => True
  | .registered _ => ∃ isOpen, state.disk.opens = .ok isOpen
  | .sent target _ => (state.ctx.tryGetFriendCopy target).isSome
  | .waiting _ => crypto.loadsPrivateKey state.ctx.privateKey = true

/-! ### The file of the client -/

/-- The bytes that `saveMyInfo` writes. -/
def myInfoBytes (crypto : Crypto) (ctx : ClientContext) : Bytes :=
  ctx.userName ++ [10] ++ bytesToHex ctx.clientID ++ [10] ++
    (crypto.base64Encode ctx.privateKey).filter fun byte ↦ byte ≠ 10 ∧ byte ≠ 13

/-- The context has all that the file holds. -/
def ClientContext.Complete (ctx : ClientContext) : Prop :=
  ctx.hasClientID = true ∧ ctx.userName ≠ [] ∧ ctx.privateKey ≠ []

instance (ctx : ClientContext) : Decidable ctx.Complete :=
  inferInstanceAs (Decidable (_ ∧ _ ∧ _))

/-- The file after a content has been saved. A file that is opened and not written is empty. -/
def Disk.saved (disk : Disk) (content : Bytes) : Option Bytes :=
  if disk.writes = true then some content else some []

/-- `saveMyInfo` writes the identity of the client, or prints why it does not. -/
theorem exec_saveMyInfo (crypto : Crypto) (state : ClientState) {isOpen : Bool}
    (hdisk : state.disk.opens = .ok isOpen) :
    ∃ output, saveMyInfo.exec crypto state =
      ({ state with
          output := output
          disk := { state.disk with
            myInfo := if state.ctx.Complete ∧ isOpen = true then
                state.disk.saved (myInfoBytes crypto state.ctx) else state.disk.myInfo } },
        .ok ()) := by
  rw [saveMyInfo, exec_ask rfl, exec_ask rfl, exec_ask rfl]
  by_cases hcomplete : state.ctx.Complete
  · have hopen : ClientCall.exec crypto state .openMyInfo =
        ({ state with disk := state.disk.truncated }, .ok isOpen) :=
      congrArg (Prod.mk _) hdisk
    rw [if_neg (by simp [hcomplete.1, hcomplete.2.1, hcomplete.2.2]), exec_ask hopen]
    cases isOpen with
    | false =>
      refine ⟨state.output ++ [.text "Failed to create my.info file.\n"], ?_⟩
      have hclosed : state.disk.truncated = state.disk := by simp only [Disk.truncated, hdisk]
      rw [hclosed]
      simp [ask, Program.exec, ClientCall.exec]
    | true =>
      have hempty : state.disk.truncated = { state.disk with myInfo := some [] } := by
        simp only [Disk.truncated, hdisk]
      rw [hempty, if_neg (by simp), exec_ask rfl, exec_ask rfl, exec_ask rfl]
      cases hwrites : state.disk.writes with
      | false =>
        refine ⟨state.output ++ [.text "Failed to write my.info file.\n"], ?_⟩
        simp [ask, Program.exec, ClientCall.exec, hwrites, hcomplete, Disk.saved]
      | true =>
        refine ⟨state.output, ?_⟩
        simp [Program.exec, hcomplete, hwrites, myInfoBytes, Disk.saved]
  · have hincomplete : (!state.ctx.hasClientID || decide (state.ctx.userName = []) ||
        decide (state.ctx.privateKey = [])) = true := by
      by_contra hall
      simp only [Bool.or_eq_true, Bool.not_eq_true', decide_eq_true_eq, not_or,
        Bool.not_eq_false] at hall
      exact hcomplete ⟨hall.1.1, hall.1.2, hall.2⟩
    refine ⟨state.output ++ [.text "Cannot save my.info: client data is incomplete.\n"], ?_⟩
    rw [if_pos hincomplete]
    simp [ask, Program.exec, ClientCall.exec, hcomplete]

/-! ### What a client makes of an answer -/

/-- What a client makes of an answer. -/
inductive Recovered (crypto : Crypto) (before : ClientState) : Reply → ClientState → Prop
  /-- An error changes nothing. -/
  | failed : Recovered crypto before .failed
    { before with output := before.output ++ [.text "server responded with an error\n"] }
  /-- The new client ID is taken and the identity is written. -/
  | registered (id : ClientId) (after : ClientState)
    (hctx : after.ctx = { before.ctx with clientID := id })
    (hfile : after.disk.myInfo =
      if after.ctx.Complete ∧ before.disk.opens = .ok true then
        before.disk.saved (myInfoBytes crypto after.ctx)
      else before.disk.myInfo) :
    Recovered crypto before (.registered id) after
  /-- Every entry is learned. -/
  | listed (clients : List (Bytes × Bytes)) :
    Recovered crypto before (.listed clients)
      ((clients.map listEntry).foldl ClientState.learn before)
  /-- The key is set for the ID. -/
  | key (id : ClientId) (publicKey : FixedBytes publicKeySize) :
    Recovered crypto before (.key id publicKey)
      { before with
        ctx := (before.ctx.ensured id).setFriendPublicKey id publicKey
        output := before.output ++ [.publicKey id (crypto.base64Encode publicKey.val)] }
  /-- The name of the target is printed with the message ID. -/
  | sent (target : ClientId) (msgId : ℕ) (entry : Friend)
    (hentry : before.ctx.tryGetFriendCopy target = some entry) :
    Recovered crypto before (.sent target msgId)
      { before with output := before.output ++ [.messageSent entry.friendName msgId] }
  /-- There is no message. -/
  | empty : Recovered crypto before (.waiting [])
    { before with output := before.output ++ [.text "No waiting messages.\n"] }
  /-- Every message is read, in order. -/
  | waiting (messages : List Server.WaitingMessage) (hsome : messages ≠ []) :
    Recovered crypto before (.waiting messages)
      (messages.foldl (ClientState.read crypto before.ctx.privateKey) before)

section Reply

variable (crypto : Crypto) (state : ClientState)

/-- A code of sixteen bits. -/
theorem Reply.code_lt (reply : Reply) : reply.code < 2 ^ 16 := by
  cases reply <;> simp [code]

/-- The client reads the code of an answer. -/
theorem codeOf_reply (reply : Reply) : codeOf reply.bytes = reply.code :=
  codeOf_responseFrame reply.code_lt _

/-- A field behind the header of a response is a field of its payload. -/
theorem slice_reply (reply : Reply) (offset size : ℕ) :
    slice reply.bytes (headerSize + offset) size = slice reply.payload offset size := by
  rw [Reply.bytes, responseFrame_eq, slice, slice, ← frameHeader_length reply.code
    reply.payload.length, List.drop_length_add_append]

/-- A response is its header and its payload. -/
theorem Reply.bytes_length (reply : Reply) :
    reply.bytes.length = headerSize + reply.payload.length :=
  responseFrame_length _ _

/-- The client ID at the beginning of a payload is read. -/
theorem readClientID_reply {reply : Reply} {id : ClientId} {rest : Bytes}
    (hpayload : reply.payload = id.val ++ rest) :
    readClientID reply.bytes headerSize = .ok id := by
  have hread := readClientID_append (frameHeader reply.code reply.payload.length) id rest
  rw [frameHeader_length] at hread
  rw [Reply.bytes, responseFrame_eq, hpayload]
  rwa [hpayload] at hread

/-- The handler that an answer goes to. -/
theorem responseClientMain_reply (reply : Reply) :
    responseClientMain reply.bytes =
      match reply with
      | .failed => ask (.print (.text "server responded with an error\n"))
      | .registered _ => responseRegister reply.bytes
      | .listed _ => responseClientList reply.bytes
      | .key .. => responsePublicKey reply.bytes
      | .sent .. => responseMessageSent reply.bytes
      | .waiting _ => responseWaitingMessages reply.bytes := by
  have hheader : ¬reply.bytes.length < headerSize := headerSize_le_responseFrame _ _
  rw [responseClientMain, if_neg hheader, codeOf_reply]
  cases reply <;> rfl

/-- A new client ID is taken. Assumes: the directory of the file can be found. -/
theorem exec_reply_registered (id : ClientId) {isOpen : Bool}
    (hdisk : state.disk.opens = .ok isOpen) :
    ∃ after, (responseClientMain (Reply.registered id).bytes).exec crypto state = (after, .ok ()) ∧
      Recovered crypto state (.registered id) after := by
  have hpayload : (Reply.registered id).payload = id.val ++ [] := (List.append_nil _).symm
  have hread : readClientID (Reply.registered id).bytes headerSize = .ok id :=
    readClientID_reply hpayload
  let named : ClientState := { state with ctx := { state.ctx with clientID := id } }
  obtain ⟨output, hsave⟩ := exec_saveMyInfo crypto named hdisk
  rw [responseClientMain_reply]
  dsimp only
  rw [responseRegister, hread]
  change ∃ after, Program.exec crypto (saveMyInfo >>= fun _ ↦ _) named = _ ∧ _
  rw [exec_bind, hsave]
  refine ⟨_, rfl, .registered id _ rfl ?_⟩
  have hopens : state.disk.opens = .ok true ↔ isOpen = true := by
    rw [hdisk]
    simp
  simp only [hopens]
  rfl

/-- A public key is set for its ID. -/
theorem exec_reply_key (id : ClientId) (publicKey : FixedBytes publicKeySize) :
    (responseClientMain (Reply.key id publicKey).bytes).exec crypto state =
      ({ state with
          ctx := (state.ctx.ensured id).setFriendPublicKey id publicKey
          output := state.output ++ [.publicKey id (crypto.base64Encode publicKey.val)] },
        .ok ()) := by
  have hread : readClientID (Reply.key id publicKey).bytes headerSize = .ok id :=
    readClientID_reply rfl
  have hsize : headerSize + clientIdSize + publicKeySize ≤
      (Reply.key id publicKey).bytes.length := by
    rw [Reply.bytes_length, Reply.payload, List.length_append, id.property, publicKey.property,
      Nat.add_assoc]
  have hfield : publicKeyField (Reply.key id publicKey).bytes hsize = publicKey := by
    refine Subtype.ext ((slice_reply _ clientIdSize publicKeySize).trans ?_)
    rw [Reply.payload, slice_append_right id.property,
      List.take_of_length_le publicKey.property.le]
  rw [responseClientMain_reply]
  dsimp only
  rw [responsePublicKey, dif_pos hsize, hread, hfield]
  change Program.exec crypto (ensureFriend id >>= fun _ ↦ _) state = _
  rw [exec_bind, exec_ensureFriend]
  rfl

/-- The size of the answer to a sent message. -/
theorem sent_length (target : ClientId) (msgId : ℕ) :
    (Reply.sent target msgId).bytes.length = headerSize + clientIdSize + msgIdSize := by
  rw [Reply.bytes_length, Reply.payload, List.length_append, target.property, littleEndian_length,
    Nat.add_assoc]

/-- The number in the answer to a sent message. -/
theorem readUint32LE_sent (target : ClientId) {msgId : ℕ} (hfits : msgId < 2 ^ 32) :
    readUint32LE (Reply.sent target msgId).bytes (headerSize + clientIdSize) = .ok msgId := by
  refine readUint32LE_of_slice (by rw [sent_length]) ?_
  have hvalue : msgId < 256 ^ 4 := by simpa using hfits
  rw [slice_reply, Reply.payload, slice_append_right target.property,
    List.take_of_length_le (littleEndian_length _ _).le, fromLittleEndian_littleEndian hvalue]

/-- A sent message is named. Assumes: its target is in the cache. -/
theorem exec_reply_sent (target : ClientId) {msgId : ℕ} (hfits : msgId < 2 ^ 32) {entry : Friend}
    (hentry : state.ctx.tryGetFriendCopy target = some entry) :
    (responseClientMain (Reply.sent target msgId).bytes).exec crypto state =
      ({ state with output := state.output ++ [.messageSent entry.friendName msgId] }, .ok ()) := by
  have hread : readClientID (Reply.sent target msgId).bytes headerSize = .ok target :=
    readClientID_reply rfl
  have hsize := sent_length target msgId
  rw [responseClientMain_reply]
  dsimp only
  rw [responseMessageSent, if_neg (by rw [hsize]; exact lt_irrefl _), hread]
  change Program.exec crypto (ask (.tryGetFriendCopy target) >>= _) state = _
  rw [exec_ask rfl, hentry]
  dsimp only
  rw [readUint32LE_sent target hfits]
  rfl

/-- The target of a sent message that is not in the cache raises. -/
theorem exec_reply_sent_unknown (target : ClientId) (msgId : ℕ)
    (hnone : state.ctx.tryGetFriendCopy target = none) :
    (responseClientMain (Reply.sent target msgId).bytes).exec crypto state =
      (state, .error (.logicError "responseMessageSent: friend not found in cache")) := by
  have hread : readClientID (Reply.sent target msgId).bytes headerSize = .ok target :=
    readClientID_reply rfl
  have hsize := sent_length target msgId
  rw [responseClientMain_reply]
  dsimp only
  rw [responseMessageSent, if_neg (by rw [hsize]; exact lt_irrefl _), hread]
  change Program.exec crypto (ask (.tryGetFriendCopy target) >>= _) state = _
  rw [exec_ask rfl, hnone]
  rfl

/-- A client that is ready for an answer recovers it. -/
theorem exec_reply {reply : Reply} (hfits : reply.Encodable)
    (hready : Prepared crypto state reply) :
    ∃ after, (responseClientMain reply.bytes).exec crypto state = (after, .ok ()) ∧
      Recovered crypto state reply after := by
  cases reply with
  | failed =>
    rw [responseClientMain_reply]
    exact ⟨_, rfl, .failed⟩
  | registered id =>
    obtain ⟨isOpen, hdisk⟩ := hready
    exact exec_reply_registered crypto state id hdisk
  | listed clients => exact ⟨_, responseClientMain_clientList crypto hfits state, .listed clients⟩
  | key id publicKey => exact ⟨_, exec_reply_key crypto state id publicKey, .key id publicKey⟩
  | sent target msgId =>
    obtain ⟨entry, hentry⟩ := Option.isSome_iff_exists.mp hready
    exact ⟨_, exec_reply_sent crypto state target hfits hentry, .sent target msgId entry hentry⟩
  | waiting messages =>
    have hexec := responseClientMain_waiting crypto hfits state hready
    by_cases hempty : messages = []
    · subst hempty
      exact ⟨_, hexec, .empty⟩
    · rw [if_neg hempty] at hexec
      exact ⟨_, hexec, .waiting messages hempty⟩

end Reply

end MessageU.Client
