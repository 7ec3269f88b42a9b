import MessageU.Client.Calls

/-!
# Responses of the server

`ResponseClient.cpp` with what it uses of `Utilities.cpp` and `FileManager.cpp`. A response is read
at offsets that are numbers without bound, as a `size_t` of 64 bits is for buffers that fit into
memory. The two loops are given as many rounds as the response has bytes; a round moves the offset
forward, so they stop before.
-/

set_option autoImplicit false
set_option relaxedAutoImplicit false

namespace MessageU.Client

open Library Interaction

/-! ### Codes -/

@[simp] abbrev responseRegisterCode : ℕ := 2100
@[simp] abbrev responseClientListCode : ℕ := 2101
@[simp] abbrev responsePublicKeyCode : ℕ := 2102
@[simp] abbrev responseMessageSentCode : ℕ := 2103
@[simp] abbrev responseWaitingMessagesCode : ℕ := 2104
@[simp] abbrev errorGeneral : ℕ := 9000

@[simp] abbrev requestSymmetricKey : ℕ := 1
@[simp] abbrev sendSymmetricKey : ℕ := 2
@[simp] abbrev sendText : ℕ := 3

/-! ### Reading fields -/

/-- The digits of a hexadecimal number. -/
def hexDigit (value : ℕ) : UInt8 :=
  UInt8.ofNat (if value < 10 then 48 + value else 97 + (value - 10))

/-- `bytesToHex`. -/
def bytesToHex (id : ClientId) : Bytes :=
  id.val.flatMap fun byte ↦ [hexDigit (byte.toNat / 16), hexDigit (byte.toNat % 16)]

/-- `readUint32LE`. -/
def readUint32LE (data : Bytes) (offset : ℕ) : Except CppError ℕ :=
  if data.length < offset + 4 then .error (.runtimeError "readUint32LE: not enough bytes")
  else .ok (fromLittleEndian (slice data offset 4))

/-- `readClientID`. -/
def readClientID (data : Bytes) (offset : ℕ) : Except CppError ClientId :=
  if h : offset + clientIdSize ≤ data.length then
    .ok ⟨slice data offset clientIdSize, slice_length h⟩
  else .error (.runtimeError "readClientID: Not enough bytes for ClientID")

/-- The code of a response, from the two bytes at `RESPONSE_CODE_OFFSET`. -/
def codeOf (data : Bytes) : ℕ :=
  fromLittleEndian (slice data responseCodeOffset 2)

/-! ### The responses -/

/-- `saveMyInfo`. -/
def saveMyInfo : Program Unit := do
  let registered ← ask .hasClientID
  let name ← ask .getName
  let privateKey ← ask .getPrivateKey
  if !registered || name = [] || privateKey = [] then
    ask (.print (.text "Cannot save my.info: client data is incomplete.\n"))
  else do
    let isOpen ← ask .openMyInfo
    if !isOpen then ask (.print (.text "Failed to create my.info file.\n"))
    else do
      let encoded ← ask (.base64Encode privateKey)
      let privateKeyBase64 := encoded.filter fun byte ↦ byte ≠ 10 ∧ byte ≠ 13
      let id ← ask .getClientID
      let written ← ask (.writeMyInfo
        (name ++ [10] ++ bytesToHex id ++ [10] ++ privateKeyBase64))
      if !written then ask (.print (.text "Failed to write my.info file.\n"))
      else pure ()

/-- `responseRegister`. -/
def responseRegister (data : Bytes) : Program Unit := do
  let clientID ← finished (readClientID data headerSize)
  ask (.setClientID clientID)
  saveMyInfo
  ask (.print (.text "----- Client Context -----\n"))
  let name ← ask .getName
  ask (.print (.userName name))
  let id ← ask .getClientID
  ask (.print (.clientID id))

/-- The name in a field of a client list entry: the bytes before the first zero,
`strnlen(namePtr, NAME_SIZE)` many. -/
def entryName (data : Bytes) (offset : ℕ) : Bytes :=
  (slice data (offset + clientIdSize) nameSize).takeWhile (· ≠ 0)

/-- The loop of `responseClientList`. -/
def listLoop (data : Bytes) : (rounds offset : ℕ) → Program Unit
  | 0, _ => throwing .outOfFuel
  | rounds + 1, offset =>
    if offset < data.length then do
      let clientID ← finished (readClientID data offset)
      ask (.print (.listed (entryName data offset) clientID))
      ask (.setFriendBase clientID (entryName data offset))
      listLoop data rounds (offset + (clientIdSize + nameSize))
    else pure ()

/-- `responseClientList`. -/
def responseClientList (data : Bytes) : Program Unit :=
  if (data.length - headerSize) % (clientIdSize + nameSize) ≠ 0 then
    throwing (.runtimeError "responseClientList: invalid payload size for 2101")
  else listLoop data data.length headerSize

/-- `if (!ctx.tryGetFriendCopy(id)) ctx.setFriendBase(id, "")`. -/
def ensureFriend (id : ClientId) : Program Unit := do
  let friendOpt ← ask (.tryGetFriendCopy id)
  if friendOpt.isNone then ask (.setFriendBase id []) else pure ()

/-- The key field of a public key response. Assumes: the response is long enough. -/
def publicKeyField (data : Bytes) (h : headerSize + clientIdSize + publicKeySize ≤ data.length) :
    FixedBytes publicKeySize :=
  ⟨slice data (headerSize + clientIdSize) publicKeySize, slice_length h⟩

/-- `responsePublicKey`. -/
def responsePublicKey (data : Bytes) : Program Unit :=
  if h : headerSize + clientIdSize + publicKeySize ≤ data.length then do
    let clientID ← finished (readClientID data headerSize)
    ensureFriend clientID
    ask (.setFriendPublicKey clientID (publicKeyField data h))
    let base64 ← ask (.base64Encode (publicKeyField data h).val)
    ask (.print (.publicKey clientID base64))
  else throwing (.runtimeError "responsePublicKey: response too small")

/-- `responseMessageSent`. -/
def responseMessageSent (data : Bytes) : Program Unit :=
  if data.length < headerSize + clientIdSize + msgIdSize then
    throwing (.runtimeError "responseMessageSent: response too small")
  else do
    let clientID ← finished (readClientID data headerSize)
    match ← ask (.tryGetFriendCopy clientID) with
    | none => throwing (.logicError "responseMessageSent: friend not found in cache")
    | some target =>
      let msgID ← finished (readUint32LE data (headerSize + clientIdSize))
      ask (.print (.messageSent target.friendName msgID))

/-- `handleSymmetricKeyMessage`. -/
def handleSymmetricKeyMessage (fromId : ClientId) (content rsaPriv : Bytes) : Program Unit :=
  Interaction.rescue (do
    let symKeyBin ← ask (.rsaDecrypt rsaPriv content)
    if h : symKeyBin.length = symmetricKeySize then do
      ensureFriend fromId
      ask (.setFriendSymmetricKey fromId ⟨symKeyBin, h⟩)
      ask (.print (.text "symmetric key received\n"))
    else ask (.print cannotDecrypt)) fun _ ↦ ask (.print cannotDecrypt)

/-- `handleTextMessage`. -/
def handleTextMessage (fromId : ClientId) (content : Bytes) : Program Unit := do
  let friendOpt ← ask (.tryGetFriendCopy fromId)
  match friendOpt.bind Friend.symmetricKey with
  | none => ask (.print cannotDecrypt)
  | some key =>
    Interaction.rescue (do
      let txt ← ask (.aesDecrypt key content)
      ask (.print (.plaintext txt))) fun _ ↦ ask (.print cannotDecrypt)

/-- The name that the sender of a message is shown with. -/
def shownName (fromId : ClientId) (friendOpt : Option Friend) : Bytes :=
  match friendOpt with
  | some entry => if entry.friendName ≠ [] then entry.friendName else bytesToHex fromId
  | none => bytesToHex fromId

/-- What `responseWaitingMessages` does with one record. -/
def handleRecord (fromId : ClientId) (msgType : ℕ) (content rsaPriv : Bytes) : Program Unit := do
  let friendOpt ← ask (.tryGetFriendCopy fromId)
  ask (.print (.sender (shownName fromId friendOpt)))
  ask (.print (.text "Content:\n"))
  if msgType = requestSymmetricKey then ask (.print (.text "Request for symmetric key\n"))
  else if msgType = sendSymmetricKey then handleSymmetricKeyMessage fromId content rsaPriv
  else if msgType = sendText then handleTextMessage fromId content
  else ask (.print (.unsupportedType msgType))
  ask (.print (.text "-----<EOM>-----\n\n"))

/-- `RECORD_MIN`. -/
@[simp] abbrev recordMin : ℕ :=
  clientIdSize + msgIdSize + typeSize + msgSize

/-- The loop of `responseWaitingMessages`. -/
def waitingLoop (data rsaPriv : Bytes) : (rounds offset : ℕ) → Program Unit
  | 0, _ => throwing .outOfFuel
  | rounds + 1, offset =>
    if offset < data.length then
      if data.length < offset + recordMin then
        throwing (.runtimeError "responseWaitingMessages: truncated record header")
      else do
        let fromId ← finished (readClientID data offset)
        let msgType := (data.getD (offset + clientIdSize + msgIdSize) 0).toNat
        let size ← finished (readUint32LE data (offset + clientIdSize + msgIdSize + typeSize))
        if data.length < offset + recordMin + size then
          throwing (.runtimeError "responseWaitingMessages: truncated message content")
        else do
          handleRecord fromId msgType (slice data (offset + recordMin) size) rsaPriv
          waitingLoop data rsaPriv rounds (offset + recordMin + size)
    else pure ()

/-- `responseWaitingMessages`. -/
def responseWaitingMessages (data : Bytes) : Program Unit :=
  if data.length = headerSize then ask (.print (.text "No waiting messages.\n"))
  else do
    let privateKey ← ask .getPrivateKey
    ask (.loadPrivateKey privateKey)
    waitingLoop data privateKey data.length headerSize

/-- `responseClientMain`. -/
def responseClientMain (data : Bytes) : Program Unit :=
  if data.length < headerSize then
    throwing (.runtimeError "responseClientMain: response too small")
  else if codeOf data = responseRegisterCode then responseRegister data
  else if codeOf data = responseClientListCode then responseClientList data
  else if codeOf data = responsePublicKeyCode then responsePublicKey data
  else if codeOf data = responseMessageSentCode then responseMessageSent data
  else if codeOf data = responseWaitingMessagesCode then responseWaitingMessages data
  else if codeOf data = errorGeneral then
    ask (.print (.text "server responded with an error\n"))
  else ask (.print (.unknownCode (codeOf data)))

end MessageU.Client
