import MessageU.Client.ClientList

/-!
# Exchanges with the server

`ClientConnection.cpp`. `sendAndReceive` writes a request, reads the seven bytes of a header and
then as many bytes as the header declares. Its steps are calls: to write, to read exactly so many
bytes, and to allocate a buffer, each of which may throw. The vector that the response is returned
in is allocated last, after all its bytes have been read.

`exec_sendAndReceive` is the call alone: whatever request it sends, it takes exactly the frame in
front of the stream. `ResponseFrame` is a byte string with the length that its header declares.
-/

set_option autoImplicit false
set_option relaxedAutoImplicit false

namespace MessageU.Client

open Library Interaction

/-! ### The call -/

/-- What `sendAndReceive` asks of the socket and of the memory. -/
inductive ConnectionCall
  /-- `boost::asio::write`. -/
  | write (data : Bytes)
  /-- `std::vector<uint8_t> buffer(size)`. -/
  | allocate (size : ℕ)
  /-- `boost::asio::read` of exactly `size` bytes. -/
  | read (size : ℕ)
  /-- `buffer.insert`, which allocates the whole response. -/
  | insert (size : ℕ)

/-- What such a call returns. -/
abbrev ConnectionCall.Result : ConnectionCall → Type
  | .write _ | .allocate _ | .insert _ => Unit
  | .read _ => Bytes

/-- What such a call throws: `boost::system::system_error`, `std::bad_alloc`, or an exception of the
client. -/
inductive ConnectionError
  | systemError
  | badAlloc
  | thrown (exception : CppError)
  deriving DecidableEq, Repr

/-- The calls as the operations of a program. -/
abbrev ConnectionCalls : Signature where
  Operation := ConnectionCall
  Result := ConnectionCall.Result

/-- A part of `ClientConnection`. -/
abbrev Exchange (α : Type) := Interaction ConnectionCalls ConnectionError α

/-- A call. -/
def onSocket (call : ConnectionCall) : Exchange call.Result :=
  .request call .finished

/-- `sendData`. -/
def sendData (data : Bytes) : Exchange Unit :=
  onSocket (.write data)

/-- `receiveExact`. -/
def receiveExact (size : ℕ) : Exchange Bytes :=
  if size = 0 then pure []
  else do
    onSocket (.allocate size)
    onSocket (.read size)

/-- `getPayloadSize`. -/
def getPayloadSize (data : Bytes) : Except CppError ℕ :=
  if data.length < headerSize then
    .error (.runtimeError "getPayloadSize: response header too small")
  else readUint32LE data payloadOffset

/-- The end of `sendAndReceive`, with the header and the payload. -/
def returnBuffer (buffer payload : Bytes) : Exchange Bytes := do
  onSocket (.insert (buffer.length + payload.length))
  pure (buffer ++ payload)

/-- `sendAndReceive` behind the header. -/
def receivePayload (buffer : Bytes) : Exchange Bytes := do
  let size ← finished ((getPayloadSize buffer).mapError .thrown)
  let payload ← receiveExact size
  returnBuffer buffer payload

/-- `sendAndReceive` behind the request. -/
def receiveResponse : Exchange Bytes := do
  let buffer ← receiveExact headerSize
  receivePayload buffer

/-- `sendAndReceive`. -/
def sendAndReceive (data : Bytes) : Exchange Bytes := do
  sendData data
  receiveResponse

/-! ### Frames of the server -/

/-- The payload size that a header of a response declares. -/
def declaredSize (data : Bytes) : ℕ :=
  fromLittleEndian (slice data payloadOffset 4)

/-- A response with the length that its header declares. -/
abbrev ResponseFrame :=
  { bytes : Bytes // headerSize ≤ bytes.length ∧ bytes.length = headerSize + declaredSize bytes }

/-- What the server builds is framed. -/
theorem responseFrame_framed {code : ℕ} {payload : Bytes} (hpayload : payload.length < 2 ^ 32) :
    headerSize ≤ (Server.responseFrame code payload).length ∧
      (Server.responseFrame code payload).length =
        headerSize + declaredSize (Server.responseFrame code payload) := by
  have hfits : payload.length < 256 ^ 4 := by simpa using hpayload
  have hdeclared : declaredSize (Server.responseFrame code payload) = payload.length := by
    rw [declaredSize, Server.responseFrame, List.append_assoc _ (littleEndian 4 _),
      slice_append_append (by simp) (littleEndian_length _ _), fromLittleEndian_littleEndian hfits]
  rw [hdeclared, responseFrame_length]
  exact ⟨Nat.le_add_right _ _, rfl⟩

/-- A response of the server as a frame. -/
def ResponseFrame.build (code : ℕ) (payload : Bytes) (hpayload : payload.length < 2 ^ 32) :
    ResponseFrame :=
  ⟨Server.responseFrame code payload, responseFrame_framed hpayload⟩

/-- The size is read from the header. -/
theorem getPayloadSize_header {data : Bytes} (hdata : headerSize ≤ data.length) :
    getPayloadSize (data.take headerSize) = .ok (declaredSize data) := by
  have hlength : (data.take headerSize).length = headerSize := List.length_take_of_le hdata
  have hfield : slice (data.take headerSize) payloadOffset 4 = slice data payloadOffset 4 := by
    rw [slice, slice, List.drop_take, List.take_take]
    simp
  rw [getPayloadSize, hlength, if_neg (lt_irrefl _), readUint32LE, hlength,
    if_neg (by simp), hfield]
  rfl

/-- The bytes behind the header are as many as it declares. -/
theorem ResponseFrame.length_drop (frame : ResponseFrame) :
    (frame.val.drop headerSize).length = declaredSize frame.val := by
  rw [List.length_drop, frame.property.2, Nat.add_sub_cancel_left]

/-! ### A call alone -/

/-- A call on a socket that holds `incoming` bytes to read, without failures. -/
def ConnectionCall.exec (incoming : Bytes) :
    (call : ConnectionCall) → Bytes × Except ConnectionError call.Result
  | .write _ | .allocate _ | .insert _ => (incoming, .ok ())
  | .read size =>
    if size ≤ incoming.length then (incoming.drop size, .ok (incoming.take size))
    else ([], .error .systemError)

/-- Run a part of `ClientConnection` alone. -/
def Exchange.exec {α : Type} (exchange : Exchange α) (incoming : Bytes) :
    Bytes × Except ConnectionError α :=
  exchange.run ConnectionCall.exec incoming

/-- Running a sequence of two parts. -/
theorem exchange_bind {α β : Type} (exchange : Exchange α) (next : α → Exchange β)
    (incoming : Bytes) :
    Exchange.exec (exchange >>= next) incoming =
      Exchange.exec (proceed next (exchange.exec incoming).2) (exchange.exec incoming).1 :=
  run_bind _ exchange next incoming

/-- `receiveExact` takes the bytes it is asked for. -/
theorem exec_receiveExact (size : ℕ) (incoming : Bytes) (hsize : size ≤ incoming.length) :
    (receiveExact size).exec incoming = (incoming.drop size, .ok (incoming.take size)) := by
  unfold receiveExact
  split_ifs with hzero
  · subst hzero
    rfl
  · change Exchange.exec (onSocket (.read size)) incoming = _
    exact if_pos hsize

/-- `sendAndReceive` returns the frame in front of the stream and leaves the rest. -/
theorem exec_sendAndReceive (data : Bytes) (frame : ResponseFrame) (rest : Bytes) :
    (sendAndReceive data).exec (frame.val ++ rest) = (rest, .ok frame.val) := by
  obtain ⟨hheader, hwhole⟩ := frame.property
  have hfront : (frame.val ++ rest).take headerSize = frame.val.take headerSize :=
    List.take_append_of_le_length hheader
  have hdrop : (frame.val ++ rest).drop headerSize = frame.val.drop headerSize ++ rest :=
    List.drop_append_of_le_length hheader
  have hpayload : (frame.val.drop headerSize).length = declaredSize frame.val := frame.length_drop
  have hfirst := exec_receiveExact headerSize (frame.val ++ rest)
    (hheader.trans (by rw [List.length_append]; exact Nat.le_add_right _ _))
  have hsecond := exec_receiveExact (declaredSize frame.val) (frame.val.drop headerSize ++ rest)
    (by rw [List.length_append, hpayload]; exact Nat.le_add_right _ _)
  rw [hfront, hdrop] at hfirst
  rw [List.take_left' hpayload, List.drop_left' hpayload] at hsecond
  change Exchange.exec receiveResponse (frame.val ++ rest) = _
  rw [receiveResponse, exchange_bind, hfirst, proceed_ok, receivePayload, exchange_bind,
    getPayloadSize_header hheader]
  change Exchange.exec (receiveExact (declaredSize frame.val) >>=
    returnBuffer (frame.val.take headerSize)) (frame.val.drop headerSize ++ rest) = _
  rw [exchange_bind, hsecond]
  change (rest, Except.ok (frame.val.take headerSize ++ frame.val.drop headerSize)) = _
  rw [List.take_append_drop]

end MessageU.Client
