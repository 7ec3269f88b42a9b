import Mathlib.Data.List.TakeWhile
import MessageU.Server.Stages

/-!
# Well-formed requests

`requestFrame` is the layout of a request: the 23-byte header and the payload. What the handlers
read from a frame is what was put into it: the header fields (`validHeader_requestFrame` and the
lemmas next to it) and the fields of the three payloads that have any, a registration, a requested
client ID and a message to send.
-/

set_option autoImplicit false
set_option relaxedAutoImplicit false

namespace MessageU.Server

open Library

/-- The bytes of a request: client ID, version, code, payload size and payload. -/
def requestFrame (clientId : Bytes) (code : ℕ) (payload : Bytes) : Bytes :=
  clientId ++ (littleEndian 1 clientVersion ++ (littleEndian codeSize code ++
    (littleEndian contentSize payload.length ++ payload)))

/-- The payload of a registration: the name field, filled up with zeros, and the public key. -/
def registrationPayload (name publicKey : Bytes) : Bytes :=
  (name ++ List.replicate (nameSize - name.length) 0) ++ publicKey

/-- The payload of a message to send: target, type, content size and content. -/
def messagePayload (target : Bytes) (type : ℕ) (content : Bytes) : Bytes :=
  target ++ (littleEndian messageTypeSize type ++
    (littleEndian contentSize content.length ++ content))

section Header

variable {clientId payload : Bytes} {code : ℕ}

theorem requestFrame_length (hclient : clientId.length = clientIdSize) :
    (requestFrame clientId code payload).length = headerSize + payload.length := by
  simp only [requestFrame, List.length_append, littleEndian_length, hclient]
  simp
  omega

theorem requestFrame_ne_nil (hclient : clientId.length = clientIdSize) (code : ℕ)
    (payload : Bytes) :
    requestFrame clientId code payload ≠ [] := by
  refine List.ne_nil_of_length_pos ?_
  rw [requestFrame_length hclient]
  exact Nat.add_pos_left (by simp) _

/-- A field behind the header is a field of the payload. -/
theorem slice_requestFrame (hclient : clientId.length = clientIdSize) (offset size : ℕ) :
    slice (requestFrame clientId code payload) (headerSize + offset) size =
      slice payload offset size := by
  have hheader : requestFrame clientId code payload =
      (clientId ++ (littleEndian 1 clientVersion ++ (littleEndian codeSize code ++
        littleEndian contentSize payload.length))) ++ payload := by
    simp only [requestFrame, List.append_assoc]
  have hlength : (clientId ++ (littleEndian 1 clientVersion ++ (littleEndian codeSize code ++
      littleEndian contentSize payload.length))).length = headerSize := by
    simp only [List.length_append, littleEndian_length, hclient]
    simp
  rw [slice, slice, hheader, ← hlength, List.drop_length_add_append]

@[simp] theorem requesterIdOf_requestFrame (hclient : clientId.length = clientIdSize) :
    requesterIdOf (requestFrame clientId code payload) = clientId := by
  rw [requesterIdOf, requestFrame, List.take_left' hclient]

theorem versionOf_requestFrame (hclient : clientId.length = clientIdSize) :
    versionOf (requestFrame clientId code payload) = clientVersion := by
  have hbyte : (requestFrame clientId code payload)[versionOffset]? = some 1 := by
    rw [requestFrame, List.getElem?_append_right (by rw [hclient]), hclient]
    rfl
  rw [versionOf, byteAt, List.getD_eq_getElem?_getD, hbyte]
  rfl

theorem codeOf_requestFrame (hclient : clientId.length = clientIdSize) (hcode : code < 2 ^ 16) :
    codeOf (requestFrame clientId code payload) = code := by
  have hfits : code < 256 ^ codeSize := hcode
  rw [codeOf, requestFrame, ← List.append_assoc clientId, slice_append_append
    (by rw [List.length_append, hclient, littleEndian_length]) (littleEndian_length _ _), fromBytes,
    fromLittleEndian_littleEndian hfits]

theorem payloadSizeOf_requestFrame (hclient : clientId.length = clientIdSize)
    (hpayload : payload.length < 2 ^ 32) :
    payloadSizeOf (requestFrame clientId code payload) = payload.length := by
  have hfits : payload.length < 256 ^ contentSize := hpayload
  rw [payloadSizeOf, requestFrame, ← List.append_assoc clientId, ← List.append_assoc _ _ (_ ++ _),
    slice_append_append (by simp [hclient]) (littleEndian_length _ _), fromBytes,
    fromLittleEndian_littleEndian hfits]

/-- A frame passes the checks of the dispatcher. -/
theorem validHeader_requestFrame (hclient : clientId.length = clientIdSize)
    (hpayload : payload.length < 2 ^ 32) : ValidHeader (requestFrame clientId code payload) where
  header := by
    rw [requestFrame_length hclient]
    exact Nat.le_add_right _ _
  size := by rw [requestFrame_length hclient, payloadSizeOf_requestFrame hclient hpayload]
  version := versionOf_requestFrame hclient

/-! ### Registrations -/

section Registration

variable {clientId name publicKey : Bytes}

theorem registrationPayload_length (hname : name.length ≤ nameSize)
    (hkey : publicKey.length = publicKeySize) :
    (registrationPayload name publicKey).length = nameSize + publicKeySize := by
  simp only [registrationPayload, List.length_append, List.length_replicate, hkey]
  omega

/-- The name field of a registration holds the name up to its first zero. -/
theorem rawNameOf_registration_eq (hclient : clientId.length = clientIdSize)
    (hname : name.length ≤ nameSize) (code : ℕ) :
    rawNameOf (requestFrame clientId code (registrationPayload name publicKey)) =
      name.takeWhile (· ≠ 0) := by
  have hfield : (name ++ List.replicate (nameSize - name.length) (0 : UInt8)).length =
      nameSize := by
    rw [List.length_append, List.length_replicate]
    omega
  have hslice : slice (requestFrame clientId code (registrationPayload name publicKey)) headerSize
      nameSize = name ++ List.replicate (nameSize - name.length) 0 := by
    refine (slice_requestFrame hclient 0 nameSize).trans ?_
    rw [slice, List.drop_zero, registrationPayload, List.take_left' hfield]
  rw [rawNameOf, hslice, List.takeWhile_append]
  split_ifs with hnoNul
  · have hzeros : (List.replicate (nameSize - name.length) (0 : UInt8)).takeWhile (· ≠ 0) = [] := by
      cases nameSize - name.length with
      | zero => rfl
      | succ n => rfl
    rw [hzeros, List.append_nil]
    exact ((List.takeWhile_prefix _).eq_of_length hnoNul).symm
  · rfl

/-- The name field of a registration holds a name without a zero. -/
theorem rawNameOf_registration (hclient : clientId.length = clientIdSize)
    (hname : name.length ≤ nameSize) (hnoNul : ∀ code ∈ name, code ≠ 0) (code : ℕ) :
    rawNameOf (requestFrame clientId code (registrationPayload name publicKey)) = name := by
  rw [rawNameOf_registration_eq hclient hname]
  exact List.takeWhile_eq_self_iff.mpr fun byte hbyte ↦ by simpa using hnoNul byte hbyte

theorem publicKeyOf_registration (hclient : clientId.length = clientIdSize)
    (hname : name.length ≤ nameSize) (hkey : publicKey.length = publicKeySize) (code : ℕ) :
    publicKeyOf (requestFrame clientId code (registrationPayload name publicKey)) = publicKey := by
  have hfield : (name ++ List.replicate (nameSize - name.length) (0 : UInt8)).length =
      nameSize := by
    rw [List.length_append, List.length_replicate]
    omega
  rw [publicKeyOf, slice_requestFrame hclient, registrationPayload, slice_append_right hfield,
    List.take_of_length_le hkey.le]

/-- A registration of a non-empty ASCII name is valid. -/
theorem validRegistration_requestFrame (hclient : clientId.length = clientIdSize)
    (hname : name.length ≤ nameSize) (hnonempty : name ≠ [])
    (hascii : ∀ code ∈ name, code < 128) (hnoNul : ∀ code ∈ name, code ≠ 0)
    (hkey : publicKey.length = publicKeySize) (code : ℕ) :
    ValidRegistration (requestFrame clientId code (registrationPayload name publicKey)) where
  size := by rw [requestFrame_length hclient, registrationPayload_length hname hkey]; rfl
  ascii := by
    rw [rawNameOf_registration hclient hname hnoNul]
    exact List.all_eq_true.mpr fun code hcode ↦ by simpa using hascii code hcode
  nonempty := by rwa [rawNameOf_registration hclient hname hnoNul]

end Registration

/-! ### Messages to send -/

section Message

variable {clientId target content : Bytes} {type : ℕ}

theorem messagePayload_length (htarget : target.length = clientIdSize) :
    (messagePayload target type content).length =
      clientIdSize + messageTypeSize + contentSize + content.length := by
  simp only [messagePayload, List.length_append, littleEndian_length, htarget]
  omega

/-- The client ID at the beginning of a payload. -/
theorem requestedIdOf_requestFrame {rest : Bytes} (hclient : clientId.length = clientIdSize)
    (htarget : target.length = clientIdSize) (code : ℕ) :
    requestedIdOf (requestFrame clientId code (target ++ rest)) = target := by
  refine (slice_requestFrame hclient 0 clientIdSize).trans ?_
  rw [slice, List.drop_zero, List.take_left' htarget]

theorem requestedIdOf_message (hclient : clientId.length = clientIdSize)
    (htarget : target.length = clientIdSize) (code : ℕ) :
    requestedIdOf (requestFrame clientId code (messagePayload target type content)) = target :=
  requestedIdOf_requestFrame hclient htarget code

theorem messageTypeOf_message (hclient : clientId.length = clientIdSize)
    (htarget : target.length = clientIdSize) (htype : type < 2 ^ 8) (code : ℕ) :
    messageTypeOf (requestFrame clientId code (messagePayload target type content)) = type := by
  have hfield : slice (requestFrame clientId code (messagePayload target type content))
      (headerSize + clientIdSize) 1 = [UInt8.ofNat type] := by
    rw [slice_requestFrame hclient, messagePayload,
      slice_append_append htarget (littleEndian_length _ _)]
    rfl
  rw [messageTypeOf, byteAt_of_slice hfield]
  exact UInt8.toNat_ofNat_of_lt htype

theorem contentSizeOf_message (hclient : clientId.length = clientIdSize)
    (htarget : target.length = clientIdSize) (hcontent : content.length < 2 ^ 32) (code : ℕ) :
    contentSizeOf (requestFrame clientId code (messagePayload target type content)) =
      content.length := by
  have hfits : content.length < 256 ^ contentSize := hcontent
  have hfield : slice (requestFrame clientId code (messagePayload target type content))
      (headerSize + clientIdSize + messageTypeSize) contentSize =
        littleEndian contentSize content.length := by
    rw [Nat.add_assoc, slice_requestFrame hclient, messagePayload, ← List.append_assoc,
      slice_append_append (by simp [htarget]) (littleEndian_length _ _)]
  rw [contentSizeOf, hfield, fromBytes, fromLittleEndian_littleEndian hfits]

/-- The content that has its declared size. -/
theorem contentOf_of_size (hclient : clientId.length = clientIdSize)
    (htarget : target.length = clientIdSize) {code : ℕ}
    (hsize : contentSizeOf (requestFrame clientId code (messagePayload target type content)) =
      content.length) :
    contentOf (requestFrame clientId code (messagePayload target type content)) = content := by
  have hmin : minLen = headerSize + (clientIdSize + messageTypeSize + contentSize) := rfl
  rw [contentOf, hsize, hmin, slice_requestFrame hclient, messagePayload, ← List.append_assoc,
    ← List.append_assoc, slice_append_right (by simp [htarget]), List.take_length]

theorem contentOf_message (hclient : clientId.length = clientIdSize)
    (htarget : target.length = clientIdSize) (hcontent : content.length < 2 ^ 32) (code : ℕ) :
    contentOf (requestFrame clientId code (messagePayload target type content)) = content :=
  contentOf_of_size hclient htarget (contentSizeOf_message hclient htarget hcontent code)

/-- A message that passes the checks has its declared size. -/
theorem contentOf_validMessage (hclient : clientId.length = clientIdSize)
    (htarget : target.length = clientIdSize) {code : ℕ}
    (hvalid : ValidMessage (requestFrame clientId code (messagePayload target type content))) :
    contentOf (requestFrame clientId code (messagePayload target type content)) = content := by
  refine contentOf_of_size hclient htarget ?_
  have hsize := hvalid.size
  rw [requestFrame_length hclient, messagePayload_length htarget] at hsize
  simp only [minLen] at hsize
  omega

/-- A message of a known type, empty if it requests a key, passes the checks. -/
theorem validMessage_requestFrame (hclient : clientId.length = clientIdSize)
    (htarget : target.length = clientIdSize)
    (htype : type ∈ [symmetricKeyRequest, symmetricKeySend, textMessage])
    (hempty : type = symmetricKeyRequest → content = []) (hcontent : content.length < 2 ^ 32)
    (code : ℕ) :
    ValidMessage (requestFrame clientId code (messagePayload target type content)) := by
  have hbyte : type < 2 ^ 8 := by
    simp only [List.mem_cons, List.not_mem_nil, or_false] at htype
    rcases htype with rfl | rfl | rfl <;> simp
  refine ⟨?_, ?_, ?_⟩
  · rwa [messageTypeOf_message hclient htarget hbyte]
  · rw [requestFrame_length hclient, messagePayload_length htarget,
      contentSizeOf_message hclient htarget hcontent]
    simp
    omega
  · rw [messageTypeOf_message hclient htarget hbyte, contentSizeOf_message hclient htarget hcontent]
    exact fun h ↦ by rw [hempty h]; rfl

end Message

end Header

end MessageU.Server
