import MessageU.Client.Actions
import MessageU.Library.RelyGuarantee

/-!
# The threads of the client

`Main.cpp` and `PullRequests.cpp`. The main thread takes a choice of the menu, runs its action, and
if there is something to send it exchanges it with the server and processes the response. The pull
thread asks for the waiting messages from time to time. Both call the methods of one
`ClientContext`, each of which holds a mutex, so that a call is one step, and one
`ClientConnection`, where `sendAndReceive` holds a mutex from the request to its response.

`mainTurn` and `pullTurn` are one round of each loop, as programs over the calls of the client and
the exchange with the server (`LoopCall`). The rest of the module says which calls the functions of
the client make at all (`Within`): most of them leave the context alone, and only a registration and
the answer to it write the identity.
-/

set_option autoImplicit false
set_option relaxedAutoImplicit false

namespace MessageU.Client

open Library Interaction

/-! ### Rounds of the loops -/

/-- What a thread asks of its surroundings: a call, or an exchange with the server. -/
inductive LoopCall
  | method (call : ClientCall)
  /-- `conn.sendAndReceive(data)`. -/
  | sendAndReceive (data : Bytes)

/-- What it returns. -/
abbrev LoopCall.Result : LoopCall → Type
  | .method call => call.Result
  | .sendAndReceive _ => Bytes

/-- These as the operations of a program. -/
abbrev LoopCalls : Signature where
  Operation := LoopCall
  Result := LoopCall.Result

/-- A part of a loop. -/
abbrev Loop (α : Type) := Interaction LoopCalls CppError α

/-- A function of the client, called by a loop. -/
def here {α : Type} (program : Program α) : Loop α :=
  program.expand fun call ↦ .request (.method call) .finished

/-- An exchange with the server. -/
def exchange (data : Bytes) : Loop Bytes :=
  .request (.sendAndReceive data) .finished

/-- The first call of a part of a loop. -/
def firstCall {α : Type} : Loop α → Option LoopCall
  | .request call _ => some call
  | .finished _ => none

/-- The body of the loop of `main` behind the menu. Assumes: `rounds` for the loops of the
action. -/
def mainTurn (rounds choice : ℕ) : Loop Unit := do
  let data ← here (handleMenuChoice rounds choice)
  if data = [] then pure ()
  else do
    let buffer ← exchange data
    here (responseClientMain buffer)

/-- The body of the loop of `pullWaitingMessagesLoop` behind the pause. -/
def pullTurn : Loop Unit := do
  let registered ← here (ask .hasClientID)
  if !registered then pure ()
  else Interaction.rescue (do
    let id ← here (ask .getClientID)
    let buffer ← exchange (createBuffer id requestWaitingMessages [])
    here (ask (.print (.text "Pulling waiting messages automatically:\n")))
    here (responseClientMain buffer)) fun _ ↦ pure ()

/-- A sequence of functions, called by a loop. -/
theorem here_bind {α β : Type} (program : Program α) (next : α → Program β) :
    here (program >>= next) = here program >>= fun value ↦ here (next value) := by
  refine (expand_attempt _ program _).trans ?_
  refine congrArg (attempt (here program)) (funext fun outcome ↦ ?_)
  cases outcome <;> rfl

/-! ### The calls of the functions -/

/-- A call that leaves the context and the file alone. -/
def ClientCall.Reads : ClientCall → Prop
  | .setClientID _ | .setName _ | .setPrivateKey _ | .setFriendBase .. | .setFriendPublicKey ..
  | .setFriendSymmetricKey .. | .openMyInfo | .writeMyInfo _ => False
  | _ => True

/-- A call that leaves the context and the file alone and reads no line. -/
def ClientCall.Looks : ClientCall → Prop
  | .setClientID _ | .setName _ | .setPrivateKey _ | .setFriendBase .. | .setFriendPublicKey ..
  | .setFriendSymmetricKey .. | .openMyInfo | .writeMyInfo _ | .getline => False
  | _ => True

/-- A call that leaves the identity of the client alone, in the context and in the file. -/
def ClientCall.KeepsIdentity : ClientCall → Prop
  | .setClientID _ | .setName _ | .setPrivateKey _ | .openMyInfo | .writeMyInfo _ => False
  | _ => True

/-- A call that a response can make which grants no client ID: it reads no line and leaves the
identity of the client alone. -/
def ClientCall.Learns : ClientCall → Prop
  | .getline | .setClientID _ | .setName _ | .setPrivateKey _ | .openMyInfo | .writeMyInfo _ =>
    False
  | _ => True

/-- A call that leaves the cache alone. -/
def ClientCall.KeepsFriends : ClientCall → Prop
  | .setFriendBase .. | .setFriendPublicKey .. | .setFriendSymmetricKey .. => False
  | _ => True

/-- A call that leaves the keys of the cache alone. -/
def ClientCall.KeepsKeys : ClientCall → Prop
  | .setFriendPublicKey .. | .setFriendSymmetricKey .. => False
  | _ => True

theorem ClientCall.Looks.reads {call : ClientCall} (h : call.Looks) : call.Reads := by
  cases call <;> first | exact h | trivial

theorem ClientCall.Looks.learns {call : ClientCall} (h : call.Looks) : call.Learns := by
  cases call <;> first | exact h | trivial

theorem ClientCall.Reads.keepsIdentity {call : ClientCall} (h : call.Reads) :
    call.KeepsIdentity := by
  cases call <;> first | exact h | trivial

theorem ClientCall.Reads.keepsFriends {call : ClientCall} (h : call.Reads) : call.KeepsFriends := by
  cases call <;> first | exact h | trivial

theorem ClientCall.KeepsFriends.keepsKeys {call : ClientCall} (h : call.KeepsFriends) :
    call.KeepsKeys := by
  cases call <;> first | exact h | trivial

theorem ClientCall.Reads.keepsKeys {call : ClientCall} (h : call.Reads) : call.KeepsKeys := by
  cases call <;> first | exact h | trivial

section Within

variable {kind : ClientCall → Prop}

/-- A call and what follows it. -/
theorem within_ask {α : Type} {call : ClientCall} {next : call.Result → Program α} :
    Within kind (ask call >>= next) ↔ kind call ∧ ∀ value, Within kind (next value) := by
  refine and_congr_right fun _ ↦ ⟨fun h value ↦ h (.ok value), fun h answer ↦ ?_⟩
  cases answer with
  | ok value => exact h value
  | error exception => trivial

/-- A call alone. -/
theorem within_call {call : ClientCall} (h : kind call) : Within kind (ask call) :=
  ⟨h, fun _ ↦ trivial⟩

theorem within_pure {α : Type} (value : α) : Within kind (pure value : Program α) :=
  trivial

theorem within_throwing {α : Type} (exception : CppError) :
    Within kind (throwing exception : Program α) :=
  trivial

theorem within_finished {α : Type} (outcome : Except CppError α) :
    Within kind (finished outcome : Program α) :=
  trivial

theorem within_getValidUsername (prompt : String) (rounds : ℕ) :
    Within ClientCall.Reads (getValidUsername prompt rounds) := by
  induction rounds with
  | zero => exact within_throwing _
  | succ rounds ih =>
    refine within_ask.mpr ⟨trivial, fun _ ↦ within_ask.mpr ⟨trivial, fun line ↦ ?_⟩⟩
    dsimp only
    split_ifs
    · exact within_ask.mpr ⟨trivial, fun _ ↦ within_pure _⟩
    · exact within_ask.mpr ⟨trivial, fun _ ↦ ih⟩
    · exact within_pure _

theorem within_readMessage (rounds : ℕ) (msg : Bytes) :
    Within ClientCall.Reads (readMessage rounds msg) := by
  induction rounds generalizing msg with
  | zero => exact within_throwing _
  | succ rounds ih =>
    refine within_ask.mpr ⟨trivial, fun line ↦ ?_⟩
    cases line with
    | none => exact within_pure _
    | some line =>
      dsimp only
      split_ifs
      · exact within_pure _
      · exact ih _

theorem within_handleSendText (rounds : ℕ) (target : ClientId) :
    Within ClientCall.Reads (handleSendText rounds target) := by
  refine within_ask.mpr ⟨trivial, fun _ ↦ (within_readMessage rounds []).bind fun msg ↦ ?_⟩
  split_ifs
  · exact within_ask.mpr ⟨trivial, fun _ ↦ within_pure _⟩
  · refine within_ask.mpr ⟨trivial, fun entry ↦ ?_⟩
    cases entry with
    | none => exact within_ask.mpr ⟨trivial, fun _ ↦ within_pure _⟩
    | some entry =>
      dsimp only
      cases entry.symmetricKey with
      | none => exact within_ask.mpr ⟨trivial, fun _ ↦ within_pure _⟩
      | some key => exact within_call trivial

theorem within_sendContent (payload content : Bytes) :
    Within ClientCall.Reads (sendContent payload content) :=
  within_ask.mpr ⟨trivial, fun _ ↦ within_pure _⟩

theorem within_handleClientList : Within ClientCall.Reads handleClientList :=
  within_ask.mpr ⟨trivial, fun _ ↦ within_pure _⟩

theorem within_handleWaitingMessages : Within ClientCall.Reads handleWaitingMessages :=
  within_ask.mpr ⟨trivial, fun _ ↦ within_pure _⟩

theorem within_handlePublicKey (rounds : ℕ) :
    Within ClientCall.Reads (handlePublicKey rounds) := by
  refine (within_getValidUsername _ rounds).bind fun name ↦ ?_
  split_ifs
  · exact within_pure _
  · refine within_ask.mpr ⟨trivial, fun found ↦ ?_⟩
    cases found with
    | none => exact within_ask.mpr ⟨trivial, fun _ ↦ within_pure _⟩
    | some target => exact within_ask.mpr ⟨trivial, fun _ ↦ within_pure _⟩

theorem within_handleRegister (rounds : ℕ) :
    Within ClientCall.KeepsFriends (handleRegister rounds) := by
  refine within_ask.mpr ⟨trivial, fun registered ↦ ?_⟩
  split_ifs
  · exact within_ask.mpr ⟨trivial, fun _ ↦ within_pure _⟩
  · refine ((within_getValidUsername _ rounds).mono fun _ ↦ ClientCall.Reads.keepsFriends).bind
      fun name ↦ ?_
    refine within_ask.mpr ⟨trivial, fun _ ↦ within_ask.mpr ⟨trivial, fun privateKey ↦ ?_⟩⟩
    refine within_ask.mpr ⟨trivial, fun _ ↦ within_ask.mpr ⟨trivial, fun publicKey ↦ ?_⟩⟩
    exact within_ask.mpr ⟨trivial, fun _ ↦ within_pure _⟩

theorem within_saveMyInfo : Within ClientCall.KeepsFriends saveMyInfo := by
  refine within_ask.mpr ⟨trivial, fun registered ↦ within_ask.mpr ⟨trivial, fun name ↦ ?_⟩⟩
  refine within_ask.mpr ⟨trivial, fun privateKey ↦ ?_⟩
  split_ifs
  · exact within_call trivial
  · refine within_ask.mpr ⟨trivial, fun isOpen ↦ ?_⟩
    split_ifs
    · exact within_call trivial
    · refine within_ask.mpr ⟨trivial, fun encoded ↦ within_ask.mpr ⟨trivial, fun id ↦ ?_⟩⟩
      refine within_ask.mpr ⟨trivial, fun written ↦ ?_⟩
      split_ifs
      · exact within_call trivial
      · exact within_pure _

theorem within_responseRegister (data : Bytes) :
    Within ClientCall.KeepsFriends (responseRegister data) := by
  refine (within_finished _).bind fun id ↦ within_ask.mpr ⟨trivial, fun _ ↦ ?_⟩
  refine within_saveMyInfo.bind fun _ ↦ ?_
  refine within_ask.mpr ⟨trivial, fun _ ↦ within_ask.mpr ⟨trivial, fun name ↦ ?_⟩⟩
  refine within_ask.mpr ⟨trivial, fun _ ↦ within_ask.mpr ⟨trivial, fun id ↦ ?_⟩⟩
  exact within_call trivial

/-- The loop over a client list names the entries of the list. -/
theorem within_listLoop {data : Bytes} (hprint : ∀ output, kind (.print output))
    (hentry : ∀ uuid count, headerSize + count * (clientIdSize + nameSize) < data.length →
      kind (.setFriendBase uuid (entryName data (headerSize + count * (clientIdSize + nameSize)))))
    (rounds count : ℕ) :
    Within kind (listLoop data rounds (headerSize + count * (clientIdSize + nameSize))) := by
  induction rounds generalizing count with
  | zero => exact within_throwing _
  | succ rounds ih =>
    rw [listLoop]
    split_ifs with hmore
    · refine (within_finished _).bind fun uuid ↦ within_ask.mpr ⟨hprint _, fun _ ↦ ?_⟩
      refine within_ask.mpr ⟨hentry uuid count hmore, fun _ ↦ ?_⟩
      have hnext := ih (count + 1)
      rw [Nat.add_mul, Nat.one_mul, ← Nat.add_assoc] at hnext
      exact hnext
    · exact within_pure _

theorem within_responseClientList {data : Bytes} (hprint : ∀ output, kind (.print output))
    (hentry : ∀ uuid count, headerSize + count * (clientIdSize + nameSize) < data.length →
      kind (.setFriendBase uuid
        (entryName data (headerSize + count * (clientIdSize + nameSize))))) :
    Within kind (responseClientList data) := by
  unfold responseClientList
  split_ifs
  · exact within_throwing _
  · have hloop := within_listLoop hprint hentry data.length 0
    rwa [Nat.zero_mul, Nat.add_zero] at hloop

theorem within_handleTextMessage (fromId : ClientId) (content : Bytes) :
    Within ClientCall.Looks (handleTextMessage fromId content) := by
  refine within_ask.mpr ⟨trivial, fun entry ↦ ?_⟩
  cases entry.bind Friend.symmetricKey with
  | none => exact within_call trivial
  | some key =>
    refine Within.attempt (within_ask.mpr ⟨trivial, fun txt ↦ within_call trivial⟩) fun outcome ↦ ?_
    cases outcome with
    | ok value => exact within_finished _
    | error exception => exact within_call trivial

theorem within_responseMessageSent (data : Bytes) :
    Within ClientCall.Looks (responseMessageSent data) := by
  unfold responseMessageSent
  split_ifs
  · exact within_throwing _
  · refine (within_finished _).bind fun id ↦ within_ask.mpr ⟨trivial, fun entry ↦ ?_⟩
    cases entry with
    | none => exact within_throwing _
    | some target => exact (within_finished _).bind fun msgID ↦ within_call trivial

theorem within_ensureFriend (id : ClientId) : Within ClientCall.Learns (ensureFriend id) := by
  refine within_ask.mpr ⟨trivial, fun entry ↦ ?_⟩
  split_ifs
  · exact within_call trivial
  · exact within_pure _

theorem within_handleSymmetricKeyMessage (fromId : ClientId) (content rsaPriv : Bytes) :
    Within ClientCall.Learns (handleSymmetricKeyMessage fromId content rsaPriv) := by
  refine Within.attempt (within_ask.mpr ⟨trivial, fun symKeyBin ↦ ?_⟩) fun outcome ↦ ?_
  · split_ifs
    · exact (within_ensureFriend fromId).bind fun _ ↦
        within_ask.mpr ⟨trivial, fun _ ↦ within_call trivial⟩
    · exact within_call trivial
  · cases outcome with
    | ok value => exact within_finished _
    | error exception => exact within_call trivial

theorem within_handleRecord (fromId : ClientId) (msgType : ℕ) (content rsaPriv : Bytes) :
    Within ClientCall.Learns (handleRecord fromId msgType content rsaPriv) := by
  have hend : Within ClientCall.Learns (ask (.print (.text "-----<EOM>-----\n\n"))) :=
    within_call trivial
  refine within_ask.mpr ⟨trivial, fun entry ↦ within_ask.mpr ⟨trivial, fun _ ↦ ?_⟩⟩
  refine within_ask.mpr ⟨trivial, fun _ ↦ ?_⟩
  dsimp only
  split_ifs
  · exact within_ask.mpr ⟨trivial, fun _ ↦ hend⟩
  · exact (within_handleSymmetricKeyMessage fromId content rsaPriv).bind fun _ ↦ hend
  · exact ((within_handleTextMessage fromId content).mono fun _ ↦ ClientCall.Looks.learns).bind
      fun _ ↦ hend
  · exact within_ask.mpr ⟨trivial, fun _ ↦ hend⟩

theorem within_waitingLoop (data rsaPriv : Bytes) (rounds offset : ℕ) :
    Within ClientCall.Learns (waitingLoop data rsaPriv rounds offset) := by
  induction rounds generalizing offset with
  | zero => exact within_throwing _
  | succ rounds ih =>
    rw [waitingLoop]
    split_ifs
    · exact within_throwing _
    · refine (within_finished _).bind fun fromId ↦ (within_finished _).bind fun size ↦ ?_
      split_ifs
      · exact within_throwing _
      · exact (within_handleRecord fromId _ _ rsaPriv).bind fun _ ↦ ih _
    · exact within_pure _

/-- A response that grants no client ID leaves the identity of the client alone. -/
theorem within_responseClientMain {data : Bytes} (hcode : codeOf data ≠ responseRegisterCode) :
    Within ClientCall.Learns (responseClientMain data) := by
  unfold responseClientMain
  split_ifs
  · exact within_throwing _
  · exact within_responseClientList (fun _ ↦ trivial) fun _ _ _ ↦ trivial
  · unfold responsePublicKey
    split_ifs
    · refine (within_finished _).bind fun uuid ↦ (within_ensureFriend uuid).bind fun _ ↦ ?_
      exact within_ask.mpr ⟨trivial, fun _ ↦ within_ask.mpr ⟨trivial, fun _ ↦ within_call trivial⟩⟩
    · exact within_throwing _
  · exact (within_responseMessageSent data).mono fun _ ↦ ClientCall.Looks.learns
  · unfold responseWaitingMessages
    split_ifs
    · exact within_call trivial
    · exact within_ask.mpr ⟨trivial, fun privateKey ↦
        within_ask.mpr ⟨trivial, fun _ ↦ within_waitingLoop data privateKey _ _⟩⟩
  · exact within_call trivial
  · exact within_call trivial

/-- A key for another client is drawn and put into the cache. -/
theorem within_handleSendSymmetricKey (target : ClientId) :
    Within ClientCall.KeepsIdentity (handleSendSymmetricKey target) := by
  refine within_ask.mpr ⟨trivial, fun entry ↦ ?_⟩
  cases entry.bind Friend.publicKey with
  | none => exact within_ask.mpr ⟨trivial, fun _ ↦ within_pure _⟩
  | some publicKey =>
    refine within_ask.mpr ⟨trivial, fun symKey ↦ within_ask.mpr ⟨trivial, fun _ ↦ ?_⟩⟩
    exact within_ask.mpr ⟨trivial, fun _ ↦ within_call trivial⟩

theorem within_handleAllMessages (rounds choice : ℕ) :
    Within ClientCall.KeepsIdentity (handleAllMessages rounds choice) := by
  have hsend : ∀ payload content, Within ClientCall.KeepsIdentity (sendContent payload content) :=
    fun payload content ↦
      (within_sendContent payload content).mono fun _ ↦ ClientCall.Reads.keepsIdentity
  have hcontent : ∀ payload content, Within ClientCall.KeepsIdentity
      (if content = [] then pure [] else sendContent payload content : Program Bytes) := by
    intro payload content
    split_ifs
    · exact within_pure _
    · exact hsend payload content
  refine ((within_getValidUsername _ rounds).mono fun _ ↦ ClientCall.Reads.keepsIdentity).bind
    fun name ↦ ?_
  by_cases hzero : name = zeroName
  · rw [if_pos hzero]
    exact within_pure _
  rw [if_neg hzero]
  refine within_ask.mpr ⟨trivial, fun found ↦ ?_⟩
  cases found with
  | none => exact within_ask.mpr ⟨trivial, fun _ ↦ within_pure _⟩
  | some target =>
    dsimp only
    split_ifs
    · exact ((within_handleSendText rounds target).mono fun _ ↦ ClientCall.Reads.keepsIdentity).bind
        (hcontent _)
    · exact hsend _ _
    · exact (within_handleSendSymmetricKey target).bind (hcontent _)
    · exact hsend _ _

/-- Only a registration writes the identity of the client. -/
theorem within_handleMenuChoice {choice : ℕ} (hchoice : choice ≠ registerChoice) (rounds : ℕ) :
    Within ClientCall.KeepsIdentity (handleMenuChoice rounds choice) := by
  have hreads : ∀ {program : Program Bytes}, Within ClientCall.Reads program →
      Within ClientCall.KeepsIdentity program :=
        fun h ↦ h.mono fun _ ↦ ClientCall.Reads.keepsIdentity
  unfold handleMenuChoice
  split_ifs with hregister
  · exact absurd hregister hchoice
  · exact hreads within_handleClientList
  · exact hreads (within_handlePublicKey rounds)
  · exact hreads within_handleWaitingMessages
  · exact within_handleAllMessages rounds _
  · exact within_handleAllMessages rounds _
  · exact within_handleAllMessages rounds _
  · exact within_pure _

end Within

/-! ### The requests of the actions -/

section Returns

variable {ends : Bytes → Prop} {rounds : ℕ}

theorem returns_handleRegister (hnil : ends [])
    (hsend : ∀ id payload, ends (createBuffer id requestRegister payload)) :
    (handleRegister rounds).Returns ends := by
  refine Returns.bind fun registered ↦ ?_
  split_ifs
  · exact Returns.bind fun _ ↦ hnil
  · refine Returns.bind fun name ↦ Returns.bind fun _ ↦ Returns.bind fun privateKey ↦ ?_
    exact Returns.bind fun _ ↦ Returns.bind fun publicKey ↦ Returns.bind fun id ↦ hsend id _

theorem returns_handleClientList
    (hsend : ∀ id payload, ends (createBuffer id requestClientsList payload)) :
    handleClientList.Returns ends :=
  Returns.bind fun id ↦ hsend id _

theorem returns_handleWaitingMessages
    (hsend : ∀ id payload, ends (createBuffer id requestWaitingMessages payload)) :
    handleWaitingMessages.Returns ends :=
  Returns.bind fun id ↦ hsend id _

theorem returns_handlePublicKey (hnil : ends [])
    (hsend : ∀ id payload, ends (createBuffer id requestPublicKey payload)) :
    (handlePublicKey rounds).Returns ends := by
  refine Returns.bind fun name ↦ ?_
  split_ifs
  · exact hnil
  · refine Returns.bind fun found ↦ ?_
    cases found with
    | none => exact Returns.bind fun _ ↦ hnil
    | some target => exact Returns.bind fun id ↦ hsend id _

theorem returns_handleAllMessages {choice : ℕ} (hnil : ends [])
    (hsend : ∀ id payload, ends (createBuffer id requestAllMessages payload)) :
    (handleAllMessages rounds choice).Returns ends := by
  have hcontent : ∀ payload content, Returns ends (if content = [] then pure []
      else sendContent payload content : Program Bytes) := by
    intro payload content
    split_ifs
    · exact hnil
    · exact Returns.bind fun id ↦ hsend id _
  refine Returns.bind fun name ↦ ?_
  by_cases hzero : name = zeroName
  · rw [if_pos hzero]
    exact hnil
  rw [if_neg hzero]
  refine Returns.bind fun found ↦ ?_
  cases found with
  | none => exact Returns.bind fun _ ↦ hnil
  | some target =>
    dsimp only
    split_ifs
    · exact Returns.bind (hcontent _)
    · exact Returns.bind fun id ↦ hsend id _
    · exact Returns.bind (hcontent _)
    · exact Returns.bind fun id ↦ hsend id _

/-- Only a registration sends a registration. -/
theorem returns_handleMenuChoice {choice : ℕ} (hchoice : choice ≠ registerChoice) (hnil : ends [])
    (hsend : ∀ id code payload, code ∈ [requestClientsList, requestPublicKey, requestAllMessages,
      requestWaitingMessages] → ends (createBuffer id code payload)) :
    (handleMenuChoice rounds choice).Returns ends := by
  unfold handleMenuChoice
  split_ifs with hregister
  · exact absurd hregister hchoice
  · exact returns_handleClientList fun id payload ↦ hsend id _ payload (by simp)
  · exact returns_handlePublicKey hnil fun id payload ↦ hsend id _ payload (by simp)
  · exact returns_handleWaitingMessages fun id payload ↦ hsend id _ payload (by simp)
  · exact returns_handleAllMessages hnil fun id payload ↦ hsend id _ payload (by simp)
  · exact returns_handleAllMessages hnil fun id payload ↦ hsend id _ payload (by simp)
  · exact returns_handleAllMessages hnil fun id payload ↦ hsend id _ payload (by simp)
  · exact hnil

end Returns

end MessageU.Client
