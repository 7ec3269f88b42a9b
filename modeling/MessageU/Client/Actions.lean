import MessageU.Client.Response
import MessageU.Server.Requests

/-!
# Actions of the user

`ClientActions.cpp` with `Message::createBuffer` and `isValidUsername`. An action reads from the
console, may change the context, and ends in a request or in nothing to send. Its two loops are
given a number of rounds. The loop of `getValidUsername` does not stop on its own when the console
has ended; with more rounds than lines `outOfFuel` means exactly that (`exec_getValidUsername`), and
the loop of `handleSendText` always stops (`exec_readMessage`).

`Acted` lists what an action can do, to the context and as its outcome, and
`handleMenuChoice_acted` says that it does one of these. This is all that the rest of the
development knows about actions. A text is encrypted under the key that the context holds for its
target, and a symmetric key is put into the context before anything is sent.
-/

set_option autoImplicit false
set_option relaxedAutoImplicit false

namespace MessageU.Client

open Library Interaction

/-! ### Codes -/

@[simp] abbrev registerChoice : ℕ := 110
@[simp] abbrev clientsListChoice : ℕ := 120
@[simp] abbrev publicKeyChoice : ℕ := 130
@[simp] abbrev waitingMessagesChoice : ℕ := 140
@[simp] abbrev sendTextChoice : ℕ := 150
@[simp] abbrev requestSymmetricKeyChoice : ℕ := 151
@[simp] abbrev sendSymmetricKeyChoice : ℕ := 152

@[simp] abbrev requestRegister : ℕ := 700
@[simp] abbrev requestClientsList : ℕ := 701
@[simp] abbrev requestPublicKey : ℕ := 702
@[simp] abbrev requestAllMessages : ℕ := 703
@[simp] abbrev requestWaitingMessages : ℕ := 704

/-! ### Requests and names -/

/-- `appendUint16LE`. -/
def appendUint16LE (buf : Bytes) (value : ℕ) : Bytes :=
  buf ++ littleEndian 2 value

/-- `appendUint32LE`. -/
def appendUint32LE (buf : Bytes) (value : ℕ) : Bytes :=
  buf ++ littleEndian 4 value

/-- `Message::createBuffer`, with the version 1. -/
def createBuffer (clientID : ClientId) (code : ℕ) (payload : Bytes) : Bytes :=
  appendUint32LE (appendUint16LE (clientID.val ++ [1]) code) payload.length ++ payload

/-- `isValidUsername`. -/
def isValidUsername (name : Bytes) : Bool :=
  if name = [] ∨ nameSize ≤ name.length then false else name.all (· ≤ 127)

/-- The prompt for the name of another client. -/
def targetPrompt : String :=
  "Please enter target username (0 to cancel): "

/-- The name `"0"`, which cancels. -/
def zeroName : Bytes :=
  [48]

/-- The loop of `getValidUsername`. At the end of the input `std::getline` leaves no valid name. -/
def getValidUsername (prompt : String) : (rounds : ℕ) → Program Bytes
  | 0 => throwing .outOfFuel
  | rounds + 1 => do
    ask (.print (.text prompt))
    let line ← ask .getline
    let name := line.getD []
    if name = zeroName then do
      ask (.print (.text "Name cannot be 0.\n"))
      pure zeroName
    else if !isValidUsername name then do
      ask (.print (.text "Name must be ASCII only and up to 254 characters.\n"))
      getValidUsername prompt rounds
    else pure name

/-! ### The actions -/

/-- The name field of a registration. -/
def nameField (name : Bytes) : Bytes :=
  let copied := min name.length (nameSize - 1)
  (name.take copied ++ List.replicate (nameSize - copied) 0).set name.length 0

/-- `handleRegister`. -/
def handleRegister (rounds : ℕ) : Program Bytes := do
  let registered ← ask .hasClientID
  if registered then do
    ask (.print (.text "You are already logged in.\n"))
    pure []
  else do
    let name ← getValidUsername "Please enter your username: " rounds
    ask (.setName name)
    let privateKeyRaw ← ask .generatePrivateKey
    ask (.setPrivateKey privateKeyRaw)
    let publicKey ← ask (.publicKeyOf privateKeyRaw)
    let id ← ask .getClientID
    pure (createBuffer id requestRegister (nameField name ++ publicKey.val))

/-- `handleClientList`. -/
def handleClientList : Program Bytes := do
  let id ← ask .getClientID
  pure (createBuffer id requestClientsList [])

/-- `handlePublicKey`. -/
def handlePublicKey (rounds : ℕ) : Program Bytes := do
  let targetName ← getValidUsername targetPrompt rounds
  if targetName = zeroName then pure []
  else do
    let idOpt ← ask (.tryGetFriendIdByName targetName)
    match idOpt with
    | none => do
      ask (.print (.text "User not found in cache. Please request clients list (120) first.\n"))
      pure []
    | some target => do
      let id ← ask .getClientID
      pure (createBuffer id requestPublicKey target.val)

/-- `handleWaitingMessages`. -/
def handleWaitingMessages : Program Bytes := do
  let id ← ask .getClientID
  pure (createBuffer id requestWaitingMessages [])

/-- The loop of `handleSendText` that collects the lines of a message. -/
def readMessage : (rounds : ℕ) → (msg : Bytes) → Program Bytes
  | 0, _ => throwing .outOfFuel
  | rounds + 1, msg => do
    let line ← ask .getline
    match line with
    | none => pure msg
    | some line => if line = [] then pure msg else readMessage rounds (msg ++ line ++ [10])

/-- `handleSendText`. The size of the text is cut to 32 bits. -/
def handleSendText (rounds : ℕ) (otherClientID : ClientId) : Program Bytes := do
  ask (.print (.text "Enter your message (empty line to finish):\n"))
  let msg ← readMessage rounds []
  if msg = [] then do
    ask (.print (.text "Empty message. Cancelled.\n"))
    pure []
  else do
    let frOpt ← ask (.tryGetFriendCopy otherClientID)
    match frOpt with
    | none => do
      ask (.print (.text "User not found. Please request clients list (120) first.\n"))
      pure []
    | some entry =>
      match entry.symmetricKey with
      | none => do
        ask (.print (.text "No symmetric key for this user. Please use 152 first.\n"))
        pure []
      | some key16 => ask (.aesEncrypt key16 (msg.take (msg.length % 2 ^ 32)))

/-- `handleSendSymmetricKey`. -/
def handleSendSymmetricKey (otherClientID : ClientId) : Program Bytes := do
  let frOpt ← ask (.tryGetFriendCopy otherClientID)
  match frOpt.bind Friend.publicKey with
  | none => do
    ask (.print (.text "No public key for this user. Use 130 first.\n"))
    pure []
  | some publicKey => do
    let symKey ← ask .generateKey
    ask (.setFriendSymmetricKey otherClientID symKey)
    ask (.loadPublicKey publicKey)
    ask (.rsaEncrypt publicKey symKey.val)

/-- The end of `handleAllMessages`: the request with the content behind its size. -/
def sendContent (payload msgContent : Bytes) : Program Bytes := do
  let id ← ask .getClientID
  pure (createBuffer id requestAllMessages (appendUint32LE payload msgContent.length ++ msgContent))

/-- `handleAllMessages`. -/
def handleAllMessages (rounds choice : ℕ) : Program Bytes := do
  let targetName ← getValidUsername targetPrompt rounds
  if targetName = zeroName then pure []
  else do
    let idOpt ← ask (.tryGetFriendIdByName targetName)
    match idOpt with
    | none => do
      ask (.print (.text "User not found. Please request clients list (120) first.\n"))
      pure []
    | some otherClientID =>
      let payload := otherClientID.val
      if choice = sendTextChoice then do
        let msgContent ← handleSendText rounds otherClientID
        if msgContent = [] then pure []
        else sendContent (payload ++ [UInt8.ofNat sendText]) msgContent
      else if choice = requestSymmetricKeyChoice then
        sendContent (payload ++ [UInt8.ofNat requestSymmetricKey]) []
      else if choice = sendSymmetricKeyChoice then do
        let msgContent ← handleSendSymmetricKey otherClientID
        if msgContent = [] then pure []
        else sendContent (payload ++ [UInt8.ofNat sendSymmetricKey]) msgContent
      else sendContent payload []

/-- `handleMenuChoice`. Assumes: `rounds` for the loops of the action. -/
def handleMenuChoice (rounds choice : ℕ) : Program Bytes :=
  if choice = registerChoice then handleRegister rounds
  else if choice = clientsListChoice then handleClientList
  else if choice = publicKeyChoice then handlePublicKey rounds
  else if choice = waitingMessagesChoice then handleWaitingMessages
  else if choice = sendTextChoice then handleAllMessages rounds sendTextChoice
  else if choice = requestSymmetricKeyChoice then handleAllMessages rounds requestSymmetricKeyChoice
  else if choice = sendSymmetricKeyChoice then handleAllMessages rounds sendSymmetricKeyChoice
  else pure []

/-! ### What is read from the console -/

/-- The name that `getValidUsername` accepts and the lines behind it. -/
def acceptedName : List Bytes → Option (Bytes × List Bytes)
  | [] => none
  | line :: rest =>
    if line = zeroName ∨ isValidUsername line = true then some (line, rest) else acceptedName rest

/-- The text that is typed for a message behind the name of its target: the lines up to the first
empty one, each with a newline. -/
def typedText (console : List Bytes) : Bytes :=
  match acceptedName console with
  | some (_, rest) => (rest.takeWhile (· ≠ [])).flatMap (· ++ [10])
  | none => []

/-- Running a sequence of two programs. -/
theorem exec_bind {α β : Type} (crypto : Crypto) (program : Program α) (next : α → Program β)
    (state : ClientState) :
    Program.exec crypto (program >>= next) state =
      Program.exec crypto (proceed next (program.exec crypto state).2)
        (program.exec crypto state).1 :=
  run_bind _ program next state

/-- Running a program that begins with a call that returns. -/
theorem exec_ask {β : Type} {crypto : Crypto} {call : ClientCall} {state after : ClientState}
    {result : call.Result} (hcall : call.exec crypto state = (after, .ok result))
    (next : call.Result → Program β) :
    Program.exec crypto (ask call >>= next) state = (next result).exec crypto after := by
  rw [exec_bind]
  change Program.exec crypto (proceed next (call.exec crypto state).2)
    (call.exec crypto state).1 = _
  rw [hcall]
  rfl

/-- Running a program that begins with a call that throws. -/
theorem exec_ask_error {β : Type} {crypto : Crypto} {call : ClientCall} {state after : ClientState}
    {exception : CppError} (hcall : call.exec crypto state = (after, .error exception))
    (next : call.Result → Program β) :
    Program.exec crypto (ask call >>= next) state = (after, .error exception) := by
  rw [exec_bind]
  change Program.exec crypto (proceed next (call.exec crypto state).2)
    (call.exec crypto state).1 = _
  rw [hcall]
  rfl

/-- One round of the prompt. -/
theorem acceptedName_eq (console : List Bytes) :
    acceptedName console =
      if console.head?.getD [] = zeroName ∨ isValidUsername (console.head?.getD []) = true then
        some (console.head?.getD [], console.tail)
      else acceptedName console.tail := by
  cases console with
  | nil => rfl
  | cons line rest => rfl

/-- An accepted name has at most 254 bytes. -/
theorem acceptedName_length {console rest : List Bytes} {name : Bytes}
    (h : acceptedName console = some (name, rest)) : name.length ≤ nameSize - 1 := by
  induction console with
  | nil => cases h
  | cons line lines ih =>
    rw [acceptedName] at h
    split_ifs at h with haccepted
    · cases h
      rcases haccepted with rfl | hvalid
      · simp [zeroName]
      · unfold isValidUsername at hvalid
        split_ifs at hvalid with hsize
        simp only [nameSize] at hsize ⊢
        omega
    · exact ih h

/-- An accepted name is not empty and has only ASCII codes. -/
theorem acceptedName_valid {console rest : List Bytes} {name : Bytes}
    (h : acceptedName console = some (name, rest)) : name ≠ [] ∧ ∀ code ∈ name, code < 128 := by
  induction console with
  | nil => cases h
  | cons line lines ih =>
    rw [acceptedName] at h
    split_ifs at h with haccepted
    · cases h
      rcases haccepted with rfl | hvalid
      · exact ⟨by simp [zeroName], by simp [zeroName]⟩
      · unfold isValidUsername at hvalid
        split_ifs at hvalid with hsize
        rw [not_or] at hsize
        refine ⟨hsize.1, fun code hcode ↦ ?_⟩
        have hascii : code ≤ 127 := of_decide_eq_true (List.all_eq_true.mp hvalid code hcode)
        rw [UInt8.le_iff_toNat_le] at hascii
        rw [UInt8.lt_iff_toNat_lt]
        exact Nat.lt_succ_of_le hascii
    · exact ih h

/-- The lines behind an accepted name are no more than there were. -/
theorem acceptedName_rest {console rest : List Bytes} {name : Bytes}
    (h : acceptedName console = some (name, rest)) : rest.length ≤ console.length := by
  induction console with
  | nil => cases h
  | cons line lines ih =>
    rw [acceptedName] at h
    split_ifs at h
    · cases h
      exact Nat.le_succ _
    · exact (ih h).trans (Nat.le_succ _)

/-- One round of `getValidUsername`. -/
theorem exec_getValidUsername_succ (crypto : Crypto) (prompt : String) (rounds : ℕ)
    (state : ClientState) :
    ∃ output, (getValidUsername prompt (rounds + 1)).exec crypto state =
      if state.console.head?.getD [] = zeroName ∨
          isValidUsername (state.console.head?.getD []) = true then
        ({ state with console := state.console.tail, output := output },
          .ok (state.console.head?.getD []))
      else (getValidUsername prompt rounds).exec crypto
        { state with console := state.console.tail, output := output } := by
  have hround : (getValidUsername prompt (rounds + 1)).exec crypto state =
      Program.exec crypto
        (if state.console.head?.getD [] = zeroName then do
          ask (.print (.text "Name cannot be 0.\n"))
          pure zeroName
        else if !isValidUsername (state.console.head?.getD []) then do
          ask (.print (.text "Name must be ASCII only and up to 254 characters.\n"))
          getValidUsername prompt rounds
        else pure (state.console.head?.getD []))
        { state with console := state.console.tail, output := state.output ++ [.text prompt] } :=
          rfl
  by_cases hzero : state.console.head?.getD [] = zeroName
  · refine ⟨state.output ++ [.text prompt] ++ [.text "Name cannot be 0.\n"], ?_⟩
    rw [hround, if_pos hzero, if_pos (.inl hzero), hzero]
    rfl
  · by_cases hvalid : isValidUsername (state.console.head?.getD []) = true
    · have haccepted : state.console.head?.getD [] = zeroName ∨
          isValidUsername (state.console.head?.getD []) = true := .inr hvalid
      refine ⟨state.output ++ [.text prompt], ?_⟩
      rw [hround, if_neg hzero, if_neg (by simpa using hvalid), if_pos haccepted]
      rfl
    · refine ⟨state.output ++ [.text prompt] ++
        [.text "Name must be ASCII only and up to 254 characters.\n"], ?_⟩
      rw [hround, if_neg hzero, if_pos (by simpa using hvalid),
        if_neg fun h ↦ h.elim hzero hvalid]
      rfl

/-- `getValidUsername` goes on forever when the console has ended. -/
theorem exec_getValidUsername_nil (crypto : Crypto) (prompt : String) (rounds : ℕ)
    (state : ClientState) (hconsole : state.console = []) :
    ∃ output, (getValidUsername prompt rounds).exec crypto state =
      ({ state with output := output }, .error .outOfFuel) := by
  induction rounds generalizing state with
  | zero => exact ⟨state.output, rfl⟩
  | succ rounds ih =>
    obtain ⟨output, hround⟩ := exec_getValidUsername_succ crypto prompt rounds state
    rw [hconsole, if_neg (by decide)] at hround
    obtain ⟨final, hrest⟩ := ih { state with console := [], output := output } rfl
    exact ⟨final, by rw [hround, List.tail_nil, hrest, hconsole]⟩

/-- `getValidUsername` returns the name that is accepted, or does not return when there is none.
Assumes: more rounds than lines. -/
theorem exec_getValidUsername (crypto : Crypto) (prompt : String) (rounds : ℕ) (state : ClientState)
    (hrounds : state.console.length < rounds) :
    ∃ output, (getValidUsername prompt rounds).exec crypto state =
      match acceptedName state.console with
      | some (name, rest) => ({ state with console := rest, output := output }, .ok name)
      | none => ({ state with console := [], output := output }, .error .outOfFuel) := by
  induction rounds generalizing state with
  | zero => exact absurd hrounds (Nat.not_lt_zero _)
  | succ rounds ih =>
    cases hconsole : state.console with
    | nil =>
      obtain ⟨output, hend⟩ := exec_getValidUsername_nil crypto prompt (rounds + 1) state hconsole
      exact ⟨output, by rw [hend, acceptedName, hconsole]⟩
    | cons line rest =>
      obtain ⟨output, hround⟩ := exec_getValidUsername_succ crypto prompt rounds state
      rw [hconsole] at hround hrounds
      rw [acceptedName]
      split_ifs with haccepted
      · exact ⟨output, hround.trans (if_pos haccepted)⟩
      · obtain ⟨final, hrest⟩ := ih { state with console := rest, output := output }
          (Nat.lt_of_succ_lt_succ hrounds)
        exact ⟨final, (hround.trans (if_neg haccepted)).trans hrest⟩

/-- `handleSendText` collects the lines up to the first empty one. Assumes: more rounds than
lines. -/
theorem exec_readMessage (crypto : Crypto) (rounds : ℕ) (msg : Bytes) (state : ClientState)
    (hrounds : state.console.length < rounds) :
    (readMessage rounds msg).exec crypto state =
      ({ state with console := (state.console.dropWhile (· ≠ [])).tail },
        .ok (msg ++ (state.console.takeWhile (· ≠ [])).flatMap (· ++ [10]))) := by
  induction rounds generalizing msg state with
  | zero => exact absurd hrounds (Nat.not_lt_zero _)
  | succ rounds ih =>
    cases hconsole : state.console with
    | nil =>
      change Program.exec crypto (match state.console.head? with
        | none => pure msg
        | some line => if line = [] then pure msg else readMessage rounds (msg ++ line ++ [10]))
          { state with console := state.console.tail } = _
      rw [hconsole]
      simp
      rfl
    | cons line rest =>
      change Program.exec crypto (match state.console.head? with
        | none => pure msg
        | some line => if line = [] then pure msg else readMessage rounds (msg ++ line ++ [10]))
          { state with console := state.console.tail } = _
      rw [hconsole] at hrounds
      have hrest := ih (msg ++ line ++ [10]) { state with console := rest }
        (Nat.lt_of_succ_lt_succ hrounds)
      rw [hconsole]
      by_cases hline : line = []
      · subst hline
        simp
        rfl
      · rw [List.takeWhile_cons_of_pos (by simpa using hline),
          List.dropWhile_cons_of_pos (by simpa using hline), List.flatMap_cons, ← List.append_assoc,
          ← List.append_assoc]
        change Program.exec crypto (if line = [] then pure msg else _) _ = _
        rw [if_neg hline]
        exact hrest

/-! ### What an action can do -/

/-- `createBuffer` is the layout that the server reads. -/
theorem createBuffer_eq (clientID : ClientId) (code : ℕ) (payload : Bytes) :
    createBuffer clientID code payload = Server.requestFrame clientID.val code payload := by
  simp only [createBuffer, appendUint16LE, appendUint32LE, Server.requestFrame, List.append_assoc]
  rfl

/-- The name field of a name of at most 254 bytes ends in zeros. -/
theorem nameField_eq {name : Bytes} (hname : name.length ≤ nameSize - 1) :
    nameField name = name ++ List.replicate (nameSize - name.length) 0 := by
  have hcopied : min name.length (nameSize - 1) = name.length := min_eq_left hname
  obtain ⟨zeros, hzeros⟩ : ∃ zeros, nameSize - name.length = zeros + 1 :=
    Nat.exists_eq_succ_of_ne_zero (by simp only [nameSize] at hname ⊢; omega)
  simp only [nameField, hcopied, List.take_length]
  rw [hzeros, List.replicate_succ, List.set_append_right _ _ le_rfl, Nat.sub_self,
    List.set_cons_zero]

/-- The client that the name typed at the prompt of an action leads to. -/
def typedTarget (state : ClientState) : Option ClientId :=
  match acceptedName state.console with
  | some (name, _) => if name = zeroName then none else state.ctx.tryGetFriendIdByName name
  | none => none

/-- The choices whose actions prompt for a name. -/
def promptingChoices : List ℕ :=
  [registerChoice, publicKeyChoice, sendTextChoice, requestSymmetricKeyChoice,
    sendSymmetricKeyChoice]

/-- What an action that begins in a state does: the context it leaves, and its outcome. -/
inductive Acted (crypto : Crypto) (before : ClientState) (choice : ℕ) :
    ClientContext → Except CppError Bytes → Prop
  /-- There is nothing to send. A request that needs only a target is sent if there is one. -/
  | cancelled (htarget : choice ∈ [publicKeyChoice, requestSymmetricKeyChoice] →
      typedTarget before = none) : Acted crypto before choice before.ctx (.ok [])
  /-- The console ends before a name is accepted. -/
  | endless (hprompt : choice ∈ promptingChoices) (hname : acceptedName before.console = none) :
    Acted crypto before choice before.ctx (.error .outOfFuel)
  /-- A registration with a fresh private key. -/
  | registering (name : Bytes) (rest : List Bytes) (hchoice : choice = registerChoice)
    (hunregistered : before.ctx.hasClientID = false)
    (hname : acceptedName before.console = some (name, rest)) :
    Acted crypto before choice
      { before.ctx with
        userName := name
        privateKey := crypto.generatePrivateKey before.entropy.rsaSeed }
      (.ok (Server.requestFrame before.ctx.clientID.val requestRegister
        (Server.registrationPayload name
          (crypto.publicKeyOf (crypto.generatePrivateKey before.entropy.rsaSeed)).val)))
  /-- A request for the client list or the waiting messages. -/
  | asking (code : ℕ) (hchoice : (choice, code) ∈
      [(clientsListChoice, requestClientsList), (waitingMessagesChoice, requestWaitingMessages)]) :
    Acted crypto before choice before.ctx
      (.ok (Server.requestFrame before.ctx.clientID.val code []))
  /-- A request for the public key of a target. -/
  | askingKey (target : ClientId) (hchoice : choice = publicKeyChoice)
    (htarget : typedTarget before = some target) :
    Acted crypto before choice before.ctx
      (.ok (Server.requestFrame before.ctx.clientID.val requestPublicKey target.val))
  /-- A message that requests a symmetric key. -/
  | requestingKey (target : ClientId) (hchoice : choice = requestSymmetricKeyChoice)
    (htarget : typedTarget before = some target) :
    Acted crypto before choice before.ctx
      (.ok (Server.requestFrame before.ctx.clientID.val requestAllMessages
        (Server.messagePayload target.val requestSymmetricKey [])))
  /-- A text under the key that is held for its target. -/
  | sendingText (target : ClientId) (key : FixedBytes symmetricKeySize)
    (hchoice : choice = sendTextChoice) (htarget : typedTarget before = some target)
    (hkey : before.ctx.symmetricKeyFor target = some key) :
    Acted crypto before choice before.ctx
      (.ok (Server.requestFrame before.ctx.clientID.val requestAllMessages
        (Server.messagePayload target.val sendText (crypto.aesEncrypt key
          ((typedText before.console).take ((typedText before.console).length % 2 ^ 32))))))
  /-- A fresh key for a target, encrypted under the public key that is cached for it. -/
  | sendingKey (target : ClientId) (publicKey : FixedBytes publicKeySize) (cipher : Bytes)
    (hchoice : choice = sendSymmetricKeyChoice) (htarget : typedTarget before = some target)
    (hkey : before.ctx.publicKeyFor target = some publicKey)
    (hcipher : crypto.rsaEncrypt publicKey before.entropy.rsaSeed before.entropy.aesKey.val =
      .ok cipher) (hnonempty : cipher ≠ []) :
    Acted crypto before choice (before.ctx.setFriendSymmetricKey target before.entropy.aesKey)
      (.ok (Server.requestFrame before.ctx.clientID.val requestAllMessages
        (Server.messagePayload target.val sendSymmetricKey cipher)))
  /-- A fresh key for a target, whose cipher is empty and therefore not sent. -/
  | dropped (target : ClientId) (publicKey : FixedBytes publicKeySize)
    (hchoice : choice = sendSymmetricKeyChoice) (htarget : typedTarget before = some target)
    (hkey : before.ctx.publicKeyFor target = some publicKey)
    (hcipher : crypto.rsaEncrypt publicKey before.entropy.rsaSeed before.entropy.aesKey.val =
      .ok []) :
    Acted crypto before choice (before.ctx.setFriendSymmetricKey target before.entropy.aesKey)
      (.ok [])
  /-- A fresh key for a target, and an exception, since the cached public key cannot be loaded or
  used. -/
  | failing (target : ClientId) (publicKey : FixedBytes publicKeySize) (exception : CppError)
    (hchoice : choice = sendSymmetricKeyChoice) (htarget : typedTarget before = some target)
    (hkey : before.ctx.publicKeyFor target = some publicKey)
    (hfail : crypto.loadsPublicKey publicKey = false ∨
      crypto.rsaEncrypt publicKey before.entropy.rsaSeed before.entropy.aesKey.val =
        .error exception) :
    Acted crypto before choice (before.ctx.setFriendSymmetricKey target before.entropy.aesKey)
      (.error exception)

section Actions

variable {crypto : Crypto} {state : ClientState} {choice rounds : ℕ}

/-- What follows `getValidUsername` runs on an accepted name; without one there is nothing to send.
Assumes: an action that prompts, and more rounds than lines. -/
theorem acted_of_name {prompt : String} {next : Bytes → Program Bytes}
    (hprompt : choice ∈ promptingChoices) (hrounds : state.console.length < rounds)
    (hnext : ∀ name rest output, acceptedName state.console = some (name, rest) →
      Acted crypto state choice
        ((next name).exec crypto { state with console := rest, output := output }).1.ctx
        ((next name).exec crypto { state with console := rest, output := output }).2) :
    Acted crypto state choice
      (Program.exec crypto (getValidUsername prompt rounds >>= next) state).1.ctx
      (Program.exec crypto (getValidUsername prompt rounds >>= next) state).2 := by
  obtain ⟨output, hname⟩ := exec_getValidUsername crypto prompt rounds state hrounds
  rw [exec_bind, hname]
  cases haccepted : acceptedName state.console with
  | none => exact .endless hprompt haccepted
  | some accepted => exact hnext accepted.1 accepted.2 output haccepted

theorem handleRegister_acted (hrounds : state.console.length < rounds) :
    Acted crypto state registerChoice ((handleRegister rounds).exec crypto state).1.ctx
      ((handleRegister rounds).exec crypto state).2 := by
  cases hid : state.ctx.hasClientID with
  | true =>
    have hexec : (handleRegister rounds).exec crypto state =
        Program.exec crypto (if state.ctx.hasClientID then do
          ask (.print (.text "You are already logged in.\n"))
          pure []
        else _) state := rfl
    rw [hexec, hid]
    exact .cancelled (by simp)
  | false =>
    have hexec : (handleRegister rounds).exec crypto state =
        Program.exec crypto (if state.ctx.hasClientID then _
        else getValidUsername "Please enter your username: " rounds >>= fun name ↦ do
          ask (.setName name)
          let privateKeyRaw ← ask .generatePrivateKey
          ask (.setPrivateKey privateKeyRaw)
          let publicKey ← ask (.publicKeyOf privateKeyRaw)
          let id ← ask .getClientID
          pure (createBuffer id requestRegister (nameField name ++ publicKey.val))) state := rfl
    rw [hexec, hid]
    refine acted_of_name (by simp [promptingChoices]) hrounds fun name rest output haccepted ↦ ?_
    have hacted : Acted crypto state registerChoice _ _ :=
      .registering name rest rfl hid haccepted
    rw [Server.registrationPayload, ← nameField_eq (acceptedName_length haccepted),
      ← createBuffer_eq] at hacted
    exact hacted

/-- The target that an accepted name leads to. -/
theorem typedTarget_eq {name : Bytes} {rest : List Bytes}
    (haccepted : acceptedName state.console = some (name, rest)) :
    typedTarget state = if name = zeroName then none else state.ctx.tryGetFriendIdByName name := by
  rw [typedTarget, haccepted]

theorem handlePublicKey_acted (hrounds : state.console.length < rounds) :
    Acted crypto state publicKeyChoice ((handlePublicKey rounds).exec crypto state).1.ctx
      ((handlePublicKey rounds).exec crypto state).2 := by
  refine acted_of_name (by simp [promptingChoices]) hrounds fun name rest output haccepted ↦ ?_
  have htyped := typedTarget_eq haccepted
  by_cases hzero : name = zeroName
  · rw [if_pos hzero] at htyped ⊢
    exact .cancelled fun _ ↦ htyped
  · rw [if_neg hzero] at htyped ⊢
    rw [exec_ask rfl]
    cases hfound : state.ctx.tryGetFriendIdByName name with
    | none => exact .cancelled fun _ ↦ htyped.trans hfound
    | some target =>
      have hacted : Acted crypto state publicKeyChoice _ _ :=
        .askingKey target rfl (htyped.trans hfound)
      rw [← createBuffer_eq] at hacted
      exact hacted

/-- `handleSendText` leaves the context and returns nothing or the text that was typed, encrypted
under the key that is held for the target. Assumes: more rounds than lines. -/
theorem exec_handleSendText (target : ClientId) (hrounds : state.console.length < rounds) :
    ∃ after content, (handleSendText rounds target).exec crypto state = (after, .ok content) ∧
      after.ctx = state.ctx ∧ (content = [] ∨ ∃ key, state.ctx.symmetricKeyFor target = some key ∧
        content = crypto.aesEncrypt key
          (((state.console.takeWhile (· ≠ [])).flatMap (· ++ [10])).take
            (((state.console.takeWhile (· ≠ [])).flatMap (· ++ [10])).length % 2 ^ 32))) := by
  let msg := (state.console.takeWhile (· ≠ [])).flatMap (· ++ [10])
  have hread := exec_readMessage crypto rounds []
    { state with output := state.output ++ [.text "Enter your message (empty line to finish):\n"] }
    hrounds
  rw [handleSendText, exec_ask rfl, exec_bind, hread]
  change ∃ after content, Program.exec crypto (if msg = [] then _ else _) _ = _ ∧ _
  by_cases hmsg : msg = []
  · rw [if_pos hmsg]
    exact ⟨_, [], rfl, rfl, .inl rfl⟩
  · rw [if_neg hmsg, exec_ask rfl]
    rw [ClientContext.symmetricKeyFor]
    cases state.ctx.tryGetFriendCopy target with
    | none => exact ⟨_, [], rfl, rfl, .inl rfl⟩
    | some entry =>
      change ∃ after content, Program.exec crypto (match entry.symmetricKey with
        | none => _
        | some key16 => _) _ = _ ∧ _
      rw [Option.bind_some]
      cases entry.symmetricKey with
      | none => exact ⟨_, [], rfl, rfl, .inl rfl⟩
      | some key => exact ⟨_, _, rfl, rfl, .inr ⟨key, rfl, rfl⟩⟩

/-- The request that `sendContent` ends in. -/
theorem exec_sendContent (target : ClientId) (type : ℕ) (content : Bytes) :
    (sendContent (target.val ++ [UInt8.ofNat type]) content).exec crypto state =
      (state, .ok (Server.requestFrame state.ctx.clientID.val requestAllMessages
        (Server.messagePayload target.val type content))) := by
  have hpayload : appendUint32LE (target.val ++ [UInt8.ofNat type]) content.length ++ content =
      Server.messagePayload target.val type content := by
    rw [appendUint32LE, List.append_assoc, List.append_assoc]
    rfl
  rw [← hpayload, ← createBuffer_eq]
  rfl

/-- `handleSendSymmetricKey` sets the key before anything can go wrong. -/
theorem exec_handleSendSymmetricKey (target : ClientId) :
    (∃ output, state.ctx.publicKeyFor target = none ∧
        (handleSendSymmetricKey target).exec crypto state =
          ({ state with output := output }, .ok [])) ∨
      ∃ publicKey outcome, state.ctx.publicKeyFor target = some publicKey ∧
        (handleSendSymmetricKey target).exec crypto state =
          ({ state with ctx := state.ctx.setFriendSymmetricKey target state.entropy.aesKey },
            outcome) ∧
        ((crypto.loadsPublicKey publicKey = false ∧ outcome = .error .cryptoError) ∨
          outcome =
            crypto.rsaEncrypt publicKey state.entropy.rsaSeed state.entropy.aesKey.val) := by
  rw [handleSendSymmetricKey, exec_ask rfl, ClientContext.publicKeyFor]
  cases hkey : (state.ctx.tryGetFriendCopy target).bind Friend.publicKey with
  | none => exact .inl ⟨_, rfl, rfl⟩
  | some publicKey =>
    let keyed : ClientState :=
      { state with ctx := state.ctx.setFriendSymmetricKey target state.entropy.aesKey }
    let encrypted := crypto.rsaEncrypt publicKey state.entropy.rsaSeed state.entropy.aesKey.val
    dsimp only
    rw [exec_ask rfl, exec_ask rfl]
    cases hloads : crypto.loadsPublicKey publicKey with
    | false =>
      refine .inr ⟨publicKey, .error .cryptoError, rfl, ?_, .inl ⟨hloads, rfl⟩⟩
      have hload : Program.exec crypto (ask (.loadPublicKey publicKey)) keyed =
          (keyed, if crypto.loadsPublicKey publicKey then .ok () else .error .cryptoError) := rfl
      rw [exec_bind]
      change Program.exec crypto (proceed _ (Program.exec crypto _ keyed).2)
        (Program.exec crypto _ keyed).1 = _
      rw [hload, hloads]
      rfl
    | true =>
      refine .inr ⟨publicKey, encrypted, rfl, ?_, .inr rfl⟩
      have hload : ClientCall.exec crypto keyed (.loadPublicKey publicKey) = (keyed, .ok ()) := by
        rw [ClientCall.exec, hloads]
        rfl
      change Program.exec crypto (ask (.loadPublicKey publicKey) >>= _) keyed = _
      rw [exec_ask hload]
      rfl

/-- What follows `handleSendSymmetricKey` in `handleAllMessages`. -/
theorem sendKey_acted {target : ClientId} (htarget : typedTarget state = some target)
    (console : List Bytes) (output : List Output) :
    let start := { state with console := console, output := output }
    let program := handleSendSymmetricKey target >>= fun content ↦
      if content = [] then pure []
      else sendContent (target.val ++ [UInt8.ofNat sendSymmetricKey]) content
    Acted crypto state sendSymmetricKeyChoice (Program.exec crypto program start).1.ctx
      (Program.exec crypto program start).2 := by
  intro start program
  have hsend : (∃ printed, _ ∧ (handleSendSymmetricKey target).exec crypto start = _) ∨ _ :=
    exec_handleSendSymmetricKey target
  rcases hsend with
    ⟨printed, -, hexec⟩ | ⟨publicKey, outcome, hkey, hexec, hfailed | houtcome⟩
  · rw [exec_bind, hexec]
    exact .cancelled (by simp)
  · rw [exec_bind, hexec, hfailed.2]
    exact .failing target publicKey _ rfl htarget hkey (.inl hfailed.1)
  · rw [exec_bind, hexec]
    cases outcome with
    | error exception =>
      exact .failing target publicKey exception rfl htarget hkey (.inr houtcome.symm)
    | ok cipher =>
      rw [proceed_ok]
      split_ifs with hempty
      · rw [hempty] at houtcome
        exact .dropped target publicKey rfl htarget hkey houtcome.symm
      · rw [exec_sendContent]
        exact .sendingKey target publicKey cipher rfl htarget hkey houtcome.symm hempty

theorem handleAllMessages_acted (hrounds : state.console.length < rounds)
    (hchoice : choice ∈ [sendTextChoice, requestSymmetricKeyChoice, sendSymmetricKeyChoice]) :
    Acted crypto state choice ((handleAllMessages rounds choice).exec crypto state).1.ctx
      ((handleAllMessages rounds choice).exec crypto state).2 := by
  have hprompt : choice ∈ promptingChoices :=
    List.mem_cons_of_mem _ (List.mem_cons_of_mem _ hchoice)
  refine acted_of_name hprompt hrounds fun name rest output haccepted ↦ ?_
  have htyped := typedTarget_eq haccepted
  by_cases hzero : name = zeroName
  · rw [if_pos hzero] at htyped ⊢
    exact .cancelled fun _ ↦ htyped
  rw [if_neg hzero] at htyped ⊢
  rw [exec_ask rfl]
  cases hfound : state.ctx.tryGetFriendIdByName name with
  | none => exact .cancelled fun _ ↦ htyped.trans hfound
  | some target =>
    have htarget : typedTarget state = some target := htyped.trans hfound
    simp only [List.mem_cons, List.not_mem_nil, or_false] at hchoice
    rcases hchoice with rfl | rfl | rfl
    · have htext : typedText state.console = (rest.takeWhile (· ≠ [])).flatMap (· ++ [10]) := by
        rw [typedText, haccepted]
      have hlines :
          ({ state with console := rest, output := output } : ClientState).console.length <
          rounds := (acceptedName_rest haccepted).trans_lt hrounds
      obtain ⟨after, content, hsend, hctx, hcontent⟩ :=
        exec_handleSendText target hlines
      dsimp only
      rw [if_pos rfl, exec_bind, hsend, proceed_ok]
      split_ifs with hempty
      · change Acted _ _ _ after.ctx (.ok [])
        rw [hctx]
        exact .cancelled (by simp)
      · obtain ⟨key, hkey, hcipher⟩ := hcontent.resolve_left hempty
        rw [exec_sendContent, hctx, hcipher]
        dsimp only
        rw [← htext]
        exact .sendingText target key rfl htarget hkey
    · dsimp only
      rw [if_neg (by simp), if_pos rfl, exec_sendContent]
      exact .requestingKey target rfl htarget
    · dsimp only
      rw [if_neg (by simp), if_neg (by simp), if_pos rfl]
      exact sendKey_acted htarget rest output

/-- An action does one of the things that are listed. Assumes: more rounds than lines. -/
theorem handleMenuChoice_acted (crypto : Crypto) (state : ClientState) (rounds choice : ℕ)
    (hrounds : state.console.length < rounds) :
    Acted crypto state choice ((handleMenuChoice rounds choice).exec crypto state).1.ctx
      ((handleMenuChoice rounds choice).exec crypto state).2 := by
  unfold handleMenuChoice
  split_ifs with hregister hlist hkey hwaiting htext hrequest hsend
  · subst hregister
    exact handleRegister_acted hrounds
  · have hacted : Acted crypto state choice _ _ := .asking requestClientsList (by simp [hlist])
    rw [← createBuffer_eq] at hacted
    exact hacted
  · subst hkey
    exact handlePublicKey_acted hrounds
  · have hacted : Acted crypto state choice _ _ :=
      .asking requestWaitingMessages (by simp [hwaiting])
    rw [← createBuffer_eq] at hacted
    exact hacted
  · subst htext
    exact handleAllMessages_acted hrounds (by simp)
  · subst hrequest
    exact handleAllMessages_acted hrounds (by simp)
  · subst hsend
    exact handleAllMessages_acted hrounds (by simp)
  · exact .cancelled fun h ↦ by simp_all

end Actions

end MessageU.Client
