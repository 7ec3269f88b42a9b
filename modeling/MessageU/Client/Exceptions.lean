import MessageU.Client.Main
import MessageU.Client.Replies

/-!
# The exceptions of the client

Which functions of the client return when their surroundings do their part. `Answers` says what this
is: a call returns, except that a decryption may throw. The functions are run over what they look
at, the lines of the console and whether the client has an ID (`Desk`), while everything else may
answer anything.

An action returns when its prompt gets a name (`sure_handleMenuChoice`), and so does the processing
of the answers of the server. Whatever a record holds, it is processed without an exception
(`sure_handleRecord`). Only the answer to a message, which looks for its target in the cache, is not
among them.
-/

set_option autoImplicit false
set_option relaxedAutoImplicit false

namespace MessageU.Client

open Library Interaction

/-! ### Surroundings that do their part -/

/-- What the functions of the client look at. -/
structure Desk where
  registered : Bool
  console : List Bytes

/-- What a call answers when the surroundings do their part: keys are loaded, encryption works and
the directory of the file is found. Decryption may throw. -/
def Answers (desk : Desk) : (call : ClientCall) → Except CppError call.Result → Desk → Prop
  | .getline, answer, after =>
    answer = .ok desk.console.head? ∧ after = { desk with console := desk.console.tail }
  | .hasClientID, answer, after => answer = .ok desk.registered ∧ after = desk
  | .setClientID _, answer, after => answer = .ok () ∧ after.console = desk.console
  | .rsaDecrypt .., _, after | .aesDecrypt .., _, after => after = desk
  | _, answer, after => (∃ value, answer = .ok value) ∧ after = desk

/-- A call that returns and changes nothing. -/
def ClientCall.Steady : ClientCall → Prop
  | .getline | .setClientID _ | .rsaDecrypt .. | .aesDecrypt .. => False
  | _ => True

theorem answers_steady {desk after : Desk} {call : ClientCall}
    {answer : Except CppError call.Result}
    (hcall : call.Steady) (h : Answers desk call answer after) :
    (∃ value, answer = .ok value) ∧ after = desk := by
  cases call <;> first | exact h | exact hcall.elim | exact ⟨⟨_, h.1⟩, h.2⟩

/-- A function that returns. -/
def Sure {α : Type} (program : Program α) (desk : Desk) : Prop :=
  program.Ensures Answers (fun outcome _ ↦ ∃ value, outcome = .ok value ∧ True) desk

section Rules

variable {α β : Type} {desk : Desk} {post : Except CppError β → Desk → Prop}

/-- A steady call and what follows it. -/
theorem ensures_steady {call : ClientCall} {next : call.Result → Program β} (hcall : call.Steady)
    (h : ∀ value, (next value).Ensures Answers post desk) :
    (ask call >>= next).Ensures Answers post desk := by
  intro answer after hanswer
  obtain ⟨⟨value, rfl⟩, rfl⟩ := answers_steady hcall hanswer
  exact h value

theorem sure_pure (value : α) : Sure (pure value) desk :=
  ⟨value, rfl, trivial⟩

theorem sure_call {call : ClientCall} (hcall : call.Steady) : Sure (ask call) desk := by
  intro answer after hanswer
  obtain ⟨⟨value, rfl⟩, -⟩ := answers_steady hcall hanswer
  exact ⟨value, rfl, trivial⟩

theorem Sure.bind {program : Program α} {next : α → Program β} (h : Sure program desk)
    (hnext : ∀ value after, (next value).Ensures Answers post after) :
    (program >>= next).Ensures Answers post desk :=
  Ensures.bind h fun value after _ ↦ hnext value after

/-- A function whose exceptions are handled. -/
theorem sure_rescue {program : Program α} {handler : CppError → Program α}
    (hhandler : ∀ exception after, Sure (handler exception) after) :
    Sure (Interaction.rescue program handler) desk := by
  refine (ensures_true program desk).attempt fun outcome after _ ↦ ?_
  cases outcome with
  | ok value => exact sure_pure value
  | error exception => exact hhandler exception after

end Rules

/-! ### The actions -/

section Actions

variable {desk : Desk} {rounds : ℕ}

/-- The prompt returns the accepted name. Assumes: more rounds than lines. -/
theorem ensures_getValidUsername (prompt : String) {name : Bytes} {rest : List Bytes}
    (hname : acceptedName desk.console = some (name, rest))
    (hrounds : desk.console.length < rounds) :
    (getValidUsername prompt rounds).Ensures Answers
      (fun outcome after ↦ ∃ value, outcome = .ok value ∧ after.console = rest) desk := by
  induction rounds generalizing desk with
  | zero => exact absurd hrounds (Nat.not_lt_zero _)
  | succ rounds ih =>
    refine ensures_steady trivial fun _ ↦ ?_
    rintro answer after ⟨rfl, rfl⟩
    rw [acceptedName_eq] at hname
    show Ensures _ _ (if desk.console.head?.getD [] = zeroName then _ else _) _
    split_ifs with hzero hvalid
    · rw [if_pos (.inl hzero)] at hname
      refine ensures_steady trivial fun _ ↦ ⟨zeroName, rfl, ?_⟩
      exact congrArg Prod.snd (Option.some.inj hname)
    · rw [if_neg (not_or.mpr ⟨hzero, by simpa using hvalid⟩)] at hname
      refine ensures_steady trivial fun _ ↦ ih hname ?_
      show desk.console.tail.length < rounds
      cases hconsole : desk.console with
      | nil => simp [hconsole, acceptedName] at hname
      | cons line lines =>
        rw [hconsole] at hrounds
        exact Nat.lt_of_succ_lt_succ hrounds
    · rw [if_pos (.inr (by simpa using hvalid))] at hname
      exact ⟨_, rfl, congrArg Prod.snd (Option.some.inj hname)⟩

/-- The loop over the lines of a message returns. Assumes: more rounds than lines. -/
theorem sure_readMessage (msg : Bytes) (hrounds : desk.console.length < rounds) :
    Sure (readMessage rounds msg) desk := by
  induction rounds generalizing msg desk with
  | zero => exact absurd hrounds (Nat.not_lt_zero _)
  | succ rounds ih =>
    rintro answer after ⟨rfl, rfl⟩
    cases hconsole : desk.console with
    | nil => exact sure_pure msg
    | cons line lines =>
      rw [hconsole] at hrounds
      show Sure (if line = [] then pure msg else readMessage rounds (msg ++ line ++ [10])) _
      split_ifs
      · exact sure_pure msg
      · exact ih _ (Nat.lt_of_succ_lt_succ hrounds)

/-- What follows a prompt that gets a name. Assumes: more rounds than lines. -/
theorem sure_of_name {prompt : String} {next : Bytes → Program Bytes}
    (hname : (acceptedName desk.console).isSome) (hrounds : desk.console.length < rounds)
    (hnext : ∀ name after, after.console.length < rounds → Sure (next name) after) :
    Sure (getValidUsername prompt rounds >>= next) desk := by
  obtain ⟨⟨name, rest⟩, haccepted⟩ := Option.isSome_iff_exists.mp hname
  refine Ensures.bind (ensures_getValidUsername prompt haccepted hrounds)
    fun value after hafter ↦ ?_
  refine hnext value after ?_
  rw [hafter]
  exact (acceptedName_rest haccepted).trans_lt hrounds

theorem sure_handleRegister (hname : desk.registered = false → (acceptedName desk.console).isSome)
    (hrounds : desk.console.length < rounds) : Sure (handleRegister rounds) desk := by
  rintro answer after ⟨rfl, hafter⟩
  rw [hafter]
  show Sure (if desk.registered = true then _ else _) desk
  split_ifs with hregistered
  · exact ensures_steady trivial fun _ ↦ sure_pure _
  · rw [Bool.not_eq_true] at hregistered
    refine sure_of_name (hname hregistered) hrounds fun name after _ ↦ ?_
    refine ensures_steady trivial fun _ ↦ ensures_steady trivial fun privateKey ↦ ?_
    refine ensures_steady trivial fun _ ↦ ensures_steady trivial fun publicKey ↦ ?_
    exact ensures_steady trivial fun id ↦ sure_pure _

theorem sure_handlePublicKey (hname : (acceptedName desk.console).isSome)
    (hrounds : desk.console.length < rounds) : Sure (handlePublicKey rounds) desk := by
  refine sure_of_name hname hrounds fun name after _ ↦ ?_
  split_ifs
  · exact sure_pure _
  · refine ensures_steady trivial fun found ↦ ?_
    cases found with
    | none => exact ensures_steady trivial fun _ ↦ sure_pure _
    | some target => exact ensures_steady trivial fun id ↦ sure_pure _

theorem sure_sendContent (payload content : Bytes) : Sure (sendContent payload content) desk :=
  ensures_steady trivial fun _ ↦ sure_pure _

theorem sure_handleSendText (target : ClientId) (hrounds : desk.console.length < rounds) :
    Sure (handleSendText rounds target) desk := by
  refine ensures_steady trivial fun _ ↦ (sure_readMessage [] hrounds).bind fun msg after ↦ ?_
  split_ifs
  · exact ensures_steady trivial fun _ ↦ sure_pure _
  · refine ensures_steady trivial fun entry ↦ ?_
    cases entry with
    | none => exact ensures_steady trivial fun _ ↦ sure_pure _
    | some entry =>
      dsimp only
      cases entry.symmetricKey with
      | none => exact ensures_steady trivial fun _ ↦ sure_pure _
      | some key => exact sure_call trivial

theorem sure_handleSendSymmetricKey (target : ClientId) :
    Sure (handleSendSymmetricKey target) desk := by
  refine ensures_steady trivial fun entry ↦ ?_
  cases entry.bind Friend.publicKey with
  | none => exact ensures_steady trivial fun _ ↦ sure_pure _
  | some publicKey =>
    refine ensures_steady trivial fun symKey ↦ ensures_steady trivial fun _ ↦ ?_
    exact ensures_steady trivial fun _ ↦ sure_call trivial

theorem sure_handleAllMessages {choice : ℕ} (hname : (acceptedName desk.console).isSome)
    (hrounds : desk.console.length < rounds) : Sure (handleAllMessages rounds choice) desk := by
  have hcontent : ∀ payload content (after : Desk), Sure (if content = [] then pure []
      else sendContent payload content) after := by
    intro payload content after
    split_ifs
    · exact sure_pure _
    · exact sure_sendContent payload content
  refine sure_of_name hname hrounds fun name after hlines ↦ ?_
  by_cases hzero : name = zeroName
  · rw [if_pos hzero]
    exact sure_pure _
  rw [if_neg hzero]
  refine ensures_steady trivial fun found ↦ ?_
  cases found with
  | none => exact ensures_steady trivial fun _ ↦ sure_pure _
  | some target =>
    dsimp only
    split_ifs
    · exact (sure_handleSendText target hlines).bind fun content after ↦ hcontent _ content after
    · exact sure_sendContent _ _
    · exact (sure_handleSendSymmetricKey target).bind fun content after ↦ hcontent _ content after
    · exact sure_sendContent _ _

/-- An action that prompts gets a name. A client that has an ID is not asked for one by a
registration. -/
def Desk.Prompted (desk : Desk) (choice : ℕ) : Prop :=
  choice ∈ promptingChoices → (choice = registerChoice → desk.registered = false) →
    (acceptedName desk.console).isSome

/-- An action returns. Assumes: its prompt gets a name, and more rounds than lines. -/
theorem sure_handleMenuChoice {choice : ℕ} (hprompted : desk.Prompted choice)
    (hrounds : desk.console.length < rounds) : Sure (handleMenuChoice rounds choice) desk := by
  have hname : choice ∈ promptingChoices → choice ≠ registerChoice →
      (acceptedName desk.console).isSome := fun hprompt hother ↦
    hprompted hprompt fun hregister ↦ absurd hregister hother
  unfold handleMenuChoice
  split_ifs with hregister hlist hkey hwaiting htext hrequest hsend
  · exact sure_handleRegister
      (fun hunregistered ↦ hprompted (by simp [hregister, promptingChoices]) fun _ ↦ hunregistered)
      hrounds
  · exact ensures_steady trivial fun _ ↦ sure_pure _
  · exact sure_handlePublicKey (hname (by simp [hkey, promptingChoices]) hregister) hrounds
  · exact ensures_steady trivial fun _ ↦ sure_pure _
  · exact sure_handleAllMessages (hname (by simp [htext, promptingChoices]) hregister) hrounds
  · exact sure_handleAllMessages (hname (by simp [hrequest, promptingChoices]) hregister) hrounds
  · exact sure_handleAllMessages (hname (by simp [hsend, promptingChoices]) hregister) hrounds
  · exact sure_pure _

end Actions

/-! ### The answers of the server -/

section Replies

variable {desk : Desk}

theorem sure_saveMyInfo : Sure saveMyInfo desk := by
  refine ensures_steady trivial fun registered ↦ ensures_steady trivial fun name ↦ ?_
  refine ensures_steady trivial fun privateKey ↦ ?_
  split_ifs
  · exact sure_call trivial
  · refine ensures_steady trivial fun isOpen ↦ ?_
    split_ifs
    · exact sure_call trivial
    · refine ensures_steady trivial fun encoded ↦ ensures_steady trivial fun id ↦ ?_
      refine ensures_steady trivial fun written ↦ ?_
      split_ifs
      · exact sure_call trivial
      · exact sure_pure _

theorem sure_responseRegister {data : Bytes} {id : ClientId}
    (hread : readClientID data headerSize = .ok id) : Sure (responseRegister data) desk := by
  rw [responseRegister, hread]
  rintro answer after ⟨rfl, -⟩
  refine sure_saveMyInfo.bind fun _ saved ↦ ?_
  refine ensures_steady trivial fun _ ↦ ensures_steady trivial fun name ↦ ?_
  refine ensures_steady trivial fun _ ↦ ensures_steady trivial fun id ↦ ?_
  exact sure_call trivial

/-- The loop over a client list returns. Assumes: a list of whole entries. -/
theorem sure_listLoop {data : Bytes} {rounds offset : ℕ}
    (hwhole : (data.length - offset) % (clientIdSize + nameSize) = 0)
    (hrounds : data.length - offset < rounds) : Sure (listLoop data rounds offset) desk := by
  induction rounds generalizing offset with
  | zero => exact absurd hrounds (Nat.not_lt_zero _)
  | succ rounds ih =>
    rw [listLoop]
    split_ifs with hmore
    · simp only [clientIdSize, nameSize] at hwhole
      have hread : readClientID data offset =
          .ok ⟨slice data offset clientIdSize, slice_length (by simp only [clientIdSize]; omega)⟩ :=
        dif_pos (by simp only [clientIdSize]; omega)
      rw [hread]
      refine ensures_steady trivial fun _ ↦ ensures_steady trivial fun _ ↦ ih ?_ ?_
      · simp only [clientIdSize, nameSize]
        omega
      · simp only [clientIdSize, nameSize]
        omega
    · exact sure_pure _

theorem sure_ensureFriend (id : ClientId) : Sure (ensureFriend id) desk := by
  refine ensures_steady trivial fun entry ↦ ?_
  split_ifs
  · exact sure_call trivial
  · exact sure_pure _

theorem sure_handleSymmetricKeyMessage (fromId : ClientId) (content rsaPriv : Bytes) :
    Sure (handleSymmetricKeyMessage fromId content rsaPriv) desk :=
  sure_rescue fun _ _ ↦ sure_call trivial

theorem sure_handleTextMessage (fromId : ClientId) (content : Bytes) :
    Sure (handleTextMessage fromId content) desk := by
  refine ensures_steady trivial fun entry ↦ ?_
  cases entry.bind Friend.symmetricKey with
  | none => exact sure_call trivial
  | some key => exact sure_rescue fun _ _ ↦ sure_call trivial

/-- A record is processed, whatever it holds. -/
theorem sure_handleRecord (fromId : ClientId) (msgType : ℕ) (content rsaPriv : Bytes) :
    Sure (handleRecord fromId msgType content rsaPriv) desk := by
  have hend : ∀ after, Sure (ask (.print (.text "-----<EOM>-----\n\n"))) after :=
    fun after ↦ sure_call trivial
  refine ensures_steady trivial fun entry ↦ ensures_steady trivial fun _ ↦ ?_
  refine ensures_steady trivial fun _ ↦ ?_
  split_ifs
  · exact ensures_steady trivial fun _ ↦ hend _
  · exact (sure_handleSymmetricKeyMessage fromId content rsaPriv).bind fun _ ↦ hend
  · exact (sure_handleTextMessage fromId content).bind fun _ ↦ hend
  · exact ensures_steady trivial fun _ ↦ hend _

/-- The loop over whole records returns. Assumes: more rounds than messages. -/
theorem sure_waitingLoop {messages : List Server.WaitingMessage}
    (hmessages : ∀ message ∈ messages, Server.Encodable message) (front privateKey : Bytes)
    {rounds : ℕ} (hrounds : messages.length < rounds) :
    Sure (waitingLoop (front ++ messages.flatMap Server.recordBytes) privateKey rounds front.length)
      desk := by
  induction messages generalizing front rounds desk with
  | nil =>
    obtain ⟨rounds, rfl⟩ := Nat.exists_eq_add_of_lt hrounds
    have hend : ¬front.length < (front ++ [].flatMap Server.recordBytes).length := by simp
    rw [waitingLoop, if_neg hend]
    exact sure_pure _
  | cons message rest ih =>
    obtain ⟨rounds, rfl⟩ : ∃ before, rounds = before + 1 :=
      Nat.exists_eq_succ_of_ne_zero (Nat.ne_zero_of_lt hrounds)
    rw [List.flatMap_cons, waitingLoop_record (hmessages message List.mem_cons_self)]
    refine (sure_handleRecord _ _ _ _).bind fun _ after ↦ ?_
    have hrest := @ih after (fun other hother ↦ hmessages other (List.mem_cons_of_mem _ hother))
      (front ++ Server.recordBytes message) rounds (Nat.lt_of_succ_lt_succ hrounds)
    rwa [List.append_assoc] at hrest

theorem sure_responsePublicKey (id : ClientId) (publicKey : FixedBytes publicKeySize) :
    Sure (responsePublicKey (Reply.key id publicKey).bytes) desk := by
  have hread : readClientID (Reply.key id publicKey).bytes headerSize = .ok id :=
    readClientID_reply rfl
  have hsize : headerSize + clientIdSize + publicKeySize ≤
      (Reply.key id publicKey).bytes.length := by
    rw [Reply.bytes_length, Reply.payload, List.length_append, id.property, publicKey.property,
      Nat.add_assoc]
  rw [responsePublicKey, dif_pos hsize, hread]
  refine (sure_ensureFriend id).bind fun _ after ↦ ?_
  exact ensures_steady trivial fun _ ↦ ensures_steady trivial fun _ ↦ sure_call trivial

theorem sure_responseClientList {clients : List (Bytes × Bytes)}
    (hclients : ∀ client ∈ clients, client.1.length = clientIdSize) :
    Sure (responseClientList (Reply.listed clients).bytes) desk := by
  have hlength : (Reply.listed clients).bytes.length - headerSize =
      clients.length * (clientIdSize + nameSize) := by
    rw [Reply.bytes_length, Nat.add_sub_cancel_left, Reply.payload, clientListPayload_eq hclients]
    induction clients with
    | nil => rfl
    | cons client rest ih =>
      rw [List.map_cons, List.flatMap_cons, List.length_append, ListEntry.bytes_length,
        ih fun other hother ↦ hclients other (List.mem_cons_of_mem _ hother), List.length_cons,
        Nat.succ_mul, Nat.add_comm]
  have hwhole : ((Reply.listed clients).bytes.length - headerSize) % (clientIdSize + nameSize) =
      0 := by
    rw [hlength]
    exact Nat.mul_mod_left _ _
  rw [responseClientList, if_neg (not_not.mpr hwhole)]
  refine sure_listLoop hwhole ?_
  rw [Reply.bytes_length]
  simp only [headerSize]
  omega

theorem sure_responseWaitingMessages {messages : List Server.WaitingMessage}
    (hmessages : ∀ message ∈ messages, Server.Encodable message) :
    Sure (responseWaitingMessages (Reply.waiting messages).bytes) desk := by
  unfold responseWaitingMessages
  split_ifs
  · exact sure_call trivial
  · refine ensures_steady trivial fun privateKey ↦ ensures_steady trivial fun _ ↦ ?_
    have hmany := length_le_flatMap_recordBytes hmessages
    have hrounds : messages.length < (Reply.waiting messages).bytes.length := by
      rw [Reply.bytes_length]
      simp only [headerSize, Reply.payload]
      omega
    have hloop := @sure_waitingLoop desk messages hmessages
      (frameHeader (Reply.waiting messages).code (Reply.waiting messages).payload.length) privateKey
      _ hrounds
    rw [frameHeader_length] at hloop
    exact hloop

end Replies

end MessageU.Client
