import MessageU.Client.ClientList
import MessageU.Client.Main

/-!
# A client and its connection

The loops of `Main.cpp` run for one client that nothing else changes, with the network as a
parameter: the answer to a request, a response or an exception, may depend on all requests that were
sent before it. `Online` is the state, `LoopCall.exec` what a call does to it. The lines that are
read from the console are counted.

`exec_here` splits a run of a function of the client into what it does to the client and how many
lines it reads. With it the choice 152 is followed from the prompt to the response. The new key is
in the context before it is encrypted and sent (`exec_handleSendSymmetricKey`), and nothing that
comes behind takes it out again: an exception, an answer with the code 9000 and an acknowledgement
all leave it there (`fresh_key_stays`).
-/

set_option autoImplicit false
set_option relaxedAutoImplicit false

namespace MessageU.Client

open Library Interaction

/-! ### Runs of the loops -/

/-- A client with the requests that it has sent and the number of its reads from the console. -/
structure Online where
  client : ClientState
  sent : List Bytes
  reads : ℕ

/-- What the network answers to the last of the requests that were sent. -/
abbrev Network := (requests : List Bytes) → Except CppError Bytes

/-- A read from the console. -/
def ClientCall.readCount : ClientCall → ℕ
  | .getline => 1
  | _ => 0

/-- What a call of a loop does. -/
def LoopCall.exec (crypto : Crypto) (network : Network) (state : Online) :
    (call : LoopCall) → Online × Except CppError call.Result
  | .method call =>
    ({ state with
        client := (call.exec crypto state.client).1
        reads := state.reads + call.readCount },
      (call.exec crypto state.client).2)
  | .sendAndReceive data =>
    ({ state with sent := state.sent ++ [data] }, network (state.sent ++ [data]))

/-- Run a part of a loop. -/
def Loop.exec {α : Type} (crypto : Crypto) (network : Network) (loop : Loop α) (state : Online) :
    Online × Except CppError α :=
  loop.run (LoopCall.exec crypto network) state

section Exec

variable {α β : Type} (crypto : Crypto) (network : Network)

/-- Running a sequence of two parts. -/
theorem Loop.exec_bind (loop : Loop α) (next : α → Loop β) (state : Online) :
    Loop.exec crypto network (loop >>= next) state =
      Loop.exec crypto network (proceed next (loop.exec crypto network state).2)
        (loop.exec crypto network state).1 :=
  run_bind _ loop next state

/-- A function of the client does to the client what it does without a connection, and sends
nothing. -/
theorem exec_here (program : Program α) (state : Online) :
    ∃ reads, (here program).exec crypto network state =
      ({ state with client := (program.exec crypto state.client).1, reads := reads },
        (program.exec crypto state.client).2) := by
  induction program generalizing state with
  | finished outcome => exact ⟨state.reads, rfl⟩
  | request call resume ih =>
    obtain ⟨reads, hrest⟩ := ih (call.exec crypto state.client).2
      { state with
        client := (call.exec crypto state.client).1
        reads := state.reads + call.readCount }
    exact ⟨reads, hrest⟩

/-- An exchange sends its request and returns what the network answers. -/
theorem exec_exchange (data : Bytes) (state : Online) :
    (exchange data).exec crypto network state =
      ({ state with sent := state.sent ++ [data] }, network (state.sent ++ [data])) :=
  rfl

end Exec

/-! ### Calls that set no symmetric key -/

/-- A call that leaves the symmetric keys of the cache alone. -/
def ClientCall.KeepsSymmetricKeys : ClientCall → Prop
  | .setFriendSymmetricKey .. => False
  | _ => True

theorem ClientCall.KeepsKeys.keepsSymmetricKeys {call : ClientCall} (h : call.KeepsKeys) :
    call.KeepsSymmetricKeys := by
  cases call <;> first | exact h | trivial

/-- A call that sets no symmetric key does not change any. -/
theorem ClientCall.KeepsSymmetricKeys.exec {call : ClientCall} (h : call.KeepsSymmetricKeys)
    (crypto : Crypto) (state : ClientState) (id : ClientId) :
    (call.exec crypto state).1.ctx.symmetricKeyFor id = state.ctx.symmetricKeyFor id := by
  cases call with
  | setFriendBase uuid name => exact state.ctx.symmetricKeyFor_setFriendBase uuid id name
  | setFriendPublicKey uuid key => exact state.ctx.symmetricKeyFor_setFriendPublicKey uuid id key
  | setFriendSymmetricKey uuid key => exact h.elim
  | _ => rfl

/-- Only waiting messages bring symmetric keys. -/
theorem within_response_keepsSymmetricKeys {data : Bytes}
    (hcode : codeOf data ≠ responseWaitingMessagesCode) :
    Within ClientCall.KeepsSymmetricKeys (responseClientMain data) := by
  unfold responseClientMain
  split_ifs
  · exact within_throwing _
  · exact (within_responseRegister data).mono fun _ h ↦ h.keepsKeys.keepsSymmetricKeys
  · exact within_responseClientList (fun _ ↦ trivial) fun _ _ _ ↦ trivial
  · unfold responsePublicKey
    split_ifs
    · refine (within_finished _).bind fun uuid ↦ ?_
      have hensure : Within ClientCall.KeepsSymmetricKeys (ensureFriend uuid) := by
        refine within_ask.mpr ⟨trivial, fun entry ↦ ?_⟩
        split_ifs
        · exact within_call trivial
        · exact within_pure _
      refine hensure.bind fun _ ↦ within_ask.mpr ⟨trivial, fun _ ↦ ?_⟩
      exact within_ask.mpr ⟨trivial, fun _ ↦ within_call trivial⟩
    · exact within_throwing _
  · refine (within_responseMessageSent data).mono fun _ h ↦ ?_
    exact h.reads.keepsKeys.keepsSymmetricKeys
  · exact within_call trivial
  · exact within_call trivial

/-- A response without waiting messages leaves the symmetric keys. -/
theorem symmetricKeyFor_response (crypto : Crypto) {data : Bytes}
    (hcode : codeOf data ≠ responseWaitingMessagesCode) (state : ClientState) (id : ClientId) :
    ((responseClientMain data).exec crypto state).1.ctx.symmetricKeyFor id =
      state.ctx.symmetricKeyFor id := by
  let Same (current : ClientState) : Prop :=
    current.ctx.symmetricKeyFor id = state.ctx.symmetricKeyFor id
  have hkeeps (current : ClientState) (call : ClientCall) (hcall : call.KeepsSymmetricKeys)
      (hcurrent : Same current) : Same (call.exec crypto current).1 :=
    (hcall.exec crypto current id).trans hcurrent
  exact Within.run (P := Same) hkeeps (within_response_keepsSymmetricKeys hcode) rfl

/-! ### Sending a symmetric key -/

section SendKey

variable {crypto : Crypto} {state : ClientState} {rounds : ℕ}

/-- What follows `handleSendSymmetricKey` leaves the context that it left. -/
theorem ctx_sendKey (target : ClientId) (start : ClientState) :
    (Program.exec crypto (proceed (fun content ↦
        if content = [] then pure []
        else sendContent (target.val ++ [UInt8.ofNat sendSymmetricKey]) content)
      ((handleSendSymmetricKey target).exec crypto start).2)
      ((handleSendSymmetricKey target).exec crypto start).1).1.ctx =
        if (start.ctx.publicKeyFor target).isSome then
          start.ctx.setFriendSymmetricKey target start.entropy.aesKey
        else start.ctx := by
  have hsend : (∃ output, _ ∧ (handleSendSymmetricKey target).exec crypto start = _) ∨ _ :=
    exec_handleSendSymmetricKey target
  rcases hsend with ⟨output, hkey, hexec⟩ | ⟨publicKey, outcome, hkey, hexec, -⟩
  · rw [hexec, hkey]
    rfl
  · rw [hexec, hkey, Option.isSome_some, if_pos rfl]
    cases outcome with
    | error exception => rfl
    | ok content =>
      rw [proceed_ok]
      split_ifs
      · rfl
      · rw [exec_sendContent]

variable (crypto) in
/-- The action 152 sends a key to the target that was typed, if there is one. Assumes: more rounds
than lines. -/
theorem exec_sendKeyChoice (hrounds : state.console.length < rounds) :
    ∃ console output outcome,
      (handleMenuChoice rounds sendSymmetricKeyChoice).exec crypto state =
        match typedTarget state with
        | some target =>
          Program.exec crypto (handleSendSymmetricKey target >>= fun content ↦
            if content = [] then pure []
            else sendContent (target.val ++ [UInt8.ofNat sendSymmetricKey]) content)
            { state with console := console, output := output }
        | none => ({ state with console := console, output := output }, outcome) := by
  have hchoice : handleMenuChoice rounds sendSymmetricKeyChoice =
      handleAllMessages rounds sendSymmetricKeyChoice := rfl
  obtain ⟨output, hname⟩ := exec_getValidUsername crypto targetPrompt rounds state hrounds
  rw [hchoice, handleAllMessages, exec_bind, hname, typedTarget]
  cases haccepted : acceptedName state.console with
  | none => exact ⟨_, _, _, rfl⟩
  | some accepted =>
    obtain ⟨name, rest⟩ := accepted
    dsimp only
    rw [proceed_ok]
    by_cases hzero : name = zeroName
    · rw [if_pos hzero, if_pos hzero]
      exact ⟨_, _, _, rfl⟩
    rw [if_neg hzero, if_neg hzero, exec_ask rfl]
    cases hfound : state.ctx.tryGetFriendIdByName name with
    | none => exact ⟨_, _, _, rfl⟩
    | some target =>
      dsimp only
      rw [if_neg (by simp), if_neg (by simp), if_pos rfl]
      exact ⟨rest, output, .ok [], rfl⟩

/-- The context behind the action 152: the new key is there if the target has a public key, whatever
its encryption comes to. Assumes: more rounds than lines. -/
theorem ctx_sendKeyChoice (hrounds : state.console.length < rounds) :
    ((handleMenuChoice rounds sendSymmetricKeyChoice).exec crypto state).1.ctx =
      match typedTarget state with
      | some target =>
        if (state.ctx.publicKeyFor target).isSome then
          state.ctx.setFriendSymmetricKey target state.entropy.aesKey
        else state.ctx
      | none => state.ctx := by
  obtain ⟨console, output, outcome, hexec⟩ := exec_sendKeyChoice crypto hrounds
  rw [hexec]
  cases typedTarget state with
  | none => rfl
  | some target =>
    dsimp only
    rw [exec_bind]
    exact ctx_sendKey target { state with console := console, output := output }

/-- What the action 152 comes to for a target with a public key: an exception, or a request with the
cipher of the new key. Assumes: more rounds than lines, and ciphers that are not empty. -/
theorem outcome_sendKeyChoice (hcrypto : crypto.Correct) (hrounds : state.console.length < rounds)
    {target : ClientId} (htarget : typedTarget state = some target)
    (hpublic : (state.ctx.publicKeyFor target).isSome) :
    (∃ exception, ((handleMenuChoice rounds sendSymmetricKeyChoice).exec crypto state).2 =
        .error exception) ∨
      ∃ cipher, ((handleMenuChoice rounds sendSymmetricKeyChoice).exec crypto state).2 =
        .ok (Server.requestFrame state.ctx.clientID.val requestAllMessages
          (Server.messagePayload target.val sendSymmetricKey cipher)) := by
  obtain ⟨console, output, outcome, hexec⟩ := exec_sendKeyChoice crypto hrounds
  rw [hexec, htarget]
  dsimp only
  let start : ClientState := { state with console := console, output := output }
  have hsend : (∃ printed, _ ∧ (handleSendSymmetricKey target).exec crypto start = _) ∨ _ :=
    exec_handleSendSymmetricKey target
  rcases hsend with ⟨printed, hnone, -⟩ | ⟨publicKey, sent, -, hsent, hfailed | hcipher⟩
  · have hkey : state.ctx.publicKeyFor target = none := hnone
    simp [hkey] at hpublic
  · rw [exec_bind, hsent, hfailed.2]
    exact .inl ⟨_, rfl⟩
  · rw [exec_bind, hsent]
    cases sent with
    | error exception => exact .inl ⟨exception, rfl⟩
    | ok cipher =>
      rw [proceed_ok, if_neg (hcrypto.rsa_nonempty _ _ _ _ hcipher.symm), exec_sendContent]
      exact .inr ⟨cipher, rfl⟩

end SendKey

/-- What a round of `main` leaves of the symmetric keys is what its action leaves. Assumes: no
answer brings waiting messages. -/
theorem symmetricKeyFor_mainTurn (crypto : Crypto) {network : Network}
    (hnetwork : ∀ requests buffer, network requests = .ok buffer →
      codeOf buffer ≠ responseWaitingMessagesCode)
    (rounds choice : ℕ) (start : Online) (id : ClientId) :
    ((mainTurn rounds choice).exec crypto network start).1.client.ctx.symmetricKeyFor id =
      ((handleMenuChoice rounds choice).exec crypto start.client).1.ctx.symmetricKeyFor id := by
  obtain ⟨reads, haction⟩ := exec_here crypto network (handleMenuChoice rounds choice) start
  rw [mainTurn, Loop.exec_bind, haction]
  cases hdata : ((handleMenuChoice rounds choice).exec crypto start.client).2 with
  | error exception => rfl
  | ok data =>
    rw [proceed_ok]
    split_ifs
    · rfl
    rw [Loop.exec_bind, exec_exchange]
    cases hanswer : network (start.sent ++ [data]) with
    | error exception => rfl
    | ok buffer =>
      rw [proceed_ok]
      obtain ⟨final, hresponse⟩ := exec_here crypto network (responseClientMain buffer)
        { start with
          client := ((handleMenuChoice rounds choice).exec crypto start.client).1
          sent := start.sent ++ [data]
          reads := reads }
      rw [hresponse]
      exact symmetricKeyFor_response crypto (hnetwork _ _ hanswer) _ id

/-- After the choice 152 the fresh key is the one that is held for the target, if a public key is
cached for it, whatever becomes of the request; every other key is the one that was held before.
Assumes: no answer brings waiting messages, and more rounds than lines. -/
theorem fresh_key_stays (crypto : Crypto) (network : Network)
    (hnetwork : ∀ requests buffer, network requests = .ok buffer →
      codeOf buffer ≠ responseWaitingMessagesCode)
    (rounds : ℕ) (start : Online) (hrounds : start.client.console.length < rounds) (id : ClientId) :
    ((mainTurn rounds sendSymmetricKeyChoice).exec crypto network
        start).1.client.ctx.symmetricKeyFor id =
      if typedTarget start.client = some id ∧ (start.client.ctx.publicKeyFor id).isSome then
        some start.client.entropy.aesKey
      else start.client.ctx.symmetricKeyFor id := by
  rw [symmetricKeyFor_mainTurn crypto hnetwork, ctx_sendKeyChoice hrounds]
  cases htarget : typedTarget start.client with
  | none => rw [if_neg (by simp)]
  | some target =>
    dsimp only
    cases hkey : start.client.ctx.publicKeyFor target with
    | none =>
      have hcondition : ¬(some target = some id ∧ (start.client.ctx.publicKeyFor id).isSome) := by
        rintro ⟨hsame, hsome⟩
        rw [← Option.some.inj hsame, hkey] at hsome
        cases hsome
      rw [if_neg hcondition]
      rfl
    | some publicKey =>
      have hentry := start.client.ctx.isSome_of_publicKeyFor target hkey
      rw [Option.isSome_some, if_pos rfl,
        start.client.ctx.symmetricKeyFor_setFriendSymmetricKey target id hentry]
      by_cases hsame : target = id
      · subst hsame
        rw [if_pos rfl, hkey, if_pos ⟨rfl, rfl⟩]
      · rw [if_neg hsame, if_neg fun h ↦ hsame (Option.some.inj h.1)]

/-- The ID of a friend. -/
def friendId : ClientId :=
  .ofBytes clientIdSize (List.replicate clientIdSize 2)

/-- A client that holds a public key and a symmetric key for a friend, whose name is typed. -/
def acquainted : Online where
  client :=
    { freshClient with
      ctx := ((ClientContext.empty.setFriendBase friendId [66]).setFriendPublicKey friendId
        (.zero publicKeySize)).setFriendSymmetricKey friendId (.zero symmetricKeySize)
      console := [[66]]
      entropy := ⟨.ofBytes symmetricKeySize (List.replicate symmetricKeySize 7), 0⟩ }
  sent := []
  reads := 0

/-- A network that answers every request with the code 9000. -/
def refusing : Network :=
  fun _ ↦ .ok Server.errorResponse

/-- The answer to a refused request. -/
theorem codeOf_refusing {requests : List Bytes} {buffer : Bytes}
    (h : refusing requests = .ok buffer) : codeOf buffer = errorGeneral := by
  rw [← Except.ok.inj h]
  decide +kernel

/-- A key whose message the server refuses. -/
theorem fresh_key_stays_refused :
    ((mainTurn 2 sendSymmetricKeyChoice).exec .tagged refusing
        acquainted).1.client.ctx.symmetricKeyFor friendId =
      some acquainted.client.entropy.aesKey := by
  have hstays := fresh_key_stays .tagged refusing (fun _ _ h ↦ by rw [codeOf_refusing h]; simp) 2
    acquainted (by decide) friendId
  rwa [if_pos (by decide +kernel)] at hstays

/-- A key is replaced although its message is not acknowledged. -/
theorem unacknowledged_key_replaces :
    ¬∀ (crypto : Crypto) (network : Network) (rounds : ℕ) (start : Online) (target : ClientId),
      start.client.console.length < rounds → typedTarget start.client = some target →
        (∀ requests buffer, network requests = .ok buffer →
          codeOf buffer ≠ responseMessageSentCode) →
        ((mainTurn rounds sendSymmetricKeyChoice).exec crypto network
            start).1.client.ctx.symmetricKeyFor target =
          start.client.ctx.symmetricKeyFor target := by
  intro h
  have hsame := h .tagged refusing 2 acquainted friendId (by decide) (by decide +kernel)
    fun _ _ hanswer ↦ by rw [codeOf_refusing hanswer]; simp
  have hdiffer : ((mainTurn 2 sendSymmetricKeyChoice).exec .tagged refusing
      acquainted).1.client.ctx.symmetricKeyFor friendId ≠
        acquainted.client.ctx.symmetricKeyFor friendId := by decide +kernel
  exact hdiffer hsame

end MessageU.Client
