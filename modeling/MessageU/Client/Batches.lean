import MessageU.Client.Records

/-!
# The effect of a batch of waiting messages

A response to a pull carries any number of messages, and `responseWaitingMessages` handles them one
after the other, each on what the ones before have left. `tryGetFriendCopy_receive` is the effect of
one record on an entry of the cache: a symmetric key that decrypts to sixteen bytes replaces the key
of its sender, whose entry is created when there is none, and nothing else is written.
`tryGetFriendCopy_foldl` is the same for a batch, with the last such key of a sender.

`BatchEffect` lists what a batch does to a client. `batch_effect` says that this is what happens for
every well-formed payload, whatever fails to decrypt.
-/

set_option autoImplicit false
set_option relaxedAutoImplicit false

namespace MessageU.Client

open Library Interaction

/-! ### Entries of the cache -/

/-- The entry that is created for a sender that is not known. -/
def unknownSender (id : ClientId) : Friend where
  friendID := id
  friendName := []
  publicKey := none
  symmetricKey := none

/-- The entry of a sender after messages of which the last key is given. -/
def keyedEntry (id : ClientId) (found : Option Friend) :
    Option (FixedBytes symmetricKeySize) → Option Friend
  | none => found
  | some key => some { found.getD (unknownSender id) with symmetricKey := some key }

/-- What is printed for a text under the key that is in force. -/
def textUnder (crypto : Crypto) (content : Bytes) : Option (FixedBytes symmetricKeySize) → Output
  | none => cannotDecrypt
  | some key =>
    match crypto.aesDecrypt key content with
    | .ok txt => .plaintext txt
    | .error _ => cannotDecrypt

/-- The last key that messages bring from a sender: the content of its last message of the type that
decrypts to sixteen bytes. -/
def lastKey (crypto : Crypto) (privateKey : Bytes) (sender : ClientId)
    (messages : List Server.WaitingMessage) : Option (FixedBytes symmetricKeySize) :=
  (messages.filterMap (keyFrom crypto privateKey sender)).getLast?

section Entries

variable (crypto : Crypto) (privateKey : Bytes)

/-- An entry that is ensured is the one that was there, or a new one. -/
theorem tryGetFriendCopy_ensured (ctx : ClientContext) (id other : ClientId) :
    (ctx.ensured id).tryGetFriendCopy other =
      if id = other then some ((ctx.tryGetFriendCopy other).getD (unknownSender id))
      else ctx.tryGetFriendCopy other := by
  unfold ClientContext.ensured
  split_ifs with hmissing hsame hsame
  · subst hsame
    rw [Option.isNone_iff_eq_none] at hmissing
    rw [ClientContext.tryGetFriendCopy_setFriendBase, if_pos rfl, hmissing]
    rfl
  · rw [ClientContext.tryGetFriendCopy_setFriendBase, if_neg hsame]
  · subst hsame
    obtain ⟨entry, hentry⟩ := Option.ne_none_iff_exists'.mp
      (mt Option.isNone_iff_eq_none.mpr hmissing)
    rw [hentry, Option.getD_some]
  · rfl

/-- The entry of an ID after a record. -/
theorem tryGetFriendCopy_receive (ctx : ClientContext) (fromId id : ClientId) (msgType : ℕ)
    (content : Bytes) :
    (ctx.receive crypto privateKey fromId msgType content).tryGetFriendCopy id =
      keyedEntry id (ctx.tryGetFriendCopy id)
        (if msgType = sendSymmetricKey ∧ fromId = id then deliveredKey crypto privateKey content
          else none) := by
  unfold ClientContext.receive
  by_cases htype : msgType = sendSymmetricKey
  · rw [if_pos htype]
    cases deliveredKey crypto privateKey content with
    | none =>
      rw [ite_self]
      rfl
    | some key =>
      dsimp only
      rw [ClientContext.tryGetFriendCopy_setFriendSymmetricKey, tryGetFriendCopy_ensured]
      by_cases hsame : fromId = id
      · subst hsame
        rw [if_pos rfl, if_pos rfl, if_pos ⟨htype, rfl⟩]
        rfl
      · rw [if_neg hsame, if_neg hsame, if_neg fun h ↦ hsame h.2]
        rfl
  · rw [if_neg htype, if_neg fun h ↦ htype h.1]
    rfl

/-- A later key takes the place of an earlier one. -/
theorem keyedEntry_keyedEntry (id : ClientId) (found : Option Friend)
    (first second : Option (FixedBytes symmetricKeySize)) :
    keyedEntry id (keyedEntry id found first) second = keyedEntry id found (second.or first) := by
  cases second with
  | none => rw [Option.none_or, keyedEntry]
  | some key =>
    cases first with
    | none => rfl
    | some earlier => rfl

/-- The last key of messages in front of which there is one more. -/
theorem lastKey_cons (sender : ClientId) (message : Server.WaitingMessage)
    (rest : List Server.WaitingMessage) :
    lastKey crypto privateKey sender (message :: rest) =
      (lastKey crypto privateKey sender rest).or (keyFrom crypto privateKey sender message) := by
  rw [lastKey, lastKey, List.filterMap_cons]
  cases keyFrom crypto privateKey sender message with
  | none => rw [Option.or_none]
  | some key =>
    rw [List.getLast?_cons]
    cases (rest.filterMap (keyFrom crypto privateKey sender)).getLast? <;> rfl

/-- The entry of an ID after messages. -/
theorem tryGetFriendCopy_foldl {messages : List Server.WaitingMessage}
    (hmessages : ∀ message ∈ messages, Server.Encodable message) (state : ClientState)
    (id : ClientId) :
    (messages.foldl (ClientState.read crypto privateKey) state).ctx.tryGetFriendCopy id =
      keyedEntry id (state.ctx.tryGetFriendCopy id) (lastKey crypto privateKey id messages) := by
  induction messages generalizing state with
  | nil => rfl
  | cons message rest ih =>
    have hrest := ih (fun other hother ↦ hmessages other (List.mem_cons_of_mem _ hother))
      (state.read crypto privateKey message)
    have hentry : (state.read crypto privateKey message).ctx.tryGetFriendCopy id =
        keyedEntry id (state.ctx.tryGetFriendCopy id) (keyFrom crypto privateKey id message) := by
      refine (tryGetFriendCopy_receive crypto privateKey state.ctx _ id _ _).trans ?_
      simp only [keyFrom, ofBytes_eq_iff (hmessages message List.mem_cons_self)]
    rw [List.foldl_cons, hrest, hentry, keyedEntry_keyedEntry, lastKey_cons]

/-- Messages of other senders bring no key from an ID. -/
theorem lastKey_of_notMem {messages : List Server.WaitingMessage} {sender : ClientId}
    (h : ∀ message ∈ messages, message.fromClient ≠ sender.val) :
    lastKey crypto privateKey sender messages = none := by
  have hnone : messages.filterMap (keyFrom crypto privateKey sender) = [] := by
    rw [List.filterMap_eq_nil_iff]
    intro message hmessage
    exact if_neg fun hkey ↦ h message hmessage hkey.2
  rw [lastKey, hnone]
  rfl

end Entries

/-! ### The output of a batch -/

section Output

variable (crypto : Crypto) (privateKey : Bytes)

/-- Messages only add to what has been printed. -/
theorem output_foldl (messages : List Server.WaitingMessage) (state : ClientState) :
    state.output <+: (messages.foldl (ClientState.read crypto privateKey) state).output := by
  induction messages generalizing state with
  | nil => exact List.prefix_rfl
  | cons message rest ih =>
    exact (List.prefix_append _ _).trans (ih (state.read crypto privateKey message))

/-- What is printed for a message in a batch stands behind what was printed for the messages before
it. -/
theorem recordOutput_prefix (earlier later : List Server.WaitingMessage)
    (message : Server.WaitingMessage) (state : ClientState) :
    let current := earlier.foldl (ClientState.read crypto privateKey) state
    current.output ++ recordOutput crypto privateKey current.ctx
        (.ofBytes clientIdSize message.fromClient) message.type message.content <+:
      ((earlier ++ message :: later).foldl (ClientState.read crypto privateKey) state).output := by
  intro current
  rw [List.foldl_append, List.foldl_cons]
  exact output_foldl crypto privateKey later (current.read crypto privateKey message)

end Output

/-! ### The effect of a batch -/

/-- What the messages of a batch do to a client. -/
structure BatchEffect (crypto : Crypto) (messages : List Server.WaitingMessage)
    (before after : ClientState) : Prop where
  /-- Every message is handled, in order. -/
  folded : after =
    if messages = [] then
      { before with output := before.output ++ [.text "No waiting messages.\n"] }
    else messages.foldl (ClientState.read crypto before.ctx.privateKey) before
  /-- A text is decrypted under the key of its sender that is in force after the messages before
  it. -/
  texts : ∀ earlier message later, messages = earlier ++ message :: later →
    message.type = sendText → ∃ name,
      (earlier.foldl (ClientState.read crypto before.ctx.privateKey) before).output ++
          [.sender name, .text "Content:\n",
            textUnder crypto message.content
              ((lastKey crypto before.ctx.privateKey (.ofBytes clientIdSize message.fromClient)
                earlier).or (before.ctx.symmetricKeyFor
                  (.ofBytes clientIdSize message.fromClient))),
            .text "-----<EOM>-----\n\n"] <+: after.output
  /-- The key of an ID is the last one that it sent, or the old one. -/
  keys : ∀ id, after.ctx.symmetricKeyFor id =
    (lastKey crypto before.ctx.privateKey id messages).or (before.ctx.symmetricKeyFor id)
  /-- An entry keeps its ID, its name and its public key. -/
  known : ∀ id entry, before.ctx.tryGetFriendCopy id = some entry →
    ∃ kept, after.ctx.tryGetFriendCopy id = some kept ∧ kept.friendID = entry.friendID ∧
      kept.friendName = entry.friendName ∧ kept.publicKey = entry.publicKey
  /-- An entry of an ID that sent nothing is not touched. -/
  others : ∀ id : ClientId, (∀ message ∈ messages, message.fromClient ≠ id.val) →
    after.ctx.tryGetFriendCopy id = before.ctx.tryGetFriendCopy id
  /-- An entry is created exactly for a sender that was not known and sent a key. -/
  unknown : ∀ id, before.ctx.tryGetFriendCopy id = none →
    after.ctx.tryGetFriendCopy id = (lastKey crypto before.ctx.privateKey id messages).map fun key ↦
      { unknownSender id with symmetricKey := some key }
  clientID : after.ctx.clientID = before.ctx.clientID
  userName : after.ctx.userName = before.ctx.userName
  privateKey : after.ctx.privateKey = before.ctx.privateKey

/-- The fold over the messages has the effect of a batch. -/
theorem batchEffect_foldl (crypto : Crypto) {messages : List Server.WaitingMessage}
    (hmessages : ∀ message ∈ messages, Server.Encodable message) (before : ClientState) :
    BatchEffect crypto messages before
      (if messages = [] then
        { before with output := before.output ++ [.text "No waiting messages.\n"] }
      else messages.foldl (ClientState.read crypto before.ctx.privateKey) before) := by
  let folded := messages.foldl (ClientState.read crypto before.ctx.privateKey) before
  generalize hafter : (if messages = [] then
    { before with output := before.output ++ [.text "No waiting messages.\n"] } else folded) = after
  -- The message that there are no messages changes nothing but the output.
  have hctx : after.ctx = folded.ctx := by
    rw [← hafter]
    split_ifs with hempty
    · subst hempty
      rfl
    · rfl
  have hentry := fun id ↦ tryGetFriendCopy_foldl crypto before.ctx.privateKey hmessages before id
  obtain ⟨hid, hname, hkey⟩ := foldl_read_identity crypto before.ctx.privateKey messages before
  refine
    { folded := hafter.symm
      texts := fun earlier message later hsplit htype ↦ ?_
      keys := fun id ↦ ?_
      known := fun id entry hknown ↦ ?_
      others := fun id hother ↦ ?_
      unknown := fun id hunknown ↦ ?_
      clientID := hctx ▸ hid
      userName := hctx ▸ hname
      privateKey := hctx ▸ hkey }
  · have hsome : messages ≠ [] := by
      rw [hsplit]
      simp
    have hearlier : ∀ other ∈ earlier, Server.Encodable other := fun other hother ↦
      hmessages other (hsplit ▸ List.mem_append_left _ hother)
    let current := earlier.foldl (ClientState.read crypto before.ctx.privateKey) before
    let sender : ClientId := .ofBytes clientIdSize message.fromClient
    have hforce : current.ctx.symmetricKeyFor sender =
        (lastKey crypto before.ctx.privateKey sender earlier).or
          (before.ctx.symmetricKeyFor sender) :=
      symmetricKeyFor_foldl crypto before.ctx.privateKey hearlier before sender
    have hprinted := recordOutput_prefix crypto before.ctx.privateKey earlier later message before
    have htext : contentOutput crypto before.ctx.privateKey current.ctx sender sendText
        message.content = textUnder crypto message.content
          (current.ctx.symmetricKeyFor sender) := by
      show textOutput crypto current.ctx sender message.content = _
      unfold textOutput
      cases current.ctx.symmetricKeyFor sender <;> rfl
    refine ⟨shownName sender (current.ctx.tryGetFriendCopy sender), ?_⟩
    rw [← hforce, ← htext, ← hafter, if_neg hsome]
    rw [← hsplit, htype] at hprinted
    exact hprinted
  · rw [hctx]
    exact symmetricKeyFor_foldl crypto before.ctx.privateKey hmessages before id
  · rw [hctx, hentry, hknown]
    cases lastKey crypto before.ctx.privateKey id messages with
    | none => exact ⟨entry, rfl, rfl, rfl, rfl⟩
    | some key => exact ⟨{ entry with symmetricKey := some key }, rfl, rfl, rfl, rfl⟩
  · rw [hctx, hentry, lastKey_of_notMem crypto before.ctx.privateKey hother]
    rfl
  · rw [hctx, hentry, hunknown]
    cases lastKey crypto before.ctx.privateKey id messages <;> rfl

/-- A batch of waiting messages is handled message by message, without an exception, and with the
effect of a fold. Assumes: the fields of the messages fit their records, and a private key that can
be loaded. -/
theorem batch_effect (crypto : Crypto) {header : Bytes} (hheader : header.length = headerSize)
    {messages : List Server.WaitingMessage}
    (hmessages : ∀ message ∈ messages, Server.Encodable message) (before : ClientState)
    (hkey : crypto.loadsPrivateKey before.ctx.privateKey = true) :
    let result := (responseWaitingMessages
      (header ++ messages.flatMap Server.recordBytes)).exec crypto before
    result.2 = .ok () ∧ BatchEffect crypto messages before result.1 := by
  have hexec := exec_responseWaitingMessages crypto hheader hmessages before hkey
  intro result
  rw [show result = _ from hexec]
  exact ⟨rfl, batchEffect_foldl crypto hmessages before⟩

/-- A key of an unknown sender, and a text under it. -/
def keyThenText : List Server.WaitingMessage :=
  [⟨1, List.replicate clientIdSize 7, sendSymmetricKey,
      (Crypto.tagged.publicKeyOf loadedClient.ctx.privateKey).val ++
        List.replicate symmetricKeySize 9⟩,
    ⟨2, List.replicate clientIdSize 7, sendText, List.replicate symmetricKeySize 9 ++ [72, 105]⟩]

theorem encodable_keyThenText : ∀ message ∈ keyThenText, Server.Encodable message := by
  intro message hmessage
  have hkey : (Crypto.tagged.publicKeyOf loadedClient.ctx.privateKey).val.length = publicKeySize :=
    (Crypto.tagged.publicKeyOf loadedClient.ctx.privateKey).property
  rw [keyThenText, List.mem_cons, List.mem_singleton] at hmessage
  rcases hmessage with rfl | rfl
  · exact ⟨by simp, by simp, by simp, by simp [hkey]⟩
  · exact ⟨by simp, by simp, by simp, by simp⟩

/-- The key is stored under its sender, and the text is decrypted with it. -/
theorem batch_effect_keyThenText :
    let result := (responseWaitingMessages (List.replicate headerSize 0 ++
      keyThenText.flatMap Server.recordBytes)).exec .tagged loadedClient
    result.2 = .ok () ∧ BatchEffect .tagged keyThenText loadedClient result.1 :=
  batch_effect .tagged List.length_replicate encodable_keyThenText loadedClient
    (Crypto.tagged_correct.loads 0)

end MessageU.Client
