import MessageU.System.KeyAgreement

/-!
# Texts from one client to another one

A client that never sends a key reads every text of the other one as it was typed.

The key under which a client encrypts a text is the key that it holds. The one under which the other
client decrypts it is the last key that is in front of the text among the messages for this client,
or the one that it holds already. As long as only one of the two sends keys, the second one follows
the first (`Replicas.Follows`): behind all that is on its way to it, its key is the one of the
first. So a text that is stored at the end of the queue is under the key in force there
(`Pair.Legible`), and it stays under it whatever the other client takes from the front of the queue
(`EachUnder`).

The server answers a stored text with its ID, which belongs to one message only. `World.Accepted`
says which texts have been answered, with their IDs, and `World.Delivering` is the invariant of a
run.
-/

set_option autoImplicit false
set_option relaxedAutoImplicit false

namespace MessageU.System

open Library Client

/-! ### Accepted texts -/

/-- A response tells a client that the text that it has typed for the other one is stored under an
ID. -/
structure Pair.TextSent (pair : Pair) (side : Side) (choice : Option ℕ) (began : ClientState)
    (response : Bytes) (msgId : ℕ) (text : Bytes) : Prop where
  choice : choice = some sendTextChoice
  target : typedTarget began = some (pair.id side.other)
  text : typedText began.console = text
  code : Server.responseCode response = Server.responseMessageSent
  msgId : readUint32LE response (headerSize + clientIdSize) = .ok msgId

instance (pair : Pair) (side : Side) (choice : Option ℕ) (began : ClientState) (response : Bytes)
    (msgId : ℕ) (text : Bytes) : Decidable (pair.TextSent side choice began response msgId text) :=
  decidable_of_iff (choice = some sendTextChoice ∧ typedTarget began = some (pair.id side.other) ∧
      typedText began.console = text ∧ Server.responseCode response = Server.responseMessageSent ∧
      readUint32LE response (headerSize + clientIdSize) = .ok msgId)
    ⟨fun h ↦ ⟨h.1, h.2.1, h.2.2.1, h.2.2.2.1, h.2.2.2.2⟩,
      fun h ↦ ⟨h.choice, h.target, h.text, h.code, h.msgId⟩⟩

/-- A message that carries one of the accepted texts does so under the key that is in force. -/
def Pair.Legible (pair : Pair) (crypto : Crypto) (side : Side) (accepted : ℕ → Bytes → Prop)
    (key : Option (FixedBytes symmetricKeySize)) (message : Server.WaitingMessage) : Prop :=
  ∀ text, accepted message.id text → message.type = sendText ∧
    message.fromClient = (pair.id side).val ∧
      ∃ held, key = some held ∧ message.content = crypto.aesEncrypt held text

/-- A round shows a text as the next thing behind earlier messages of its response. -/
def Round.Shows (crypto : Crypto) (privateKey : Bytes) (round : Round)
    (earlier : List Server.WaitingMessage) (text : Bytes) : Prop :=
  ∃ name, (earlier.foldl (ClientState.read crypto privateKey) round.reading).output ++
    [.sender name, .text "Content:\n", .plaintext text, .text "-----<EOM>-----\n\n"] <+:
      round.after.output

namespace World

section Texts

variable {Rest : Type} (pair : Pair) (side : Side) (world : World Rest)

/-- A text of a client has been answered with an ID. -/
def Accepted (msgId : ℕ) (text : Bytes) : Prop :=
  (∃ round ∈ (world.party side).rounds,
      pair.TextSent side round.choice round.began round.response msgId text) ∨
    ∃ response ∈ world.response pair side, pair.TextSent side (world.party side).choice
      (world.party side).began response msgId text

/-- The messages that a client has read, and behind them those that it has not read. -/
def delivered : List Server.WaitingMessage :=
  ((world.party side).rounds.flatMap fun round ↦ batch round.response) ++ world.unread pair side

/-- The text that a client is about to send has a length that its cipher takes. -/
def TextFits (_ : World Rest) : WorldEvent → Prop
  | .choose actor choice surroundings => actor = side → choice = sendTextChoice →
      (typedText surroundings.console).length < 2 ^ 32
  | .wake _ | .send .. | .receive _ | .serve _ => True

instance : DecidablePred (TextFits side world)
  | .choose actor choice surroundings => inferInstanceAs (Decidable (actor = side →
      choice = sendTextChoice → (typedText surroundings.console).length < 2 ^ 32))
  | .wake _ => isTrue trivial
  | .send .. => isTrue trivial
  | .receive _ => isTrue trivial
  | .serve _ => isTrue trivial

end Texts

section Views

variable {Rest : Type} {pair : Pair} {side : Side} {world after : World Rest}

/-- A client that neither goes on nor is answered has the same texts accepted. -/
theorem accepted_congr (hparty : after.party side = world.party side)
    (hconnection : after.server.connections (pair.own side) =
      world.server.connections (pair.own side)) :
    after.Accepted pair side = world.Accepted pair side := by
  have hresponse : after.response pair side = world.response pair side := by
    rw [response, response, hparty, hconnection]
  unfold Accepted
  rw [hparty, hresponse]

/-- While no text is being answered, the texts that have been accepted are those of the rounds. -/
theorem accepted_of_code (hrounds : (after.party side).rounds = (world.party side).rounds)
    (hcode : ∀ response ∈ after.response pair side,
      Server.responseCode response ≠ Server.responseMessageSent) {msgId : ℕ} {text : Bytes}
    (h : after.Accepted pair side msgId text) : world.Accepted pair side msgId text := by
  rcases h with ⟨round, hround, hsent⟩ | ⟨response, hresponse, hsent⟩
  · exact .inl ⟨round, hrounds ▸ hround, hsent⟩
  · exact absurd hsent.code (hcode response hresponse)

/-- A client that does not ask has no response to read. -/
theorem response_of_not_asking (h : (world.party side).asking = false) :
    world.response pair side = none := by
  rw [response, h, if_neg Bool.false_ne_true]

end Views

/-! ### The invariant -/

/-- One client sends texts and keys, and the other one sends no keys. -/
structure Delivering (pair : Pair) (crypto : Crypto) (side : Side) (world : World Server.Staged) :
    Prop where
  quiet : (world.replicas pair).Quiet (pair.keyIn crypto) side.other
  follows : (world.replicas pair).Follows (pair.keyIn crypto) side
  /-- The text of a round that sends one has a length that its cipher takes. -/
  sized : (world.party side).choice = some sendTextChoice →
    (typedText (world.party side).began.console).length < 2 ^ 32
  numbered : ∀ message ∈ world.delivered pair side.other, message.id ≤ world.server.tables.sequence
  ordered : (world.delivered pair side.other).Pairwise fun first second ↦ first.id < second.id
  /-- Every accepted text is among the messages for the other client. -/
  stored : ∀ msgId text, world.Accepted pair side msgId text →
    ∃ message ∈ world.delivered pair side.other, message.id = msgId
  /-- The other client will be able to decrypt it. -/
  legible : EachUnder (pair.keyIn crypto side.other)
    (pair.Legible crypto side (world.Accepted pair side)) (world.heldKey pair side.other)
    (world.unread pair side.other)
  /-- If it has read it, it has shown it. -/
  shown : ∀ round ∈ (world.party side.other).rounds, ∀ earlier message later,
    batch round.response = earlier ++ message :: later → ∀ text,
      world.Accepted pair side message.id text →
        round.Shows crypto (pair.privateKey side.other) earlier text

section Steps

variable {pair : Pair} {crypto : Crypto} {side : Side} {world after : World Server.Staged}

/-- An accepted text has the ID of a message that has been stored. -/
theorem Delivering.accepted_le (h : world.Delivering pair crypto side) {msgId : ℕ} {text : Bytes}
    (haccepted : world.Accepted pair side msgId text) : msgId ≤ world.server.tables.sequence := by
  obtain ⟨message, hmessage, rfl⟩ := h.stored msgId text haccepted
  exact h.numbered message hmessage

/-- The other client reads nothing, and messages are put behind those that it has not read. Assumes:
each of them has a new ID, and a text that is accepted now is one of them and under the key that is
in force behind the others. -/
theorem Delivering.extend (h : world.Delivering pair crypto side)
    (hquiet : (after.replicas pair).Quiet (pair.keyIn crypto) side.other)
    (hfollows : (after.replicas pair).Follows (pair.keyIn crypto) side)
    (hsized : (after.party side).choice = some sendTextChoice →
      (typedText (after.party side).began.console).length < 2 ^ 32)
    (hsequence : world.server.tables.sequence ≤ after.server.tables.sequence)
    (hheld : after.heldKey pair side.other = world.heldKey pair side.other)
    (hrounds : (after.party side.other).rounds = (world.party side.other).rounds)
    {fresh : List Server.WaitingMessage}
    (hunread : after.unread pair side.other = world.unread pair side.other ++ fresh)
    (hfresh : ∀ message ∈ fresh, world.server.tables.sequence < message.id ∧
      message.id ≤ after.server.tables.sequence)
    (hordered : fresh.Pairwise fun first second ↦ first.id < second.id)
    (haccepted : ∀ msgId text, after.Accepted pair side msgId text →
      world.Accepted pair side msgId text ∨ ∃ message ∈ fresh, message.id = msgId)
    (hlegible : EachUnder (pair.keyIn crypto side.other)
      (pair.Legible crypto side (after.Accepted pair side))
      ((world.replicas pair).due (pair.keyIn crypto) side.other) fresh) :
    after.Delivering pair crypto side := by
  have hdelivered : after.delivered pair side.other = world.delivered pair side.other ++ fresh := by
    rw [delivered, delivered, hrounds, hunread, List.append_assoc]
  -- a message that was there has an old ID, which is not the one of a text that is accepted now
  have hold : ∀ message ∈ world.delivered pair side.other, ∀ text,
      after.Accepted pair side message.id text → world.Accepted pair side message.id text := by
    intro message hmessage text hsent
    rcases haccepted message.id text hsent with hbefore | ⟨other, hother, hid⟩
    · exact hbefore
    · have hnew := (hfresh other hother).1
      rw [hid] at hnew
      exact absurd (h.numbered message hmessage) (not_le.mpr hnew)
  refine ⟨hquiet, hfollows, hsized, fun message hmessage ↦ ?_, ?_,
    fun msgId text hsent ↦ ?_, ?_, ?_⟩
  · rw [hdelivered, List.mem_append] at hmessage
    exact hmessage.elim (fun hbefore ↦ (h.numbered message hbefore).trans hsequence)
      fun hnew ↦ (hfresh message hnew).2
  · rw [hdelivered, List.pairwise_append]
    exact ⟨h.ordered, hordered, fun first hfirst second hsecond ↦
      (h.numbered first hfirst).trans_lt (hfresh second hsecond).1⟩
  · rw [hdelivered]
    rcases haccepted msgId text hsent with hbefore | ⟨message, hmessage, hid⟩
    · obtain ⟨message, hmessage, hid⟩ := h.stored msgId text hbefore
      exact ⟨message, List.mem_append_left _ hmessage, hid⟩
    · exact ⟨message, List.mem_append_right _ hmessage, hid⟩
  · rw [hunread, hheld, eachUnder_append]
    refine ⟨h.legible.imp fun key message hmessage hmeets text hsent ↦ ?_, hlegible⟩
    exact hmeets text (hold message (List.mem_append_right _ hmessage) text hsent)
  · intro round hround earlier message later hbatch text hsent
    rw [hrounds] at hround
    have hmessage : message ∈ world.delivered pair side.other := by
      refine List.mem_append_left _ (List.mem_flatMap.mpr ⟨round, hround, ?_⟩)
      rw [hbatch]
      exact List.mem_append_right _ List.mem_cons_self
    exact h.shown round hround earlier message later hbatch text (hold message hmessage text hsent)

/-- Nothing is delivered, and no text is accepted. -/
theorem Delivering.still (h : world.Delivering pair crypto side)
    (hquiet : (after.replicas pair).Quiet (pair.keyIn crypto) side.other)
    (hfollows : (after.replicas pair).Follows (pair.keyIn crypto) side)
    (hsized : (after.party side).choice = some sendTextChoice →
      (typedText (after.party side).began.console).length < 2 ^ 32)
    (hsequence : world.server.tables.sequence ≤ after.server.tables.sequence)
    (hheld : after.heldKey pair side.other = world.heldKey pair side.other)
    (hrounds : (after.party side.other).rounds = (world.party side.other).rounds)
    (hunread : after.unread pair side.other = world.unread pair side.other)
    (haccepted : ∀ msgId text, after.Accepted pair side msgId text →
      world.Accepted pair side msgId text) : after.Delivering pair crypto side :=
  h.extend hquiet hfollows hsized hsequence hheld hrounds
    (hunread.trans (List.append_nil _).symm) (fun _ hmem ↦ absurd hmem List.not_mem_nil) .nil
    (fun msgId text hsent ↦ .inl (haccepted msgId text hsent)) trivial

/-- A response that brings messages is one to a pull. -/
theorem waiting_of_batch {identities : List Identity} {data response : Bytes}
    (h : Means identities data response) (hsome : batch response ≠ []) :
    (∀ message ∈ batch response, Server.Encodable message) ∧
      response = (Reply.waiting (batch response)).bytes := by
  obtain ⟨reply, -, hfits, -, rfl⟩ := h
  cases reply with
  | waiting messages =>
    have hbatch : batch (Reply.waiting messages).bytes = messages := batch_frame hfits
    rw [hbatch]
    exact ⟨hfits, rfl⟩
  | _ => exact absurd (batch_reply (by simp [Reply.code])) hsome

/-- A client that reads a text under the key that it holds for its sender shows it. -/
theorem Sound.shows (h : world.Sound pair crypto) (hcrypto : crypto.Correct) {reader : Side}
    {data response : Bytes}
    (hreturned : world.server.connections (pair.own reader) = .returned data response)
    {earlier later : List Server.WaitingMessage} {message : Server.WaitingMessage}
    (hbatch : batch response = earlier ++ message :: later) {key : FixedBytes symmetricKeySize}
    {text : Bytes} (htype : message.type = sendText)
    (hfrom : message.fromClient = (pair.id reader.other).val)
    (hkey : inForce (pair.keyIn crypto reader) (world.heldKey pair reader) earlier = some key)
    (hcontent : message.content = crypto.aesEncrypt key text) :
    let reading := readingBy (world.party reader).choice (world.party reader).client
    Round.Shows crypto (pair.privateKey reader)
      ⟨(world.party reader).choice, (world.party reader).began,
        (world.party reader).client, response,
        ((responseClientMain response).exec crypto reading).1⟩ earlier text := by
  intro reading
  have hctx : reading.ctx = (world.party reader).client.ctx := by
    change (readingBy _ _).ctx = _
    rw [readingBy.eq_def]
    cases (world.party reader).choice <;> rfl
  have hsome : batch response ≠ [] := by simp [hbatch]
  obtain ⟨hencodable, hresponse⟩ := waiting_of_batch (h.means hreturned).1 hsome
  have hprivate : reading.ctx.privateKey = pair.privateKey reader :=
    hctx ▸ (h.owns reader).privateKey
  have heffect : BatchEffect crypto (batch response) reading
      ((responseClientMain response).exec crypto reading).1 := by
    have hloads := h.loads reader
    rw [← hprivate] at hloads
    have hmessages := batchEffect_response crypto hencodable hloads
    rwa [← hresponse] at hmessages
  obtain ⟨name, hshown⟩ := heffect.texts earlier message later hbatch htype
  have hsender : FixedBytes.ofBytes clientIdSize message.fromClient = pair.id reader.other := by
    rw [ofBytes_eq_iff (hencodable message (by simp [hbatch]))]
    exact hfrom
  have hinForce : (lastKey crypto (pair.privateKey reader) (pair.id reader.other) earlier).or
      (reading.ctx.symmetricKeyFor (pair.id reader.other)) = some key := by
    rw [hctx]
    rw [inForce_eq] at hkey
    exact hkey
  have htext : textUnder crypto message.content (some key) = .plaintext text := by
    rw [textUnder, hcontent, hcrypto.aes]
  rw [hprivate, hsender, hinForce, htext] at hshown
  exact ⟨name, hshown⟩

/-- The other client reads a response. -/
theorem Delivering.read (h : world.Delivering pair crypto side) (hsound : world.Sound pair crypto)
    (hcrypto : crypto.Correct) {data response : Bytes}
    (hasking : (world.party side.other).asking = true)
    (hdata : (world.party side.other).exchanging = some data)
    (hreturned : world.server.connections (pair.own side.other) = .returned data response)
    {outcome : Except CppError Unit}
    (hafter : after = world.put side.other
      ((world.party side.other).answered crypto response outcome))
    (hquiet : (after.replicas pair).Quiet (pair.keyIn crypto) side.other)
    (hfollows : (after.replicas pair).Follows (pair.keyIn crypto) side) :
    after.Delivering pair crypto side := by
  subst hafter
  set after := world.put side.other ((world.party side.other).answered crypto response outcome)
    with hafter
  have hreader : after.party side.other =
      (world.party side.other).answered crypto response outcome := world.put_self _
  have hsender : after.party side = world.party side :=
    world.put_of_ne _ fun heq ↦ side.other_ne heq.symm
  have haccepted : after.Accepted pair side = world.Accepted pair side := accepted_congr hsender rfl
  have hunread : world.unread pair side.other = batch response ++ after.unread pair side.other := by
    rw [unread, unread, hreader, System.unread, System.unread, hasking, if_pos rfl, hreturned]
    rfl
  have hheld : after.heldKey pair side.other =
      inForce (pair.keyIn crypto side.other) (world.heldKey pair side.other) (batch response) := by
    rw [heldKey, hreader]
    exact (hsound.respond hdata hreturned outcome).2 (pair.id side.other.other)
  have hdelivered : after.delivered pair side.other = world.delivered pair side.other := by
    rw [delivered, delivered, hreader, hunread]
    simp [Party.answered]
  have hlegible := h.legible
  rw [hunread, eachUnder_append, ← hheld, ← haccepted] at hlegible
  refine ⟨hquiet, hfollows, by rw [hsender]; exact h.sized, ?_, ?_, ?_, hlegible.2, ?_⟩
  · rw [hdelivered]
    exact h.numbered
  · rw [hdelivered]
    exact h.ordered
  · rw [hdelivered, haccepted]
    exact h.stored
  · intro round hround earlier message later hbatch text hsent
    rw [hreader] at hround
    rcases List.mem_append.mp hround with hbefore | hnew
    · rw [haccepted] at hsent
      exact h.shown round hbefore earlier message later hbatch text hsent
    · obtain rfl := List.mem_singleton.mp hnew
      change batch response = _ at hbatch
      have hread := hlegible.1
      rw [hbatch] at hread
      obtain ⟨htype, hfrom, key, hkey, hcontent⟩ := hread.meets_at text hsent
      rw [← Side.other_other side] at hfrom
      exact hsound.shows hcrypto hreturned hbatch htype hfrom hkey hcontent

/-- A client that begins a round delivers nothing. -/
theorem Delivering.begin (h : world.Delivering pair crypto side) {actor : Side} {party : Party}
    (hbefore : (world.party actor).asking = false) (hasking : party.asking = false)
    (hrounds : party.rounds = (world.party actor).rounds)
    (hheld : actor = side.other →
      party.client.ctx.symmetricKeyFor (pair.id actor.other) = world.heldKey pair actor)
    (hsized : actor = side → party.choice = some sendTextChoice →
      (typedText party.began.console).length < 2 ^ 32)
    (hquiet : ((world.put actor party).replicas pair).Quiet (pair.keyIn crypto) side.other)
    (hfollows : ((world.put actor party).replicas pair).Follows (pair.keyIn crypto) side) :
    (world.put actor party).Delivering pair crypto side := by
  have hparty : (world.put actor party).party actor = party := world.put_self _
  have hothers : ∀ other ≠ actor, (world.put actor party).party other = world.party other :=
    fun other hother ↦ world.put_of_ne _ hother
  have hnone : (world.put actor party).response pair actor = none :=
    response_of_not_asking (by rwa [hparty])
  refine h.still hquiet hfollows ?_ le_rfl ?_ ?_ ?_ fun msgId text hsent ↦ ?_
  · by_cases hactor : side = actor
    · subst hactor
      rw [hparty]
      exact hsized rfl
    · rw [hothers side hactor]
      exact h.sized
  · by_cases hactor : side.other = actor
    · subst hactor
      rw [heldKey, hparty]
      exact hheld rfl
    · rw [heldKey, heldKey, hothers _ hactor]
  · by_cases hactor : side.other = actor
    · subst hactor
      rw [hparty]
      exact hrounds
    · rw [hothers _ hactor]
  · rw [unread, unread]
    by_cases hactor : side.other = actor
    · subst hactor
      rw [hparty, hasking, hbefore]
      rfl
    · rw [hothers _ hactor]
      rfl
  · by_cases hactor : side = actor
    · subst hactor
      exact accepted_of_code (by rw [hparty, hrounds]) (by simp [hnone]) hsent
    · rwa [accepted_congr (hothers side hactor) rfl] at hsent

/-- A client that sends its request delivers nothing. -/
theorem Delivering.send (h : world.Delivering pair crypto side) (hsound : world.Sound pair crypto)
    {actor : Side} {data : Bytes} (hdata : (world.party actor).exchanging = some data)
    (hasking : (world.party actor).asking = false) (ambient : Server.Ambient)
    (hquiet : ((world.sending pair actor data ambient).replicas pair).Quiet (pair.keyIn crypto)
      side.other)
    (hfollows : ((world.sending pair actor data ambient).replicas pair).Follows (pair.keyIn crypto)
      side) : (world.sending pair actor data ambient).Delivering pair crypto side := by
  have hparty : ∀ other, ((world.sending pair actor data ambient).party other).client =
        (world.party other).client ∧
      ((world.sending pair actor data ambient).party other).rounds = (world.party other).rounds ∧
      ((world.sending pair actor data ambient).party other).choice = (world.party other).choice ∧
      ((world.sending pair actor data ambient).party other).began = (world.party other).began := by
    intro other
    change ((world.put actor _).party other).client = _ ∧
      ((world.put actor _).party other).rounds = _ ∧
      ((world.put actor _).party other).choice = _ ∧ ((world.put actor _).party other).began = _
    by_cases hother : other = actor
    · subst hother
      rw [put_self]
      exact ⟨rfl, rfl, rfl, rfl⟩
    · rw [put_of_ne _ _ hother]
      exact ⟨rfl, rfl, rfl, rfl⟩
  refine h.still hquiet hfollows ?_ (congrArg _ (Server.ServerState.settle_tables _ _ _ _)).ge ?_
    (hparty side.other).2.1 (hsound.unread_sending hdata hasking ambient side.other).2
    fun msgId text hsent ↦ ?_
  · rw [(hparty side).2.2.1, (hparty side).2.2.2]
    exact h.sized
  · rw [heldKey, heldKey, (hparty side.other).1]
  · by_cases hactor : side = actor
    · -- what the server says at once is an error
      subst hactor
      refine accepted_of_code (hparty side).2.1 (fun response hresponse ↦ ?_) hsent
      obtain ⟨request, hreturned⟩ := returned_of_response hresponse
      rw [Server.start_answer (answer_of_settle hreturned), Server.responseCode_errorResponse]
      simp
    · have hsame : (world.sending pair actor data ambient).party side = world.party side :=
        world.put_of_ne _ hactor
      rwa [accepted_congr hsame (Server.ServerState.settle_connections_of_ne _ _ _
        fun heq ↦ hactor (pair.own_injective heq))] at hsent

/-- The client that sends the texts processes a response. -/
theorem Delivering.answer (h : world.Delivering pair crypto side) {response : Bytes}
    (hresponse : world.response pair side = some response) {outcome : Except CppError Unit}
    (hafter : after = world.put side ((world.party side).answered crypto response outcome))
    (hquiet : (after.replicas pair).Quiet (pair.keyIn crypto) side.other)
    (hfollows : (after.replicas pair).Follows (pair.keyIn crypto) side) :
    after.Delivering pair crypto side := by
  have hsender : after.party side = (world.party side).answered crypto response outcome := by
    rw [hafter, put_self]
  have hreader : after.party side.other = world.party side.other := by
    rw [hafter]
    exact world.put_of_ne _ side.other_ne
  have hserver : after.server = world.server := by rw [hafter]; rfl
  have hnone : after.response pair side = none :=
    response_of_not_asking (by rw [hsender]; rfl)
  refine h.still hquiet hfollows ?_ (by rw [hserver]) ?_ (by rw [hreader]) ?_
    fun msgId text hsent ↦ ?_
  · rw [hsender]
    exact h.sized
  · rw [heldKey, heldKey, hreader]
  · rw [unread, unread, hreader, hserver]
  · rcases hsent with ⟨round, hround, hsent⟩ | ⟨other, hother, -⟩
    · rw [hsender] at hround
      rcases List.mem_append.mp hround with hbefore | hnew
      · exact .inl ⟨round, hbefore, hsent⟩
      · obtain rfl := List.mem_singleton.mp hnew
        exact .inr ⟨response, hresponse, hsent⟩
    · rw [hnone] at hother
      cases hother

section Calls

variable {connection : ℕ} {request : Bytes} {ambient : Server.Ambient} {stage : Server.Stage}
  {tables : Server.Tables} {row : Option Server.MessageRow} {progress : Server.Progress}

/-- A connection that has returned a response has come to it. -/
theorem answer_of_settled {server : Server.ServerState Server.Staged} {other response : Bytes}
    (h : (world.settled server connection request ambient progress).server.connections connection =
      .returned other response) : progress = .answer response :=
  answer_of_settle h

/-- A call of another connection accepts no text of a client. -/
theorem accepted_settled_of_ne (hown : connection ≠ pair.own side) :
    (world.settled (world.server.afterCall tables row) connection request ambient progress).Accepted
      pair side = world.Accepted pair side :=
  accepted_congr rfl ((Server.ServerState.settle_connections_of_ne
    (world.server.afterCall tables row) request _ (Ne.symm hown)).trans rfl)

/-- The text of a client is stored: it is encrypted under the key that the client holds. Assumes: a
text whose length the cipher takes. -/
theorem Sound.stored_text (h : world.Sound pair crypto)
    (hbusy : world.server.connections (pair.own side) = .busy request (ambient, .storeMessage))
    (hchoice : (world.party side).choice = some sendTextChoice)
    (htarget : typedTarget (world.party side).began = some (pair.id side.other))
    (hsized : (typedText (world.party side).began.console).length < 2 ^ 32) :
    Server.requestedIdOf request = (pair.id side.other).val ∧
      Server.messageTypeOf request = sendText ∧
      ¬pair.SendsKey side request ∧ ∃ key, world.heldKey pair side = some key ∧
        Server.contentOf request =
          crypto.aesEncrypt key (typedText (world.party side).began.console) := by
  have hdata := (h.response_busy hbusy).1
  have hvalid : Server.ValidMessage request := (h.server.answers.sound.ready _ _ _ _ hbusy).2.2
  cases h.stage side with
  | closed outcome hrest =>
    rw [Party.exchanging, hrest] at hdata
    cases hdata
  | pull hrest hpull =>
    rw [hpull] at hchoice
    cases hchoice
  | main choice data hnonempty hrest hmain hacted =>
    rw [Party.exchanging_behindAction hnonempty hrest] at hdata
    obtain rfl := Option.some.inj hdata
    obtain rfl := Option.some.inj (hmain.symm.trans hchoice)
    have hsize : (world.party side).began.ctx.clientID.val.length = clientIdSize :=
      (world.party side).began.ctx.clientID.property
    rw [heldKey]
    generalize hctx : (world.party side).client.ctx = ctx at hacted ⊢
    generalize houtcome : (Except.ok data : Except CppError Bytes) = outcome at hacted
    cases hacted with
    | sendingText target key _ htyped hkey =>
      cases houtcome
      obtain rfl := Option.some.inj (htyped.symm.trans htarget)
      have htypeOf : Server.messageTypeOf (Server.requestFrame
          (world.party side).began.ctx.clientID.val requestAllMessages
          (Server.messagePayload (pair.id side.other).val sendText (crypto.aesEncrypt key
            ((typedText (world.party side).began.console).take
              ((typedText (world.party side).began.console).length % 2 ^ 32))))) = sendText :=
        Server.messageTypeOf_message hsize (pair.id side.other).property (by simp) _
      refine ⟨Server.requestedIdOf_message hsize (pair.id side.other).property _, htypeOf,
        fun hsends ↦ ?_, key, hkey, ?_⟩
      · rw [Pair.SendsKey, htypeOf] at hsends
        simp at hsends
      · rw [Server.contentOf_validMessage hsize (pair.id side.other).property hvalid,
          Nat.mod_eq_of_lt hsized, List.take_length]
    | cancelled => cases houtcome; exact absurd rfl hnonempty
    | dropped => cases houtcome; exact absurd rfl hnonempty
    | endless => cases houtcome
    | failing => cases houtcome
    | registering name rest hregister => cases hregister
    | asking code hasking => simp at hasking
    | askingKey target hasking => cases hasking
    | requestingKey target hrequesting => cases hrequesting
    | sendingKey target publicKey cipher hsending => cases hsending

/-- A text is accepted by the call that stores it. -/
theorem Delivering.accepted_stored (h : world.Delivering pair crypto side)
    (hsound : world.Sound pair crypto)
    (hbusy : world.server.connections connection = .busy request (ambient, .storeMessage))
    {msgId : ℕ} {text : Bytes}
    (hsent : (world.settled (world.server.afterCall tables row) connection request ambient
      (.answer (Server.sentResponse (Server.requestedIdOf request)
        (world.server.tables.sequence + 1)))).Accepted pair side msgId text) :
    world.Accepted pair side msgId text ∨
      connection = pair.own side ∧ msgId = world.server.tables.sequence + 1 ∧
        (world.party side).choice = some sendTextChoice ∧
        typedTarget (world.party side).began = some (pair.id side.other) ∧
        typedText (world.party side).began.console = text := by
  by_cases hown : connection = pair.own side
  · subst hown
    rcases hsent with ⟨round, hround, hsent⟩ | ⟨response, hresponse, hsent⟩
    · exact .inl (.inl ⟨round, hround, hsent⟩)
    obtain ⟨other, hreturned⟩ := returned_of_response hresponse
    obtain rfl := Server.Progress.answer.inj (answer_of_settled hreturned)
    have htarget := (hsound.stored_text hbusy hsent.choice hsent.target (h.sized hsent.choice)).1
    refine .inr ⟨rfl, ?_, hsent.choice, hsent.target, hsent.text⟩
    have hread := hsent.msgId
    by_cases hid : world.server.tables.sequence + 1 < 2 ^ 32
    · rw [Server.sentResponse_eq hid (Server.requestedIdOf_length_le request), htarget] at hread
      exact Except.ok.inj (hread.symm.trans (readUint32LE_sent (pair.id side.other) hid))
    · have hcode := hsent.code
      rw [Server.sentResponse_eq_error (not_lt.mp hid), Server.responseCode_errorResponse] at hcode
      simp at hcode
  · exact .inl (accepted_settled_of_ne hown ▸ hsent)

/-- A call delivers the message that it stores. Assumes: what is selected for a client fits a
response. -/
theorem Delivering.call (h : world.Delivering pair crypto side) (hsound : world.Sound pair crypto)
    (hbusy : world.server.connections connection = .busy request (ambient, stage))
    (hfits : stage = .fetchMessages →
      ((world.server.tables.waitingFor (Server.requesterIdOf request)).flatMap
        Server.recordBytes).length < 2 ^ 32)
    (hstep : Server.StageStep world.server.tables request ambient stage tables row progress)
    (hafter : after = world.settled (world.server.afterCall tables row) connection request ambient
      progress)
    (hquiet : (after.replicas pair).Quiet (pair.keyIn crypto) side.other)
    (hfollows : (after.replicas pair).Follows (pair.keyIn crypto) side) :
    after.Delivering pair crypto side := by
  have htables : after.server.tables = tables := by
    rw [hafter]
    exact Server.ServerState.settle_tables _ _ _ _
  have hunread : after.unread pair side.other = world.unread pair side.other ++
      Server.messagesFor row.toList (pair.id side.other).val := by
    rw [hafter]
    exact (hsound.unread_call hbusy hfits hstep side.other).2
  have hparty : after.party = world.party := by rw [hafter]; rfl
  rcases stored_cases hstep with ⟨rfl, hcode⟩ | ⟨rfl, rfl, rfl⟩
  · -- nothing is stored, and nothing is answered with an ID
    refine h.still hquiet hfollows (by rw [hparty]; exact h.sized)
      (by rw [htables]; exact hstep.sequence_le) (by rw [heldKey, heldKey, hparty]) (by rw [hparty])
      (hunread.trans (List.append_nil _)) fun msgId text hsent ↦ ?_
    rw [hafter] at hsent
    by_cases hown : connection = pair.own side
    · subst hown
      refine accepted_of_code (by rfl) (fun response hresponse ↦ ?_) hsent
      obtain ⟨other, hreturned⟩ := returned_of_response hresponse
      exact hcode response (answer_of_settled hreturned)
    · exact accepted_settled_of_ne hown ▸ hsent
  · -- a text that is accepted now is the one that is stored
    have hsequence : tables.sequence = world.server.tables.sequence + 1 := by
      cases hstep
      rfl
    have hnew : ∀ msgId text, after.Accepted pair side msgId text →
        world.Accepted pair side msgId text ∨
          connection = pair.own side ∧ msgId = world.server.tables.sequence + 1 ∧
            (world.party side).choice = some sendTextChoice ∧
            typedTarget (world.party side).began = some (pair.id side.other) ∧
            typedText (world.party side).began.console = text := by
      intro msgId text hsent
      rw [hafter] at hsent
      exact h.accepted_stored hsound hbusy hsent
    by_cases hto : Server.requestedIdOf request = (pair.id side.other).val
    · rw [Option.toList_some, Server.messagesFor_singleton hto] at hunread
      refine h.extend hquiet hfollows (by rw [hparty]; exact h.sized) (by rw [htables]; omega)
        (by rw [heldKey, heldKey, hparty]) (by rw [hparty]) hunread (fun message hmessage ↦ ?_)
        (List.pairwise_singleton _ _) (fun msgId text hsent ↦ ?_) ⟨fun text hsent ↦ ?_, trivial⟩
      · rw [List.mem_singleton.mp hmessage, htables, hsequence]
        exact ⟨Nat.lt_succ_self _, le_rfl⟩
      · exact (hnew msgId text hsent).imp_right fun hnow ↦
          ⟨_, List.mem_singleton_self _, hnow.2.1.symm⟩
      · rcases hnew _ text hsent with hbefore | ⟨rfl, -, hchoice, htarget, rfl⟩
        · exact absurd (h.accepted_le hbefore) (Nat.not_succ_le_self _)
        obtain ⟨-, htype, hsends, key, hheld, hcontent⟩ :=
          hsound.stored_text hbusy hchoice htarget (h.sized hchoice)
        obtain ⟨hdata, hnone⟩ := hsound.response_busy hbusy
        refine ⟨htype, (hsound.running (Server.ServerState.running_of_busy hbusy)).2.2,
          key, ?_, hcontent⟩
        refine h.follows key hheld ?_
        change world.keyPhase pair side = .settled
        rw [keyPhase_exchanging hdata (by simp [hnone]), if_neg hsends]
    · rw [Option.toList_some, Server.messagesFor_singleton_other hto, List.append_nil] at hunread
      refine h.still hquiet hfollows (by rw [hparty]; exact h.sized) (by rw [htables]; omega)
        (by rw [heldKey, heldKey, hparty]) (by rw [hparty]) hunread fun msgId text hsent ↦ ?_
      rcases hnew msgId text hsent with hbefore | ⟨rfl, -, hchoice, htarget, -⟩
      · exact hbefore
      · exact absurd (hsound.stored_text hbusy hchoice htarget (h.sized hchoice)).1 hto

/-- A request of somebody else delivers nothing. -/
theorem Delivering.arrive (h : world.Delivering pair crypto side) (hsound : world.Sound pair crypto)
    (hothers : ∀ side, connection ≠ pair.own side)
    (hids : ∀ side, Server.requesterIdOf request ≠ (pair.id side).val)
    (hafter : after = world.settled world.server connection request ambient (Server.start request))
    (hquiet : (after.replicas pair).Quiet (pair.keyIn crypto) side.other)
    (hfollows : (after.replicas pair).Follows (pair.keyIn crypto) side) :
    after.Delivering pair crypto side := by
  have htables : after.server.tables = world.server.tables := by
    rw [hafter]
    exact Server.ServerState.settle_tables _ _ _ _
  have hparty : after.party = world.party := by rw [hafter]; rfl
  have hconnection : after.server.connections (pair.own side) =
      world.server.connections (pair.own side) := by
    rw [hafter]
    exact Server.ServerState.settle_connections_of_ne _ request _ (Ne.symm (hothers side))
  refine h.still hquiet hfollows (by rw [hparty]; exact h.sized) (by rw [htables])
    (by rw [heldKey, heldKey, hparty]) (by rw [hparty]) ?_ fun msgId text hsent ↦ ?_
  · rw [hafter]
    exact (hsound.unread_arrive hothers hids ambient side.other).2
  · rwa [accepted_congr (by rw [hparty]) hconnection] at hsent

end Calls

/-- Every event keeps it. Assumes: nobody else uses the IDs of the two clients, every selection fits
a response, keys are accepted, the other client makes no key, and texts have a length that the
cipher takes. -/
theorem Delivering.step (h : world.Delivering pair crypto side) (hsound : world.Sound pair crypto)
    (hcrypto : crypto.Correct) (limit : Option ℕ) {event : WorldEvent}
    (hids : OwnIds pair world event) (hfits : SelectionsFit world event)
    (haccepted : KeysAccepted pair world event) (hnever : ¬MakesKey pair side.other world event)
    (htext : TextFits side world event) :
    (world.step (Server.ServerState.stagedStep limit) pair crypto event).Delivering
      pair crypto side := by
  have hkept : let next := world.step (Server.ServerState.stagedStep limit) pair crypto event
      (next.replicas pair).Quiet (pair.keyIn crypto) side.other ∧
        (next.replicas pair).Follows (pair.keyIn crypto) side := by
    by_cases hmakes : MakesKey pair side world event
    · have hset := hsound.setsValue hcrypto limit hmakes
      exact ⟨hset.quiet h.quiet, hset.follows⟩
    · have hnobody : ∀ actor, ¬MakesKey pair actor world event := by
        intro actor
        by_cases hactor : actor = side
        · rwa [hactor]
        · rwa [Side.eq_other hactor]
      have hmove := hsound.move hcrypto limit hids hfits haccepted hnobody
      exact ⟨hmove.quiet h.quiet, hmove.follows h.quiet h.follows⟩
  refine step_cases (motive := fun after ↦
      (after.replicas pair).Quiet (pair.keyIn crypto) side.other ∧
        (after.replicas pair).Follows (pair.keyIn crypto) side → after.Delivering pair crypto side)
    hsound limit event (fun _ ↦ h)
    (fun actor choice surroundings client outcome hevent hready hexec hboth ↦ ?_)
    (fun actor _ hready hboth ↦ ?_)
    (fun actor data ambient _ hdata hasking hboth ↦
      h.send hsound hdata hasking ambient hboth.1 hboth.2)
    (fun actor data response outcome hevent hdata hasking hreturned hboth ↦ ?_)
    (fun connection request ambient hevent hothers hboth ↦ ?_)
    (fun connection fault request ambient stage tables row progress hevent hbusy hstep hboth ↦
      ?_) hkept
  · have hfree := ((hsound.stage actor).ready hready).2.2
    refine h.begin hfree rfl rfl (fun hactor ↦ ?_) (fun hactor hchoice ↦ ?_) hboth.1 hboth.2
    · subst hactor
      have hbegan : pair.Owns crypto side.other
          (surroundings.apply (world.party side.other).client).ctx := hsound.owns side.other
      have hnot : ¬pair.KeyChoice side.other (surroundings.apply (world.party side.other).client)
          choice := by
        subst hevent
        exact fun hkey ↦ hnever ⟨rfl, hready, hkey⟩
      exact (hbegan.act_other (acted_of_exec hexec) hnot).1
    · subst hevent
      exact htext hactor (Option.some.inj hchoice)
  · have hfree := ((hsound.stage actor).ready hready).2.2
    exact h.begin hfree rfl rfl (fun _ ↦ rfl) (fun _ hchoice ↦ by cases hchoice) hboth.1 hboth.2
  · by_cases hactor : actor = side
    · subst hactor
      have hresponse : world.response pair actor = some response := by
        rw [World.response, if_pos hasking, hreturned]
      exact h.answer hresponse rfl hboth.1 hboth.2
    · obtain rfl := Side.eq_other hactor
      exact h.read hsound hcrypto hasking hdata hreturned rfl hboth.1 hboth.2
  · subst hevent
    exact h.arrive hsound hothers hids rfl hboth.1 hboth.2
  · subst hevent
    exact h.call hsound hbusy (fun hstage ↦ hfits request ambient (hstage ▸ hbusy)) hstep rfl
      hboth.1 hboth.2

end Steps

/-! ### Delivery -/

section Delivery

variable {limit : Option ℕ} {pair : Pair} {crypto : Crypto} {side : Side}
  {world start : World Server.Handler} {event : WorldEvent}

/-- What the runs keep to in which one client sends keys and texts to the other one. -/
def OneSided (pair : Pair) (side : Side) (world : World Server.Handler) (event : WorldEvent) :
    Prop :=
  Regular pair world event ∧ ¬MakesKey pair side.other world event ∧ TextFits side world event

instance (pair : Pair) (side : Side) (world : World Server.Handler) :
    DecidablePred (OneSided pair side world) := fun _ ↦
  inferInstanceAs (Decidable (_ ∧ _ ∧ _))

theorem TextFits.staged {world : World Server.Staged} (h : TextFits side world.unstage event) :
    TextFits side world event := by
  cases event with
  | choose actor choice surroundings => exact h
  | _ => trivial

theorem MakesKey.unstage {world : World Server.Staged} (h : MakesKey pair side world event) :
    MakesKey pair side world.unstage event := by
  cases event with
  | choose actor choice surroundings => exact h
  | _ => exact h

/-- At the start no text has been accepted, and none is waiting. -/
theorem Start.delivering {staged : World Server.Staged} (h : staged.unstage.Start limit pair crypto)
    (side : Side) : staged.Delivering pair crypto side := by
  have hidle : ∀ side, staged.party side = .idle (staged.party side).client := h.idle
  have hrounds : ∀ side, (staged.party side).rounds = [] := fun side ↦ by rw [hidle side]; rfl
  have hasking : ∀ side, (staged.party side).asking = false := fun side ↦ by rw [hidle side]; rfl
  have hnone : ∀ msgId text, ¬staged.Accepted pair side msgId text := by
    rintro msgId text (⟨round, hround, -⟩ | ⟨response, hresponse, -⟩)
    · rw [hrounds] at hround
      cases hround
    · rw [response_of_not_asking (hasking side)] at hresponse
      cases hresponse
  have hquiet := (h.silent side.other).quiet crypto
  have hfollows := h.follows side
  rw [replicas_unstage] at hquiet hfollows
  have hdelivered : staged.delivered pair side.other =
      staged.server.tables.waitingFor (pair.id side.other).val := by
    rw [delivered, hrounds, unread, System.unread, hasking]
    rfl
  refine ⟨hquiet, hfollows, fun hchoice ↦ ?_, fun message hmessage ↦ ?_, ?_,
    fun msgId text hsent ↦ absurd hsent (hnone msgId text),
    .of_forall fun _ message _ text hsent ↦ absurd hsent (hnone message.id text),
      fun round hround ↦ ?_⟩
  · rw [hidle] at hchoice
    cases hchoice
  · exact waitingFor_le (hdelivered ▸ hmessage)
  · rw [hdelivered]
    exact waitingFor_increasing staged.server.tables _
  · rw [hrounds] at hround
    cases hround

/-- Every text that one client sends is delivered and decrypted. Assumes: two clients that have had
nothing to do with each other; a run in which no exchange of theirs throws, nobody else uses their
IDs, the payloads of `2104` responses fit their length field, every request with a key is accepted,
the other client sends no key to this one, and texts have a length that the cipher takes. Then the
IDs of the messages that the other client has read or will read increase, and a text that the server
has accepted is among these messages; and when the other client reads it, in whatever batch, it
shows what was typed. -/
theorem texts_delivered (limit : Option ℕ) {pair : Pair} {crypto : Crypto}
    (hcrypto : crypto.Correct)
    {start : World Server.Handler} (hstart : start.Start limit pair crypto) (side : Side)
    {events : List WorldEvent}
    (hrun : Along (step (Server.ServerState.step limit) pair crypto)
      (OneSided pair side) start events) :
    let world := runEvents (step (Server.ServerState.step limit) pair crypto) start events
    (world.delivered pair side.other).Pairwise (fun first second ↦ first.id < second.id) ∧
      ∀ sent ∈ (world.party side).rounds, ∀ msgId text,
        pair.TextSent side sent.choice sent.began sent.response msgId text →
          (∃ message ∈ world.delivered pair side.other, message.id = msgId) ∧
            ∀ round ∈ (world.party side.other).rounds, ∀ earlier message later,
              batch round.response = earlier ++ message :: later → message.id = msgId →
                round.Shows crypto (pair.privateKey side.other) earlier text := by
  intro world
  let Kept (world : World Server.Handler) : Prop := ∃ staged : World Server.Staged,
    world = staged.unstage ∧ staged.Sound pair crypto ∧ staged.Delivering pair crypto side
  have hkept : Kept world := by
    refine hrun.invariant (P := Kept) (fun world event hguard hbefore ↦ ?_) ?_
    · obtain ⟨staged, rfl, hsound, hdelivering⟩ := hbefore
      obtain ⟨⟨hids, hfits, haccepted⟩, hnever, htext⟩ := hguard
      exact ⟨_, step_unstage limit pair crypto staged event,
        hsound.step limit hids.staged hfits.staged,
        hdelivering.step hsound hcrypto limit hids.staged hfits.staged haccepted.staged
          (fun hmakes ↦ hnever hmakes.unstage) htext.staged⟩
    · obtain ⟨staged, rfl, hsound⟩ := hstart.running hcrypto
      exact ⟨staged, rfl, hsound, hstart.delivering side⟩
  obtain ⟨staged, hworld, -, hdelivering⟩ := hkept
  have hparty : world.party = staged.party := by rw [hworld]; rfl
  have hunread : world.unread pair side.other = staged.unread pair side.other := by
    rw [hworld]
    exact congrFun (congrArg Replicas.incoming (replicas_unstage staged pair)) side.other
  have hdelivered : world.delivered pair side.other = staged.delivered pair side.other := by
    rw [delivered, delivered, hparty, hunread]
  rw [hparty, hdelivered]
  refine ⟨hdelivering.ordered, fun sent hsent msgId text htext ↦ ?_⟩
  have haccepted : staged.Accepted pair side msgId text := .inl ⟨sent, hsent, htext⟩
  refine ⟨hdelivering.stored msgId text haccepted,
    fun round hround earlier message later hbatch hid ↦ ?_⟩
  subst hid
  exact hdelivering.shown round hround earlier message later hbatch text haccepted

end Delivery

/-! ### A text between two keys -/

/-- A client sends a text. -/
def texting (side : Side) (lines : List Bytes) : List WorldEvent :=
  round side sendTextChoice (typing (nameOf side.other :: lines) 0)

/-- A client sends a key, a text and another key, and the other client pulls them together. -/
def rekeyed : List WorldEvent :=
  keying .first 7 ++ texting .first [[104, 105], [33]] ++ keying .first 9 ++ pulling .second

theorem texts_delivered_rekeyed :
    let world := runEvents (step (Server.ServerState.step none) numbered .tagged) meeting rekeyed
    (∃ message ∈ world.delivered numbered .second, message.id = 2) ∧
      ∀ round ∈ (world.party .second).rounds, ∀ earlier message later,
        batch round.response = earlier ++ message :: later → message.id = 2 →
          round.Shows .tagged (numbered.privateKey .second) earlier [104, 105, 10, 33, 10] := by
  have hrun : Along (step (Server.ServerState.step none) numbered .tagged)
    (OneSided numbered .first)
      meeting rekeyed := by decide +kernel
  have hsent : ∃ sent ∈ ((runEvents (step (Server.ServerState.step none) numbered .tagged) meeting
      rekeyed).party .first).rounds,
      numbered.TextSent .first sent.choice sent.began sent.response 2 [104, 105, 10, 33, 10] := by
    decide +kernel
  have hdelivered := texts_delivered none Crypto.tagged_correct meeting_start .first hrun
  generalize runEvents (step (Server.ServerState.step none) numbered .tagged) meeting rekeyed =
    world
    at hsent hdelivered ⊢
  obtain ⟨sent, hround, htext⟩ := hsent
  exact hdelivered.2 sent hround 2 _ htext

end World

end MessageU.System
