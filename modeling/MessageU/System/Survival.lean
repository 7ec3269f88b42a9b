import MessageU.Client.Exceptions
import MessageU.System.FriendCache
import MessageU.System.FriendNames
import MessageU.System.Session

/-!
# What ends a client

The loop of `main` ends when an exception comes out of an action, an exchange or the processing of a
response. `survivalSetting` is the main thread in surroundings that do their part (`LoopAnswers`),
with the pull thread beside it, which leaves what the main thread looks at. A round then returns, or
the response was the answer to a message whose target is not in the cache, and this does not happen
(`friend_cache_integrity`).

What other clients send comes in as responses, which mean what the identities say, and as the public
keys in the cache. `Accommodated` says of the latter that the library takes them when the main
thread uses them. Without it a peer that registers with bytes that are no key ends the client
(`garbage_key_fatal`).
-/

set_option autoImplicit false
set_option relaxedAutoImplicit false

namespace MessageU.System

open Library Client Interaction

/-! ### The answer to a message -/

section Replies

variable {desk : Desk}

/-- A function that returns ends in its value. -/
theorem eq_ok_of_sure {outcome : Except CppError Unit}
    (h : ∃ value, outcome = .ok value ∧ True) : outcome = .ok () := by
  obtain ⟨⟨⟩, hvalue, -⟩ := h
  exact hvalue

/-- The answer to a message is processed, or its target is not in the cache. -/
theorem ensures_responseMessageSent (target : ClientId) {msgId : ℕ} (hfits : msgId < 2 ^ 32) :
    (responseMessageSent (Reply.sent target msgId).bytes).Ensures Answers
      (fun outcome _ ↦ outcome = .ok () ∨ outcome = .error notCached) desk := by
  have hread : readClientID (Reply.sent target msgId).bytes headerSize = .ok target :=
    readClientID_reply rfl
  have hsize := sent_length target msgId
  rw [responseMessageSent, if_neg (by rw [hsize]; exact lt_irrefl _), hread]
  refine ensures_steady trivial fun entry ↦ ?_
  cases entry with
  | none => exact .inr rfl
  | some entry =>
    dsimp only
    rw [readUint32LE_sent target hfits]
    have hprinted : Sure (ask (.print (.messageSent entry.friendName msgId))) desk :=
      sure_call trivial
    exact hprinted.mono fun _ _ hreturns ↦ .inl (eq_ok_of_sure hreturns)

/-- An answer of the server is processed, or it is the answer to a message whose target is not in
the cache. -/
theorem ensures_reply {reply : Reply} (hfits : reply.Encodable) :
    (responseClientMain reply.bytes).Ensures Answers
      (fun outcome _ ↦ outcome = .ok () ∨
        ((∃ target msgId, reply = .sent target msgId) ∧ outcome = .error notCached)) desk := by
  have hsure : Sure (responseClientMain reply.bytes) desk →
      (responseClientMain reply.bytes).Ensures Answers
        (fun outcome _ ↦ outcome = .ok () ∨
          ((∃ target msgId, reply = .sent target msgId) ∧ outcome = .error notCached)) desk :=
    fun h ↦ h.mono fun _ _ hreturns ↦ .inl (eq_ok_of_sure hreturns)
  have hmain := responseClientMain_reply reply
  cases reply with
  | failed => exact hsure (by rw [hmain]; exact sure_call trivial)
  | registered id =>
    refine hsure ?_
    rw [hmain]
    exact sure_responseRegister (readClientID_reply (List.append_nil _).symm)
  | listed clients => exact hsure (by rw [hmain]; exact sure_responseClientList hfits)
  | key id publicKey => exact hsure (by rw [hmain]; exact sure_responsePublicKey id publicKey)
  | sent target msgId =>
    rw [hmain]
    exact (ensures_responseMessageSent target hfits).mono fun _ _ h ↦
      h.imp_right fun herror ↦ ⟨⟨target, msgId, rfl⟩, herror⟩
  | waiting messages => exact hsure (by rw [hmain]; exact sure_responseWaitingMessages hfits)

end Replies

/-! ### A round of the main thread -/

/-- What the main thread sees: its desk, and its last exchange. -/
structure Sight where
  desk : Desk
  exchanged : Option (Bytes × Bytes)

/-- What a call answers when the surroundings do their part. The response of an exchange means what
some identities say. -/
def LoopAnswers (before : Sight) : (call : LoopCall) → Except CppError call.Result → Sight → Prop
  | .method call, answer, after =>
    Answers before.desk call answer after.desk ∧ after.exchanged = before.exchanged
  | .sendAndReceive data, answer, after => ∃ response identities, answer = .ok response ∧
    Means identities data response ∧ after = ⟨before.desk, some (data, response)⟩

/-- A round returns, or the answer to a message does not find its target. -/
def Survives (outcome : Except CppError Unit) (exchanged : Option (Bytes × Bytes)) : Prop :=
  outcome = .ok () ∨ (outcome = .error notCached ∧ ∃ request response,
    exchanged = some (request, response) ∧ AnswersMessage request response)

/-- What a function ensures it ensures when a loop calls it. -/
theorem ensures_here {α : Type} {post : Except CppError α → Desk → Prop} {program : Program α}
    {sight : Sight} (h : program.Ensures Answers post sight.desk) :
    (here program).Ensures LoopAnswers
      (fun outcome after ↦ post outcome after.desk ∧ after.exchanged = sight.exchanged) sight := by
  suffices hlast : ∀ last, sight.exchanged = last → (here program).Ensures LoopAnswers
      (fun outcome after ↦ post outcome after.desk ∧ after.exchanged = last) sight from hlast _ rfl
  intro last hlast
  induction program generalizing sight with
  | finished outcome => exact ⟨h, hlast⟩
  | request call resume ih =>
    intro answer after hanswer
    exact ih answer (h answer after.desk hanswer.1) (hanswer.2.trans hlast)

/-- Assumes: the prompt of the action gets a name, and more rounds than lines. -/
theorem ensures_mainTurn {sight : Sight} {rounds choice : ℕ}
    (hprompted : sight.desk.Prompted choice)
    (hrounds : sight.desk.console.length < rounds) :
    (mainTurn rounds choice).Ensures LoopAnswers
      (fun outcome after ↦ Survives outcome after.exchanged) sight := by
  have haction := ensures_here (sure_handleMenuChoice hprompted hrounds)
  refine haction.attempt fun outcome after hafter ↦ ?_
  obtain ⟨⟨data, rfl, -⟩, -⟩ := hafter
  rw [proceed_ok]
  split_ifs
  · exact .inl rfl
  · rintro answer read ⟨response, identities, rfl, hmeans, rfl⟩
    obtain ⟨reply, hintends, hfits, -, rfl⟩ := hmeans
    refine (ensures_here (ensures_reply hfits)).mono fun outcome final hfinal ↦ ?_
    refine hfinal.1.imp_right fun herror ↦ ⟨herror.2, data, reply.bytes, hfinal.2, ?_⟩
    obtain ⟨⟨target, msgId, rfl⟩, -⟩ := herror
    exact
      { requestCode := hintends.1
        responseCode := codeOf_reply _
        target := ⟨target, readClientID_reply rfl, hintends.2.symm⟩ }

/-! ### The setting of a thread -/

/-- What the main thread sees of a client. -/
def Shared.sight (shared : Shared) : Sight where
  desk := ⟨shared.client.ctx.hasClientID, shared.client.console⟩
  exchanged := shared.exchanged .main

/-- What the answer to a call is like, for the main thread and for the pull thread. -/
def Answered : Thread → Shared → (call : LoopCall) → Except CppError call.Result → Shared → Prop
  | .main, before, call, answer, after => LoopAnswers before.sight call answer after.sight
  | .pull, _, .sendAndReceive data, .ok response, _ =>
    ∃ identities, Means identities data response
  | .pull, _, _, _, _ => True

/-- The main thread relies on what it sees. The pull thread learns and pulls. -/
def survivalSetting (crypto : Crypto) (thread : Thread) : Setting LoopCalls CppError Shared where
  rely before after := thread = .main → after.sight = before.sight
  allowed _ call := thread = .pull → match call with
    | .method call => call.Learns
    | .sendAndReceive data => Server.codeOf data = requestWaitingMessages
  step before call answer after :=
    (∃ response, serve crypto thread response before call = (after, answer)) ∧
      Answered thread before call answer after

/-- What a round ends with. -/
def SurvivalEnds : Thread → Except CppError Unit → Shared → Prop
  | .main, outcome, shared => Survives outcome shared.sight.exchanged
  | .pull, _, _ => True

section Setting

variable {crypto : Crypto} {shared : Shared}

theorem tolerant_survivalSetting (crypto : Crypto) (thread : Thread) :
    (survivalSetting crypto thread).Tolerant where
  refl := fun _ _ ↦ rfl
  trans := fun h hnext hmain ↦ (hnext hmain).trans (h hmain)

/-- A call that learns leaves what the main thread sees. -/
theorem sight_learns {call : ClientCall} (h : call.Learns) (crypto : Crypto) (shared : Shared) :
    Shared.sight { shared with client := (call.exec crypto shared.client).1 } = shared.sight := by
  cases call <;> first | rfl | exact h.elim

theorem compatible_survivalSetting (crypto : Crypto) :
    Team.Compatible (survivalSetting crypto) := by
  rintro first second hne state call answer after hallowed ⟨⟨response, hserve⟩, -⟩ rfl
  have hpull : first = .pull := by
    cases first with
    | main => exact absurd rfl hne
    | pull => rfl
  subst hpull
  cases call with
  | method call =>
    cases hserve
    exact sight_learns (hallowed rfl) crypto state
  | sendAndReceive data =>
    have hexchanged := serve_exchanged_of_ne crypto hne.symm response state (.sendAndReceive data)
    rw [hserve] at hexchanged
    have hclient : after.client = state.client := by
      cases response <;> cases hserve <;> rfl
    rw [Shared.sight, Shared.sight, hclient, hexchanged]

/-- The response to a pull grants no client ID. -/
theorem Means.not_granted {identities : List Identity} {request response : Bytes}
    (h : Means identities request response) (hcode : Server.codeOf request ≠ requestRegister) :
    codeOf response ≠ responseRegisterCode := by
  obtain ⟨reply, hintends, -, -, rfl⟩ := h
  rw [codeOf_reply]
  cases reply with
  | registered id => exact absurd hintends.1 hcode
  | failed => simp [Reply.code]
  | listed clients => simp [Reply.code]
  | key id publicKey => simp [Reply.code]
  | sent target msgId => simp [Reply.code]
  | waiting messages => simp [Reply.code]

theorem guarantees_survival_pull :
    pullTurn.Guarantees (survivalSetting crypto .pull) (SurvivalEnds .pull) shared := by
  refine (guarantees_pulling (tolerant_survivalSetting crypto .pull) (fun _ _ h _ ↦ h)
    (fun state id ↦ ⟨fun _ ↦ codeOf_pull id, ?_⟩) shared).mono fun _ _ _ ↦ trivial
  rintro response after ⟨-, identities, hmeans⟩
  refine hmeans.not_granted ?_
  rw [codeOf_pull]
  simp

/-- A round of the main thread. Assumes: the prompt of the action gets a name, and more rounds than
lines. -/
theorem guarantees_survival_main {rounds choice : ℕ} (hprompted : shared.sight.desk.Prompted choice)
    (hrounds : shared.client.console.length < rounds) :
    (mainTurn rounds choice).Guarantees (survivalSetting crypto .main)
      (SurvivalEnds .main) shared := by
  have hrely : ∀ before seen, (survivalSetting crypto .main).rely before seen →
      seen.sight = before.sight := fun _ _ h ↦ h rfl
  refine guarantees_of_ensures Shared.sight hrely (fun _ _ ↦ nofun) (fun _ _ _ _ hstep ↦ ?_)
    (ensures_mainTurn hprompted hrounds)
  exact hstep.2

end Setting

/-! ### Runs -/

namespace Session

/-- The network works. -/
def NetworkWorks (_ : Session) : SessionEvent → Prop
  | .receive _ (.error _) | .fail .. => False
  | .receive _ (.ok _) | .choose .. | .wake | .act _ | .send .. | .serve _ => True

/-- The private key that a call loads can be loaded. -/
def loadable (crypto : Crypto) : LoopCall → Bool
  | .method (.loadPrivateKey privKey) => crypto.loadsPrivateKey privKey
  | _ => true

/-- The private key of the client can be loaded. -/
def KeyLoads (crypto : Crypto) (session : Session) : SessionEvent → Prop
  | .act .main => (session.threads.nextCall .main).all (loadable crypto) = true
  | .act .pull | .choose .. | .wake | .send .. | .receive .. | .fail .. | .serve _ => True

/-- The library takes the public key of a call, and the directory of the file is found. -/
def usable (crypto : Crypto) (client : ClientState) : LoopCall → Bool
  | .method (.loadPublicKey pubKey) => crypto.loadsPublicKey pubKey
  | .method (.rsaEncrypt pubKey plain) =>
    (crypto.rsaEncrypt pubKey client.entropy.rsaSeed plain).isOk
  | .method .openMyInfo => client.disk.opens.isOk
  | _ => true

/-- A prompt gets a name, and the public keys that the main thread uses are usable. -/
def Accommodated (crypto : Crypto) (session : Session) : SessionEvent → Prop
  | .choose choice surroundings =>
    Desk.Prompted ⟨session.ctx.hasClientID, surroundings.console⟩ choice
  | .act .main =>
    (session.threads.nextCall .main).all (usable crypto session.threads.shared.client) = true
  | .act .pull | .wake | .send .. | .receive .. | .fail .. | .serve _ => True

/-- A call of the main thread is answered as it expects. -/
theorem answers_exec {crypto : Crypto} {shared : Shared} {call : ClientCall}
    (hkey : loadable crypto (.method call) = true)
    (husable : usable crypto shared.client (.method call) = true) :
    Answers shared.sight.desk call (call.exec crypto shared.client).2
      (Shared.sight { shared with client := (call.exec crypto shared.client).1 }).desk := by
  have hok : ∀ {α : Type} {outcome : Except CppError α}, outcome.isOk = true →
      ∃ value, outcome = .ok value := by
    intro α outcome h
    cases outcome with
    | ok value => exact ⟨value, rfl⟩
    | error exception => cases h
  cases call with
  | loadPrivateKey privKey => exact ⟨⟨(), if_pos hkey⟩, rfl⟩
  | loadPublicKey pubKey => exact ⟨⟨(), if_pos husable⟩, rfl⟩
  | rsaEncrypt pubKey plain => exact ⟨hok husable, rfl⟩
  | openMyInfo => exact ⟨hok husable, rfl⟩
  | getline => exact ⟨rfl, rfl⟩
  | hasClientID => exact ⟨rfl, rfl⟩
  | setClientID id => exact ⟨rfl, rfl⟩
  | rsaDecrypt privKey cipher => exact rfl
  | aesDecrypt key cipher => exact rfl
  | _ => exact ⟨⟨_, rfl⟩, rfl⟩

/-- What holds at every moment of a run. -/
structure Surviving (own : ℕ) (crypto : Crypto) (session : Session) : Prop where
  linked : session.Linked own
  cache : CacheSound crypto session.threads
  sound : session.threads.Sound (survivalSetting crypto) SurvivalEnds

variable {limit : Option ℕ} {own : ℕ} {crypto : Crypto} {session : Session}

theorem surviving_start (own : ℕ) (crypto : Crypto) (client : ClientState) :
    (start client).Surviving own crypto where
  linked := linked_start own client
  cache := cacheSound_start crypto client
  sound := fun thread _ _ ↦ by
    cases thread with
    | main => exact .inl rfl
    | pull => trivial

/-- Assumes: a network that works, a private key that can be loaded, prompts that get a name, and
public keys that are usable when they are used. -/
theorem Surviving.step (h : session.Surviving own crypto) (limit : Option ℕ) {event : SessionEvent}
    (hnetwork : NetworkWorks session event) (hkey : KeyLoads crypto session event)
    (haccommodated : Accommodated crypto session event) :
    (session.step limit own crypto event).Surviving own crypto := by
  refine ⟨h.linked.step limit crypto event,
    threads_step (fun _ event hcache ↦ hcache.step event) h.cache event, ?_⟩
  have hsetting := tolerant_survivalSetting crypto
  have hcompatible := compatible_survivalSetting crypto
  refine step_cases
    (motive := fun after ↦ after.threads.Sound (survivalSetting crypto) SurvivalEnds) h.linked limit
    crypto event h.sound (fun choice surroundings hevent _ ↦ ?_) (fun outcome _ ↦ ?_)
    (fun thread call resume hevent hrest ↦ ?_) (fun _ _ _ _ _ _ ↦ h.sound)
    (fun thread data resume response outcome hevent hrest hresponse hrequest ↦ ?_)
    (fun thread data resume exception hevent _ ↦ ?_) fun _ _ ↦ h.sound
  · subst hevent
    refine h.sound.launch hsetting (fun other hne hmain ↦ absurd hmain hne) ?_
    exact guarantees_survival_main haccommodated (Nat.lt_succ_self _)
  · exact h.sound.launch hsetting (fun other _ _ ↦ rfl) guarantees_survival_pull
  · subst hevent
    refine h.sound.act hsetting hcompatible hrest ⟨⟨.ok [], rfl⟩, ?_⟩
    cases thread with
    | pull => trivial
    | main =>
      have hnext : session.threads.nextCall .main = some (.method call) := by
        rw [Threads.nextCall, hrest, firstCall]
      simp only [KeyLoads, Accommodated, hnext, Option.all_some] at hkey haccommodated
      exact ⟨answers_exec hkey haccommodated, rfl⟩
  · subst hevent
    cases outcome with
    | error exception => exact hnetwork.elim
    | ok value =>
      refine h.sound.act hsetting hcompatible hrest ⟨⟨.ok response, rfl⟩, ?_⟩
      have hmeans := h.linked.means hresponse hrequest
      cases thread with
      | pull => exact ⟨_, hmeans⟩
      | main =>
        exact ⟨response, _, rfl, hmeans, rfl⟩
  · subst hevent
    exact hnetwork.elim

/-- Other clients cannot end this one. In every run of a client against a server that other clients
use as they like, no exception comes out of the loop of `main`: every action returns a buffer, and
every response is processed. Assumes: a network that works, and a private key that can be loaded;
every prompt gets a name before the console ends, and every public key is usable when the main
thread uses it. -/
theorem no_fatal_error (limit : Option ℕ) (own : ℕ) (crypto : Crypto) (client : ClientState)
    (events : List SessionEvent)
    (hnetwork : Along (step limit own crypto) NetworkWorks (start client) events)
    (hkey : Along (step limit own crypto) (KeyLoads crypto) (start client) events)
    (haccommodated : Along (step limit own crypto) (Accommodated crypto) (start client) events)
    (exception : CppError) :
    (runEvents (step limit own crypto) (start client) events).threads.rest .main ≠
      .finished (.error exception) := by
  intro hended
  have hsurviving : (runEvents (step limit own crypto)
      (start client) events).Surviving own crypto :=
    ((hnetwork.and hkey).and haccommodated).invariant
      (fun _ _ hguard h ↦ h.step limit hguard.1.1 hguard.1.2 hguard.2)
        (surviving_start own crypto client)
  rcases hsurviving.sound.ended (tolerant_survivalSetting crypto) hended with
    hreturned | ⟨herror, request, response, hexchanged, hanswers⟩
  · cases hreturned
  · exact hsurviving.cache.sound.ended (tolerant_friendSetting crypto) hended request response
      hexchanged hanswers herror

instance (session : Session) : DecidablePred (NetworkWorks session)
  | .receive _ (.error _) | .fail .. => isFalse id
  | .receive _ (.ok _) | .choose .. | .wake | .act _ | .send .. | .serve _ => isTrue trivial

instance (crypto : Crypto) (session : Session) : DecidablePred (KeyLoads crypto session)
  | .act .main => inferInstanceAs (Decidable (_ = true))
  | .act .pull | .choose .. | .wake | .send .. | .receive .. | .fail .. | .serve _ => isTrue trivial

instance (crypto : Crypto) (session : Session) : DecidablePred (Accommodated crypto session)
  | .choose choice surroundings => inferInstanceAs (Decidable (choice ∈ promptingChoices →
      (choice = registerChoice → session.ctx.hasClientID = false) →
        (acceptedName surroundings.console).isSome = true))
  | .act .main => inferInstanceAs (Decidable (_ = true))
  | .act .pull | .wake | .send .. | .receive .. | .fail .. | .serve _ => isTrue trivial

/-! ### A peer whose public key is no key -/

/-- A library in which the encoding of a public key begins with the tag of a sequence. -/
def encodingCrypto : Crypto :=
  { Crypto.tagged with loadsPublicKey := fun publicKey ↦ publicKey.val.head? = some 48 }

/-- A client registers on a connection. -/
def registersAt (connection : ℕ) (id : ClientId) (name publicKey : Bytes) : List SessionEvent :=
  (Server.session connection (Server.requestFrame id.val requestRegister
    (Server.registrationPayload name publicKey)) (drawing id)).map .serve

/-- The user makes a choice and types these lines. The action runs up to its exchange. -/
def acting (choice : ℕ) (console : List Bytes) : List SessionEvent :=
  .choose choice ⟨console, ⟨.zero symmetricKeySize, 0⟩, .ok true, true⟩ ::
    List.replicate 12 (.act .main)

/-- The exchange, and the processing of its response. -/
def exchanging : List SessionEvent :=
  .send .main (drawing peer) :: List.replicate 4 (.serve (.call 0 false)) ++
    .receive .main (.ok ()) :: List.replicate 8 (.act .main)

/-- The peer registers with a public key, and the client takes its name and its public key and
chooses to send it a symmetric key. -/
def sendingKeyTo (publicKey : Bytes) : List SessionEvent :=
  registersAt 1 reader.ctx.clientID [65] (List.replicate publicKeySize 48) ++
    registersAt 2 peer [66] publicKey ++ acting clientsListChoice [] ++ exchanging ++
    acting publicKeyChoice [[66]] ++ exchanging ++ acting sendSymmetricKeyChoice [[66]]

/-- The exception that has ended a thread. -/
def exceptionOf : Loop Unit → Option CppError
  | .finished (.error exception) => some exception
  | .finished (.ok _) | .request _ _ => none

theorem finished_of_exceptionOf {program : Loop Unit} {exception : CppError}
    (h : exceptionOf program = some exception) : program = .finished (.error exception) := by
  cases program with
  | request call resume => cases h
  | finished outcome =>
    cases outcome with
    | ok value => cases h
    | error thrown => rw [Option.some.inj h]

/-- With a public key that can be loaded the symmetric key is sent. -/
theorem no_fatal_error_sendingKey :
    (runEvents (step none 0 encodingCrypto) (start reader)
      (sendingKeyTo (List.replicate publicKeySize 48) ++ exchanging)).threads.rest .main ≠
        .finished (.error .cryptoError) :=
  no_fatal_error none 0 encodingCrypto reader _ (by decide +kernel) (by decide +kernel)
    (by decide +kernel) .cryptoError

/-- A peer that registers with bytes that are no public key ends the client. -/
theorem garbage_key_fatal :
    ¬∀ events, Along (step none 0 encodingCrypto) NetworkWorks (start reader) events →
      Along (step none 0 encodingCrypto) (KeyLoads encodingCrypto) (start reader) events →
        (runEvents (step none 0 encodingCrypto) (start reader) events).threads.rest .main ≠
          .finished (.error .cryptoError) := by
  intro h
  exact h (sendingKeyTo (List.replicate publicKeySize 0)) (by decide +kernel) (by decide +kernel)
    (finished_of_exceptionOf (by decide +kernel))

end Session

end MessageU.System
