import MessageU.System.Threads

/-!
# The cache of known clients over a run

The setters of `ClientContext` do nothing when the entry is missing, and their callers look for the
entry in an earlier call, so that the other thread may do something in between. What the other
thread may do is to let the cache grow (`Grows`): it adds entries and keys and takes none away.
Every call of the client does this (`grows_exec`), so a thread may rely on it, and what a thread has
found once it goes on to find. `friendSetting` is this as a setting, in which a setter is allowed
only for an entry that is there. The rules below go through the functions that set keys; all other
functions call no setter at all (`Within`).

`friend_cache_integrity` collects what follows for every run of the two threads.
-/

set_option autoImplicit false
set_option relaxedAutoImplicit false

namespace MessageU.System

open Library Client Interaction

/-! ### Growing caches -/

/-- Entries stay, and keys that are set stay set. -/
structure Grows (before after : ClientContext) : Prop where
  indexed : before.Indexed → after.Indexed
  entries : ∀ uuid entry, before.tryGetFriendCopy uuid = some entry →
    ∃ later, after.tryGetFriendCopy uuid = some later ∧
      (entry.publicKey.isSome → later.publicKey.isSome) ∧
      (entry.symmetricKey.isSome → later.symmetricKey.isSome)

theorem Grows.of_friends {before after : ClientContext} (h : after.friends = before.friends) :
    Grows before after := by
  have hlookup : ∀ uuid, after.tryGetFriendCopy uuid = before.tryGetFriendCopy uuid := fun uuid ↦ by
    rw [ClientContext.tryGetFriendCopy, h, ClientContext.tryGetFriendCopy]
  refine ⟨fun hindexed uuid entry hentry ↦ ?_, fun uuid entry hentry ↦ ?_⟩
  · rw [hlookup] at hentry
    exact hindexed uuid entry hentry
  · exact ⟨entry, (hlookup uuid).trans hentry, id, id⟩

theorem Grows.refl (ctx : ClientContext) : Grows ctx ctx :=
  .of_friends rfl

theorem Grows.trans {first second third : ClientContext} (h : Grows first second)
    (hnext : Grows second third) : Grows first third where
  indexed := fun hindexed ↦ hnext.indexed (h.indexed hindexed)
  entries := fun uuid entry hentry ↦ by
    obtain ⟨middle, hmiddle, hpublic, hsymmetric⟩ := h.entries uuid entry hentry
    obtain ⟨later, hlater, hpublicLater, hsymmetricLater⟩ := hnext.entries uuid middle hmiddle
    exact ⟨later, hlater, hpublicLater ∘ hpublic, hsymmetricLater ∘ hsymmetric⟩

/-- An entry that is found goes on to be found. -/
theorem Grows.known {before after : ClientContext} (h : Grows before after) {uuid : ClientId}
    (hknown : (before.tryGetFriendCopy uuid).isSome) : (after.tryGetFriendCopy uuid).isSome := by
  obtain ⟨entry, hentry⟩ := Option.isSome_iff_exists.mp hknown
  obtain ⟨later, hlater, -⟩ := h.entries uuid entry hentry
  exact Option.isSome_iff_exists.mpr ⟨later, hlater⟩

section Setters

variable (ctx : ClientContext) (uuid : ClientId)

theorem grows_setFriendBase (friendName : Bytes) :
    Grows ctx (ctx.setFriendBase uuid friendName) := by
  refine ⟨fun hindexed ↦ hindexed.setFriendBase uuid friendName, fun other entry hentry ↦ ?_⟩
  rw [ClientContext.tryGetFriendCopy_setFriendBase]
  split_ifs
  · exact ⟨_, rfl, by simp [hentry], by simp [hentry]⟩
  · exact ⟨entry, hentry, id, id⟩

theorem grows_setFriendPublicKey (pubKey : FixedBytes publicKeySize) :
    Grows ctx (ctx.setFriendPublicKey uuid pubKey) := by
  refine ⟨fun hindexed other entry hentry ↦ ?_, fun other entry hentry ↦ ?_⟩
  · rw [ClientContext.tryGetFriendCopy_setFriendPublicKey] at hentry
    split_ifs at hentry with hsame
    · obtain ⟨earlier, hearlier, rfl⟩ := Option.map_eq_some_iff.mp hentry
      exact hindexed other earlier hearlier
    · exact hindexed other entry hentry
  · rw [ClientContext.tryGetFriendCopy_setFriendPublicKey]
    split_ifs
    · exact ⟨{ entry with publicKey := some pubKey }, by rw [hentry]; rfl, fun _ ↦ rfl, id⟩
    · exact ⟨entry, hentry, id, id⟩

theorem grows_setFriendSymmetricKey (symKey : FixedBytes symmetricKeySize) :
    Grows ctx (ctx.setFriendSymmetricKey uuid symKey) := by
  refine ⟨fun hindexed other entry hentry ↦ ?_, fun other entry hentry ↦ ?_⟩
  · rw [ClientContext.tryGetFriendCopy_setFriendSymmetricKey] at hentry
    split_ifs at hentry with hsame
    · obtain ⟨earlier, hearlier, rfl⟩ := Option.map_eq_some_iff.mp hentry
      exact hindexed other earlier hearlier
    · exact hindexed other entry hentry
  · rw [ClientContext.tryGetFriendCopy_setFriendSymmetricKey]
    split_ifs
    · exact ⟨{ entry with symmetricKey := some symKey }, by rw [hentry]; rfl, id, fun _ ↦ rfl⟩
    · exact ⟨entry, hentry, id, id⟩

end Setters

/-- Every call lets the cache grow. -/
theorem grows_exec (crypto : Crypto) (state : ClientState) (call : ClientCall) :
    Grows state.ctx (call.exec crypto state).1.ctx := by
  cases call with
  | setFriendBase uuid friendName => exact grows_setFriendBase _ uuid friendName
  | setFriendPublicKey uuid pubKey => exact grows_setFriendPublicKey _ uuid pubKey
  | setFriendSymmetricKey uuid symKey => exact grows_setFriendSymmetricKey _ uuid symKey
  | _ => exact .of_friends rfl

/-- A call of a thread lets the cache grow. -/
theorem grows_serve (crypto : Crypto) (thread : Thread) (response : Except CppError Bytes)
    (shared : Shared) (call : LoopCall) :
    Grows shared.client.ctx (serve crypto thread response shared call).1.client.ctx := by
  cases call with
  | method call => exact grows_exec crypto shared.client call
  | sendAndReceive data => cases response <;> exact .refl _

/-- A call of a thread leaves the exchange of the other one. -/
theorem serve_exchanged_of_ne (crypto : Crypto) {thread other : Thread} (h : other ≠ thread)
    (response : Except CppError Bytes) (shared : Shared) (call : LoopCall) :
    (serve crypto thread response shared call).1.exchanged other = shared.exchanged other := by
  cases call with
  | method call => rfl
  | sendAndReceive data =>
    cases response with
    | ok buffer => exact Function.update_of_ne h _ _
    | error exception => rfl

/-! ### The setting of a thread -/

/-- An ID that has an entry. -/
def Shared.Known (shared : Shared) (uuid : ClientId) : Prop :=
  (shared.client.ctx.tryGetFriendCopy uuid).isSome

/-- A setter of a key is called for an entry that is there. -/
def SetterAllowed (shared : Shared) : LoopCall → Prop
  | .method (.setFriendPublicKey uuid _) | .method (.setFriendSymmetricKey uuid _) =>
    shared.Known uuid
  | _ => True

/-- A thread relies on a cache that grows. -/
def friendSetting (crypto : Crypto) (thread : Thread) : Setting LoopCalls CppError Shared where
  rely before after :=
    Grows before.client.ctx after.client.ctx ∧ after.exchanged thread = before.exchanged thread
  allowed := SetterAllowed
  step shared call answer after :=
    ∃ response, serve crypto thread response shared call = (after, answer)

theorem tolerant_friendSetting (crypto : Crypto) (thread : Thread) :
    (friendSetting crypto thread).Tolerant where
  refl := fun _ ↦ ⟨.refl _, rfl⟩
  trans := fun h hnext ↦ ⟨h.1.trans hnext.1, hnext.2.trans h.2⟩

theorem compatible_friendSetting (crypto : Crypto) : Team.Compatible (friendSetting crypto) := by
  rintro first second hne shared call answer after - ⟨response, hserve⟩
  have hgrows := grows_serve crypto first response shared call
  have hexchanged := serve_exchanged_of_ne crypto (Ne.symm hne) response shared call
  rw [hserve] at hgrows hexchanged
  exact ⟨hgrows, hexchanged⟩

/-- A fact that neither a growing cache nor the calls of the client take away. -/
def Lasting (crypto : Crypto) (thread : Thread) (fact : Shared → Prop) : Prop :=
  ∀ before after, (friendSetting crypto thread).rely before after → fact before → fact after

section Functions

variable {crypto : Crypto} {thread : Thread} {fact : Shared → Prop} {shared : Shared} {α : Type}

theorem lasting_known (uuid : ClientId) : Lasting crypto thread fun state ↦ state.Known uuid :=
  fun _ _ hrely hknown ↦ hrely.1.known hknown

theorem Lasting.and {other : Shared → Prop} (h : Lasting crypto thread fact)
    (hother : Lasting crypto thread other) :
    Lasting crypto thread fun state ↦ fact state ∧ other state :=
  fun before after hrely hfact ↦ ⟨h before after hrely hfact.1, hother before after hrely hfact.2⟩

/-- A call of the thread itself keeps a lasting fact. -/
theorem Lasting.exec (h : Lasting crypto thread fact) {call : ClientCall} (hfact : fact shared) :
    fact { shared with client := (call.exec crypto shared.client).1 } :=
  h _ _ ⟨grows_exec crypto shared.client call, rfl⟩ hfact

/-- In the setting a call does what it does alone. -/
theorem executes_friendSetting : Executes crypto (friendSetting crypto thread) Shared.client
    fun state client ↦ { state with client := client } := by
  rintro state call answer after ⟨response, hserve⟩
  cases hserve
  exact ⟨rfl, rfl⟩

/-- A call and what follows it, in the state that the call is made in. -/
theorem guarantees_ask {post : Except CppError α → Shared → Prop} {call : ClientCall}
    {next : call.Result → Program α}
    (h : ∀ seen, (friendSetting crypto thread).rely shared seen →
      SetterAllowed seen (.method call) ∧
        (proceed next (call.exec crypto seen.client).2).Guarantees
          (methods (friendSetting crypto thread)) post
          { seen with client := (call.exec crypto seen.client).1 }) :
    (ask call >>= next).Guarantees (methods (friendSetting crypto thread)) post shared :=
  guarantees_method executes_friendSetting h

/-- A function that sets no key keeps a lasting fact. -/
theorem guarantees_keepsKeys (hlasting : Lasting crypto thread fact) {program : Program α}
    (hprogram : program.Within ClientCall.KeepsKeys) (hfact : fact shared) :
    program.Guarantees (methods (friendSetting crypto thread))
      (fun _ after ↦ fact after) shared := by
  refine guarantees_of_within (fun _ _ hbefore hrely ↦ hlasting _ _ hrely hbefore)
    (fun call seen hkind _ ↦ ?_) (fun call seen answer after _ hseen hstep ↦ ?_) (fun _ _ h ↦ h)
    hprogram hfact
  · cases call <;> first | exact hkind.elim | trivial
  · obtain ⟨response, hserve⟩ := hstep
    cases hserve
    exact hlasting.exec hseen

/-- A function that has ended keeps a lasting fact. -/
theorem guarantees_ended (hlasting : Lasting crypto thread fact) (outcome : Except CppError α)
    (hfact : fact shared) :
    (finished outcome : Program α).Guarantees (methods (friendSetting crypto thread))
      (fun _ after ↦ fact after) shared :=
  fun _ hseen ↦ hlasting _ _ hseen hfact

/-- A sequence of two functions that keep a lasting fact. -/
theorem guarantees_then {β : Type} (hlasting : Lasting crypto thread fact) {program : Program α}
    {next : α → Program β}
    (h : program.Guarantees (methods (friendSetting crypto thread))
      (fun _ after ↦ fact after) shared)
    (hnext : ∀ value after, fact after →
      (next value).Guarantees (methods (friendSetting crypto thread)) (fun _ after ↦ fact after)
        after) :
    (program >>= next).Guarantees (methods (friendSetting crypto thread)) (fun _ after ↦ fact after)
      shared :=
  h.bind (tolerant_methods (tolerant_friendSetting crypto thread))
    (fun _ _ hafter _ hseen ↦ hlasting _ _ hseen hafter) hnext

/-- A call alone. -/
theorem guarantees_call (hlasting : Lasting crypto thread fact) {call : ClientCall}
    (h : ∀ seen, (friendSetting crypto thread).rely shared seen →
      SetterAllowed seen (.method call) ∧
        fact { seen with client := (call.exec crypto seen.client).1 }) :
    (ask call).Guarantees (methods (friendSetting crypto thread)) (fun _ after ↦ fact after)
      shared := by
  intro seen hseen
  refine ⟨(h seen hseen).1, ?_⟩
  rintro answer after ⟨response, hserve⟩
  cases hserve
  exact guarantees_ended hlasting _ (h seen hseen).2

theorem guarantees_print (hlasting : Lasting crypto thread fact) (output : Output)
    (hfact : fact shared) :
    (ask (.print output)).Guarantees (methods (friendSetting crypto thread))
      (fun _ after ↦ fact after) shared :=
  guarantees_keepsKeys hlasting (within_call trivial) hfact

/-! ### The functions that set keys -/

/-- `ensureFriend` leaves an entry. -/
theorem guarantees_ensureFriend (hlasting : Lasting crypto thread fact) (id : ClientId)
    (hfact : fact shared) :
    (ensureFriend id).Guarantees (methods (friendSetting crypto thread))
      (fun _ after ↦ fact after ∧ after.Known id) shared := by
  have hboth : Lasting crypto thread fun state ↦ fact state ∧ state.Known id :=
    hlasting.and (lasting_known id)
  refine guarantees_ask fun seen hseen ↦ ⟨trivial, ?_⟩
  have hfound := hlasting _ _ hseen hfact
  change (if (seen.client.ctx.tryGetFriendCopy id).isNone = true then ask (.setFriendBase id [])
    else pure ()).Guarantees _ _ seen
  split_ifs with hmissing
  · refine guarantees_call hboth fun later hlater ↦
      ⟨trivial, hlasting.exec (hlasting _ _ hlater hfound), ?_⟩
    change ((later.client.ctx.setFriendBase id []).tryGetFriendCopy id).isSome
    rw [ClientContext.tryGetFriendCopy_setFriendBase, if_pos rfl]
    rfl
  · have hknown : seen.Known id := by
      rwa [Bool.not_eq_true, Option.isNone_eq_false_iff] at hmissing
    exact guarantees_ended hboth _ ⟨hfound, hknown⟩

/-- The setter of a key behind `ensureFriend`, with what follows it. -/
theorem guarantees_ensured (hlasting : Lasting crypto thread fact) {id : ClientId}
    {call : ClientCall}
    (hsetter : ∀ seen : Shared, seen.Known id → SetterAllowed seen (.method call))
    {next : call.Result → Program Unit}
    (hnext : ∀ value, (next value).Within ClientCall.KeepsKeys) (hfact : fact shared) :
    (ensureFriend id >>= fun _ ↦ ask call >>= next).Guarantees
      (methods (friendSetting crypto thread))
      (fun _ after ↦ fact after) shared := by
  refine (guarantees_ensureFriend hlasting id hfact).bind
    (tolerant_methods (tolerant_friendSetting crypto thread))
    (fun _ _ hafter _ hseen ↦ hlasting _ _ hseen hafter.1) fun _ after hafter ↦ ?_
  refine guarantees_ask fun seen hseen ↦ ⟨hsetter seen (lasting_known id _ _ hseen hafter.2), ?_⟩
  have hset : fact { seen with client := (call.exec crypto seen.client).1 } :=
    hlasting.exec (hlasting _ _ hseen hafter.1)
  cases (call.exec crypto seen.client).2 with
  | ok value => exact guarantees_keepsKeys hlasting (hnext value) hset
  | error exception => exact guarantees_ended hlasting _ hset

theorem guarantees_handleSymmetricKeyMessage (hlasting : Lasting crypto thread fact)
    (fromId : ClientId) (content rsaPriv : Bytes) (hfact : fact shared) :
    (handleSymmetricKeyMessage fromId content rsaPriv).Guarantees
      (methods (friendSetting crypto thread)) (fun _ after ↦ fact after) shared := by
  refine Guarantees.attempt (tolerant_methods (tolerant_friendSetting crypto thread))
    (show Guarantees _ (fun _ after ↦ fact after) _ shared from ?_) fun outcome after hafter ↦ ?_
  · refine guarantees_ask fun seen hseen ↦ ⟨trivial, ?_⟩
    have hfound := hlasting _ _ hseen hfact
    change (proceed _ (crypto.rsaDecrypt rsaPriv content)).Guarantees _ _ seen
    cases crypto.rsaDecrypt rsaPriv content with
    | error exception => exact guarantees_ended hlasting _ hfound
    | ok symKeyBin =>
      rw [proceed_ok]
      split_ifs with hsize
      · exact guarantees_ensured hlasting (fun _ ↦ id) (fun _ ↦ within_call trivial) hfound
      · exact guarantees_print hlasting _ hfound
  · cases outcome with
    | ok value => exact guarantees_ended hlasting _ hafter
    | error exception => exact guarantees_print hlasting _ hafter

theorem guarantees_handleRecord (hlasting : Lasting crypto thread fact) (fromId : ClientId)
    (msgType : ℕ) (content rsaPriv : Bytes) (hfact : fact shared) :
    (handleRecord fromId msgType content rsaPriv).Guarantees (methods (friendSetting crypto thread))
      (fun _ after ↦ fact after) shared := by
  have hprint : ∀ output after, fact after → _ := fun output _ ↦ guarantees_print hlasting output
  refine guarantees_then hlasting (guarantees_keepsKeys hlasting (within_call trivial) hfact)
    fun friendOpt _ hlooked ↦ ?_
  refine guarantees_then hlasting (hprint _ _ hlooked) fun _ _ hprinted ↦ ?_
  refine guarantees_then hlasting (hprint _ _ hprinted) fun _ _ hcontent ↦ ?_
  dsimp only
  split_ifs
  · exact guarantees_then hlasting (hprint _ _ hcontent) fun _ ↦ hprint _
  · exact guarantees_then hlasting
      (guarantees_handleSymmetricKeyMessage hlasting fromId content rsaPriv hcontent)
      fun _ ↦ hprint _
  · exact guarantees_then hlasting
      (guarantees_keepsKeys hlasting
        ((within_handleTextMessage fromId content).mono fun _ h ↦ h.reads.keepsKeys) hcontent)
      fun _ ↦ hprint _
  · exact guarantees_then hlasting (hprint _ _ hcontent) fun _ ↦ hprint _

theorem guarantees_waitingLoop (hlasting : Lasting crypto thread fact) (data rsaPriv : Bytes)
    (rounds offset : ℕ) (hfact : fact shared) :
    (waitingLoop data rsaPriv rounds offset).Guarantees (methods (friendSetting crypto thread))
      (fun _ after ↦ fact after) shared := by
  induction rounds generalizing offset shared with
  | zero => exact guarantees_ended hlasting _ hfact
  | succ rounds ih =>
    rw [waitingLoop]
    split_ifs
    · exact guarantees_ended hlasting _ hfact
    · refine guarantees_then hlasting (guarantees_ended hlasting _ hfact) fun fromId _ hsender ↦ ?_
      refine guarantees_then hlasting (guarantees_ended hlasting _ hsender) fun size _ hsize ↦ ?_
      split_ifs
      · exact guarantees_ended hlasting _ hsize
      · exact guarantees_then hlasting (guarantees_handleRecord hlasting fromId _ _ rsaPriv hsize)
          fun _ _ hrecord ↦ ih _ hrecord
    · exact guarantees_ended hlasting _ hfact

theorem guarantees_responseWaitingMessages (hlasting : Lasting crypto thread fact) (data : Bytes)
    (hfact : fact shared) :
    (responseWaitingMessages data).Guarantees (methods (friendSetting crypto thread))
      (fun _ after ↦ fact after) shared := by
  unfold responseWaitingMessages
  split_ifs
  · exact guarantees_keepsKeys hlasting (within_call trivial) hfact
  · refine guarantees_then hlasting (guarantees_keepsKeys hlasting (within_call trivial) hfact)
      fun privateKey _ hread ↦ ?_
    exact guarantees_then hlasting (guarantees_keepsKeys hlasting (within_call trivial) hread)
      fun _ _ hloaded ↦ guarantees_waitingLoop hlasting data privateKey _ _ hloaded

theorem guarantees_responsePublicKey (hlasting : Lasting crypto thread fact) (data : Bytes)
    (hfact : fact shared) :
    (responsePublicKey data).Guarantees (methods (friendSetting crypto thread))
      (fun _ after ↦ fact after) shared := by
  unfold responsePublicKey
  split_ifs
  · refine guarantees_then hlasting (guarantees_ended hlasting _ hfact) fun uuid _ hread ↦ ?_
    exact guarantees_ensured hlasting (fun _ ↦ id)
      (fun _ ↦ within_ask.mpr ⟨trivial, fun _ ↦ within_call trivial⟩) hread
  · exact guarantees_ended hlasting _ hfact

/-- A response is processed with setters that find their entry. -/
theorem guarantees_responseClientMain (hlasting : Lasting crypto thread fact) (data : Bytes)
    (hfact : fact shared) :
    (responseClientMain data).Guarantees (methods (friendSetting crypto thread))
      (fun _ after ↦ fact after) shared := by
  unfold responseClientMain
  split_ifs
  · exact guarantees_ended hlasting _ hfact
  · exact guarantees_keepsKeys hlasting
      ((within_responseRegister data).mono fun _ ↦ ClientCall.KeepsFriends.keepsKeys) hfact
  · exact guarantees_keepsKeys hlasting (within_responseClientList
      (fun _ ↦ trivial) fun _ _ _ ↦ trivial) hfact
  · exact guarantees_responsePublicKey hlasting data hfact
  · exact guarantees_keepsKeys hlasting
      ((within_responseMessageSent data).mono fun _ h ↦ h.reads.keepsKeys) hfact
  · exact guarantees_responseWaitingMessages hlasting data hfact
  · exact guarantees_keepsKeys hlasting (within_call trivial) hfact
  · exact guarantees_keepsKeys hlasting (within_call trivial) hfact

/-! ### Actions and rounds -/

/-- A request names a client behind its header. -/
def Names (target : ClientId) (request : Bytes) : Prop :=
  request ≠ [] → Server.requestedIdOf request = target.val

/-- A request that is no message to another client. -/
def SendsNothing (request : Bytes) : Prop :=
  Server.codeOf request ≠ requestAllMessages

theorem sendsNothing_nil : SendsNothing [] :=
  show Server.codeOf [] ≠ requestAllMessages by decide

theorem names_createBuffer (id target : ClientId) (code : ℕ) (rest : Bytes) :
    Names target (createBuffer id code (target.val ++ rest)) := by
  intro _
  rw [createBuffer_eq]
  refine (Server.slice_requestFrame id.property 0 Server.clientIdSize).trans ?_
  rw [slice, List.drop_zero, List.take_left' target.property]

theorem returns_sendContent (target : ClientId) (rest content : Bytes) :
    (sendContent (target.val ++ rest) content).Returns (Names target) := by
  refine Returns.bind fun id ↦ ?_
  rw [appendUint32LE, List.append_assoc, List.append_assoc]
  exact names_createBuffer id target _ _

/-- A request that is sent only with a content. -/
theorem returns_content {target : ClientId} {rest : Bytes} {program : Program Bytes} :
    (program >>= fun content ↦ if content = [] then pure []
      else sendContent (target.val ++ rest) content).Returns (Names target) := by
  refine Returns.bind fun content ↦ ?_
  split_ifs
  · exact fun h ↦ absurd rfl h
  · exact returns_sendContent target rest content

theorem sendsNothing_createBuffer {code : ℕ} (hcode : code < 2 ^ 16)
    (hother : code ≠ requestAllMessages) (id : ClientId) (payload : Bytes) :
    SendsNothing (createBuffer id code payload) := by
  rw [SendsNothing, createBuffer_eq, Server.codeOf_requestFrame id.property hcode]
  exact hother

theorem guarantees_handleSendSymmetricKey (hlasting : Lasting crypto thread fact)
    (target : ClientId)
    (hfact : fact shared) :
    (handleSendSymmetricKey target).Guarantees (methods (friendSetting crypto thread))
      (fun _ after ↦ fact after) shared := by
  refine guarantees_ask fun seen hseen ↦ ⟨trivial, ?_⟩
  have hfound := hlasting _ _ hseen hfact
  change (proceed _ (.ok (seen.client.ctx.tryGetFriendCopy target))).Guarantees _ _ seen
  rw [proceed_ok]
  cases hkey : (seen.client.ctx.tryGetFriendCopy target).bind Friend.publicKey with
  | none => exact guarantees_then hlasting (guarantees_print hlasting _ hfound) fun _ _ hprinted ↦
      guarantees_ended hlasting _ hprinted
  | some publicKey =>
    have hknown : seen.Known target :=
      ClientContext.isSome_of_publicKeyFor seen.client.ctx target hkey
    refine guarantees_ask fun drawn hdrawn ↦ ⟨trivial, ?_⟩
    have hdrawnFact := hlasting _ _ hdrawn hfound
    have hdrawnKnown := lasting_known target _ _ hdrawn hknown
    refine guarantees_ask fun held hheld ↦ ⟨lasting_known target _ _ hheld hdrawnKnown, ?_⟩
    exact guarantees_keepsKeys hlasting (within_ask.mpr ⟨trivial, fun _ ↦ within_call trivial⟩)
      (hlasting.exec (hlasting _ _ hheld hdrawnFact))

/-- What an action leaves: a fact, and an entry for the client that a message is sent to. -/
def Addressed (fact : Shared → Prop) (outcome : Except CppError Bytes) (shared : Shared) : Prop :=
  fact shared ∧ ∀ request, outcome = .ok request → Server.codeOf request = requestAllMessages →
    ∃ target : ClientId, Server.requestedIdOf request = target.val ∧ shared.Known target

/-- An action that sends no message. -/
theorem addressed_of_sendsNothing {program : Program Bytes}
    (h : program.Guarantees (methods (friendSetting crypto thread))
      (fun _ after ↦ fact after) shared)
    (hreturns : program.Returns SendsNothing) :
    program.Guarantees (methods (friendSetting crypto thread)) (Addressed fact) shared :=
  (h.and_returns hreturns).mono fun _ _ hafter ↦
    ⟨hafter.1, fun request hrequest hcode ↦ absurd hcode (hafter.2 request hrequest)⟩

/-- An action that sends a message to a client with an entry. -/
theorem addressed_of_names {program : Program Bytes} {target : ClientId}
    (h : program.Guarantees (methods (friendSetting crypto thread))
      (fun _ after ↦ fact after ∧ after.Known target) shared)
    (hreturns : program.Returns (Names target)) :
    program.Guarantees (methods (friendSetting crypto thread)) (Addressed fact) shared := by
  refine (h.and_returns hreturns).mono fun outcome after hafter ↦
    ⟨hafter.1.1, fun request hrequest hcode ↦ ⟨target, hafter.2 request hrequest ?_, hafter.1.2⟩⟩
  rintro rfl
  exact sendsNothing_nil hcode

/-- Assumes: a fact that implies that entries are stored under their own IDs. -/
theorem guarantees_handleAllMessages (hlasting : Lasting crypto thread fact)
    (hindexed : ∀ state, fact state → state.client.ctx.Indexed) (rounds choice : ℕ)
    (hfact : fact shared) :
    (handleAllMessages rounds choice).Guarantees (methods (friendSetting crypto thread))
      (Addressed fact) shared := by
  have hsetting := tolerant_methods (tolerant_friendSetting crypto thread)
  have hnothing : ∀ {program : Program Bytes} {state : Shared},
      program.Within ClientCall.KeepsKeys → program.Returns SendsNothing → fact state →
      program.Guarantees (methods (friendSetting crypto thread)) (Addressed fact) state :=
    fun hwithin hreturns hstate ↦
      addressed_of_sendsNothing (guarantees_keepsKeys hlasting hwithin hstate) hreturns
  refine (guarantees_keepsKeys hlasting
    ((within_getValidUsername targetPrompt rounds).mono fun _ ↦ ClientCall.Reads.keepsKeys)
    hfact).bind hsetting (fun _ _ hafter _ hseen ↦ ⟨hlasting _ _ hseen hafter, nofun⟩)
    fun name named hnamed ↦ ?_
  by_cases hzero : name = zeroName
  · rw [if_pos hzero]
    exact hnothing (within_pure _) sendsNothing_nil hnamed
  rw [if_neg hzero]
  refine guarantees_ask fun seen hseen ↦ ⟨trivial, ?_⟩
  have hfound := hlasting _ _ hseen hnamed
  change (proceed _ (.ok (seen.client.ctx.tryGetFriendIdByName name))).Guarantees _ _ seen
  rw [proceed_ok]
  cases hname : seen.client.ctx.tryGetFriendIdByName name with
  | none =>
    exact hnothing (within_ask.mpr ⟨trivial, fun _ ↦ within_pure _⟩)
      (Returns.bind fun _ ↦ sendsNothing_nil) hfound
  | some target =>
    have hknown : seen.Known target := by
      obtain ⟨entry, hentry, -⟩ :=
        ClientContext.exists_of_tryGetFriendIdByName (hindexed seen hfound) hname
      exact Option.isSome_iff_exists.mpr ⟨entry, hentry⟩
    have hboth : Lasting crypto thread fun state ↦ fact state ∧ state.Known target :=
      hlasting.and (lasting_known target)
    have hcontent : ∀ rest state, fact state ∧ state.Known target → ∀ content,
        (if content = [] then pure []
          else sendContent (target.val ++ rest) content : Program Bytes).Guarantees
          (methods (friendSetting crypto thread)) (fun _ after ↦ fact after ∧ after.Known target)
          state := by
      intro rest state hstate content
      split_ifs
      · exact guarantees_ended hboth _ hstate
      · exact guarantees_keepsKeys hboth
          ((within_sendContent _ content).mono fun _ ↦ ClientCall.Reads.keepsKeys) hstate
    dsimp only
    split_ifs
    · exact addressed_of_names (guarantees_then hboth (guarantees_keepsKeys hboth
        ((within_handleSendText rounds target).mono fun _ ↦ ClientCall.Reads.keepsKeys)
        ⟨hfound, hknown⟩) fun content after hafter ↦ hcontent _ after hafter content)
          returns_content
    · exact addressed_of_names (guarantees_keepsKeys hboth
        ((within_sendContent _ _).mono fun _ ↦ ClientCall.Reads.keepsKeys) ⟨hfound, hknown⟩)
        (returns_sendContent target _ [])
    · exact addressed_of_names (guarantees_then hboth
        (guarantees_handleSendSymmetricKey hboth target ⟨hfound, hknown⟩)
        fun content after hafter ↦ hcontent _ after hafter content) returns_content
    · have hreturns := returns_sendContent target [] []
      rw [List.append_nil] at hreturns
      exact addressed_of_names (guarantees_keepsKeys hboth
        ((within_sendContent _ _).mono fun _ ↦ ClientCall.Reads.keepsKeys) ⟨hfound, hknown⟩)
          hreturns

/-- Assumes: a fact that implies that entries are stored under their own IDs. -/
theorem guarantees_handleMenuChoice (hlasting : Lasting crypto thread fact)
    (hindexed : ∀ state, fact state → state.client.ctx.Indexed) (rounds choice : ℕ)
    (hfact : fact shared) :
    (handleMenuChoice rounds choice).Guarantees (methods (friendSetting crypto thread))
      (Addressed fact) shared := by
  have hquiet : ∀ {program : Program Bytes}, program.Within ClientCall.Reads →
      program.Returns SendsNothing →
      program.Guarantees (methods (friendSetting crypto thread)) (Addressed fact) shared :=
    fun hwithin hreturns ↦ addressed_of_sendsNothing (guarantees_keepsKeys hlasting
      (hwithin.mono fun _ ↦ ClientCall.Reads.keepsKeys) hfact) hreturns
  unfold handleMenuChoice
  split_ifs
  · exact addressed_of_sendsNothing
      (guarantees_keepsKeys hlasting
        ((within_handleRegister rounds).mono fun _ ↦ ClientCall.KeepsFriends.keepsKeys) hfact)
      (returns_handleRegister sendsNothing_nil (sendsNothing_createBuffer (by simp) (by simp)))
  · exact hquiet within_handleClientList
      (returns_handleClientList (sendsNothing_createBuffer (by simp) (by simp)))
  · exact hquiet (within_handlePublicKey rounds)
      (returns_handlePublicKey sendsNothing_nil (sendsNothing_createBuffer (by simp) (by simp)))
  · exact hquiet within_handleWaitingMessages
      (returns_handleWaitingMessages (sendsNothing_createBuffer (by simp) (by simp)))
  · exact guarantees_handleAllMessages hlasting hindexed rounds _ hfact
  · exact guarantees_handleAllMessages hlasting hindexed rounds _ hfact
  · exact guarantees_handleAllMessages hlasting hindexed rounds _ hfact
  · exact hquiet (within_pure _) sendsNothing_nil

/-- The exception of `responseMessageSent` for a client that is not in the cache. -/
abbrev notCached : CppError :=
  .logicError "responseMessageSent: friend not found in cache"

/-- The answer to a message is processed without that exception. Assumes: it names a client with an
entry. -/
theorem guarantees_responseMessageSent (hlasting : Lasting crypto thread fact) {data : Bytes}
    {id : ClientId} (hread : readClientID data headerSize = .ok id) (hfact : fact shared)
    (hknown : shared.Known id) :
    (responseMessageSent data).Guarantees (methods (friendSetting crypto thread))
      (fun outcome after ↦ fact after ∧ outcome ≠ .error notCached) shared := by
  have hended : ∀ {outcome : Except CppError Unit} {state : Shared}, outcome ≠ .error notCached →
      fact state → (finished outcome : Program Unit).Guarantees
        (methods (friendSetting crypto thread))
        (fun outcome after ↦ fact after ∧ outcome ≠ .error notCached) state :=
    fun houtcome hstate _ hseen ↦ ⟨hlasting _ _ hseen hstate, houtcome⟩
  unfold responseMessageSent
  split_ifs
  · exact hended (by simp) hfact
  rw [hread]
  refine guarantees_ask fun seen hseen ↦ ⟨trivial, ?_⟩
  have hfound := hlasting _ _ hseen hfact
  obtain ⟨entry, hentry⟩ := Option.isSome_iff_exists.mp (lasting_known id _ _ hseen hknown)
  change (proceed _ (.ok (seen.client.ctx.tryGetFriendCopy id))).Guarantees _ _ seen
  rw [hentry, proceed_ok]
  dsimp only
  cases hnumber : readUint32LE data (headerSize + clientIdSize) with
  | error exception =>
    refine hended (fun hsame ↦ ?_) hfound
    rw [Except.error.inj hsame] at hnumber
    unfold readUint32LE at hnumber
    split_ifs at hnumber
    exact absurd (Except.error.inj hnumber) (by simp)
  | ok msgID =>
    intro later hlater
    refine ⟨trivial, ?_⟩
    rintro answer after ⟨response, hserve⟩
    cases hserve
    exact hended (by nofun) (hlasting.exec (hlasting _ _ hlater hfound))

end Functions

/-! ### Rounds -/

/-- A response says that the message of a request was sent, and names the target of the request. -/
structure AnswersMessage (request response : Bytes) : Prop where
  requestCode : Server.codeOf request = requestAllMessages
  responseCode : codeOf response = responseMessageSentCode
  target : ∃ id, readClientID response headerSize = .ok id ∧ Server.requestedIdOf request = id.val

/-- What a round ends with. The round of the main thread does not end with the exception of
`responseMessageSent` when the response names the target of its request. -/
def RoundEnds : Thread → Except CppError Unit → Shared → Prop
  | .main, outcome, shared =>
    ∀ request response, shared.exchanged .main = some (request, response) →
    AnswersMessage request response → outcome ≠ .error notCached
  | .pull, _, _ => True

section Rounds

variable {crypto : Crypto} {shared : Shared}

theorem lasting_indexed {thread : Thread} :
    Lasting crypto thread fun state ↦ state.client.ctx.Indexed :=
  fun _ _ hrely hindexed ↦ hrely.1.indexed hindexed

theorem lasting_exchanged {thread : Thread} (exchanged : Option (Bytes × Bytes)) :
    Lasting crypto thread fun state ↦ state.exchanged thread = exchanged :=
  fun _ _ hrely hexchanged ↦ hrely.2.trans hexchanged

/-- A response that answers a message goes to `responseMessageSent`. -/
theorem AnswersMessage.responseClientMain_eq {request response : Bytes}
    (h : AnswersMessage request response) :
    responseClientMain response = responseMessageSent response := by
  obtain ⟨id, hread, -⟩ := h.target
  have hlength : ¬response.length < headerSize := by
    unfold readClientID at hread
    split_ifs at hread with hsize
    exact not_lt.mpr ((Nat.le_add_right _ _).trans hsize)
  rw [responseClientMain, if_neg hlength, h.responseCode, if_neg (by simp), if_neg (by simp),
    if_neg (by simp), if_pos rfl]

/-- The processing of a response, with an entry for the client that the request went to. -/
theorem guarantees_processing {request buffer : Bytes} (hindexed : shared.client.ctx.Indexed)
    (hexchanged : shared.exchanged .main = some (request, buffer))
    (htarget : Server.codeOf request = requestAllMessages →
      ∃ target : ClientId, Server.requestedIdOf request = target.val ∧ shared.Known target) :
    (here (responseClientMain buffer)).Guarantees (friendSetting crypto .main) (RoundEnds .main)
      shared := by
  have hlasting : Lasting crypto .main fun state ↦ state.client.ctx.Indexed ∧
      state.exchanged .main = some (request, buffer) := lasting_indexed.and (lasting_exchanged _)
  refine guarantees_here ?_
  by_cases hanswers : AnswersMessage request buffer
  · obtain ⟨target, htarget, hknown⟩ := htarget hanswers.requestCode
    obtain ⟨id, hread, hid⟩ := hanswers.target
    have hsame : target = id := Subtype.ext (htarget.symm.trans hid)
    rw [hanswers.responseClientMain_eq]
    exact (guarantees_responseMessageSent hlasting hread ⟨hindexed, hexchanged⟩
      (hsame ▸ hknown)).mono fun _ _ hafter _ _ _ _ ↦ hafter.2
  · refine (guarantees_responseClientMain hlasting buffer ⟨hindexed, hexchanged⟩).mono
      fun _ _ hafter earlier response hlast hmatches ↦ ?_
    have hpair := hafter.2.symm.trans hlast
    cases hpair
    exact absurd hmatches hanswers

theorem guarantees_mainTurn (rounds choice : ℕ) (hindexed : shared.client.ctx.Indexed)
    (hexchanged : shared.exchanged .main = none) :
    (mainTurn rounds choice).Guarantees (friendSetting crypto .main) (RoundEnds .main) shared := by
  have hlasting : Lasting crypto .main fun state ↦ state.client.ctx.Indexed ∧
      state.exchanged .main = none := lasting_indexed.and (lasting_exchanged _)
  have hended : ∀ (outcome : Except CppError Unit) (state : Shared), state.exchanged .main = none →
      RoundEnds .main outcome state := by
    intro outcome state hnone request response hlast
    rw [hnone] at hlast
    cases hlast
  refine (guarantees_here (guarantees_handleMenuChoice hlasting (fun _ h ↦ h.1) rounds choice
    ⟨hindexed, hexchanged⟩)).bind (tolerant_friendSetting crypto .main)
    (fun _ _ hafter seen hseen ↦ hended _ seen (hlasting _ _ hseen hafter.1).2)
    fun data after hafter ↦ ?_
  split_ifs
  · exact fun seen hseen ↦ hended _ seen (hlasting _ _ hseen hafter.1).2
  · intro seen hseen
    obtain ⟨hseenIndexed, hseenExchanged⟩ := hlasting _ _ hseen hafter.1
    refine ⟨trivial, ?_⟩
    rintro answer final ⟨response, hserve⟩
    cases response with
    | error exception =>
      cases hserve
      exact fun later hlater ↦ hended _ later (hlasting _ _ hlater ⟨hseenIndexed, hseenExchanged⟩).2
    | ok buffer =>
      cases hserve
      have hpair : Function.update seen.exchanged .main (some (data, buffer)) .main =
          some (data, buffer) := Function.update_self ..
      refine guarantees_processing hseenIndexed hpair fun hcode ↦ ?_
      obtain ⟨target, htarget, hknown⟩ := hafter.2 data rfl hcode
      have hseenKnown : seen.Known target := lasting_known target _ _ hseen hknown
      exact ⟨target, htarget, hseenKnown⟩

theorem guarantees_pullTurn :
    pullTurn.Guarantees (friendSetting crypto .pull) (RoundEnds .pull) shared := by
  have hsetting := tolerant_friendSetting crypto .pull
  have hlasting : Lasting crypto .pull fun _ ↦ True := fun _ _ _ _ ↦ trivial
  have hcall : ∀ (call : ClientCall) (state : Shared), call.KeepsKeys →
      (here (ask call)).Guarantees (friendSetting crypto .pull) (fun _ _ ↦ True) state :=
    fun _ _ hkeeps ↦ guarantees_here (guarantees_keepsKeys hlasting (within_call hkeeps) trivial)
  refine (hcall .hasClientID _ trivial).bind hsetting
    (fun _ _ _ _ _ ↦ trivial) fun registered after _ ↦ ?_
  split_ifs
  · exact fun _ _ ↦ trivial
  refine Guarantees.attempt hsetting (show Guarantees _ (fun _ _ ↦ True) _ after from ?_)
    fun outcome later _ ↦ ?_
  · refine (hcall .getClientID _ trivial).bind hsetting (fun _ _ _ _ _ ↦ trivial) fun id _ _ ↦ ?_
    refine fun seen hseen ↦ ⟨trivial, fun answer final _ ↦ ?_⟩
    cases answer with
    | error exception => exact fun _ _ ↦ trivial
    | ok buffer =>
      change (here (ask (.print _)) >>=
        fun _ ↦ here (responseClientMain buffer)).Guarantees _ _ final
      exact (hcall (.print _) _ trivial).bind hsetting (fun _ _ _ _ _ ↦ trivial) fun _ _ _ ↦
        guarantees_here (guarantees_responseClientMain hlasting buffer trivial)
  · cases outcome <;> exact fun _ _ ↦ trivial

end Rounds

/-! ### Runs of the two threads -/

/-- What holds at every moment of a run. -/
structure CacheSound (crypto : Crypto) (threads : Threads) : Prop where
  indexed : threads.ctx.Indexed
  sound : threads.Sound (friendSetting crypto) RoundEnds

theorem cacheSound_start (crypto : Crypto) (client : ClientState) :
    CacheSound crypto (.start client) where
  indexed := ClientContext.indexed_of_empty rfl
  sound := by
    intro thread seen hseen
    cases thread with
    | main =>
      intro request response hlast
      rw [hseen.2] at hlast
      cases hlast
    | pull => trivial

/-- An event lets the cache grow. -/
theorem grows_step (crypto : Crypto) (threads : Threads) (event : ThreadEvent) :
    Grows threads.ctx (threads.step crypto event).ctx := by
  refine Threads.step_cases (motive := fun after ↦ Grows threads.ctx after.ctx) crypto threads event
    (.refl _) (fun _ _ _ _ ↦ .refl _) (fun _ _ _ ↦ .refl _) fun thread response _ ↦ ?_
  cases hrest : threads.rest thread with
  | finished outcome =>
    rw [Team.perform_of_finished _ hrest]
    exact .refl _
  | request call resume =>
    rw [Team.perform_of_request _ hrest]
    exact grows_serve crypto thread response threads.shared call

theorem CacheSound.step {crypto : Crypto} {threads : Threads} (h : CacheSound crypto threads)
    (event : ThreadEvent) : CacheSound crypto (threads.step crypto event) := by
  refine ⟨(grows_step crypto threads event).indexed h.indexed, ?_⟩
  have hother : ∀ {other thread : Thread} (client : ClientState), client.ctx = threads.ctx →
      other ≠ thread → (friendSetting crypto other).rely threads.shared
        (threads.prepared thread client) :=
    fun client hctx hne ↦ ⟨by rw [Threads.prepared, hctx]; exact .refl _,
      Function.update_of_ne hne _ _⟩
  refine Threads.step_cases (motive := fun after ↦ after.Sound (friendSetting crypto) RoundEnds)
    crypto threads event h.sound (fun choice surroundings _ _ ↦ ?_) (fun _ _ _ ↦ ?_)
    fun thread response _ ↦ ?_
  · exact h.sound.launch (tolerant_friendSetting crypto) (fun _ hne ↦ hother _ rfl hne)
      (guarantees_mainTurn _ choice h.indexed (threads.prepared_exchanged _ _))
  · exact h.sound.launch (tolerant_friendSetting crypto) (fun _ hne ↦ hother _ rfl hne)
      guarantees_pullTurn
  · exact h.sound.perform (tolerant_friendSetting crypto) (compatible_friendSetting crypto)
      fun _ _ _ ↦ ⟨response, rfl⟩

/-- The integrity of the cache. In every run of the two threads with any responses, every entry is
stored under its own ID; entries and keys that are there stay; a name that is found leads to an
entry; a setter of a key is only called for an ID that has an entry; and the answer to a message
that names its target never ends the main thread with the exception of `responseMessageSent`. -/
theorem friend_cache_integrity (crypto : Crypto) (client : ClientState)
    (events more : List ThreadEvent) :
    let threads := runEvents (Threads.step crypto) (.start client) events
    threads.ctx.Indexed ∧
      Grows threads.ctx (runEvents (Threads.step crypto) threads more).ctx ∧
      (∀ name uuid, threads.ctx.tryGetFriendIdByName name = some uuid →
        (threads.ctx.tryGetFriendCopy uuid).isSome) ∧
      (∀ thread call, threads.nextCall thread = some call → SetterAllowed threads.shared call) ∧
      ∀ request response, threads.shared.exchanged .main = some (request, response) →
        AnswersMessage request response → threads.rest .main ≠ .finished (.error notCached) := by
  intro threads
  have hsound : CacheSound crypto threads :=
    runEvents_invariant (fun _ event h ↦ h.step event) (cacheSound_start crypto client) events
  refine ⟨hsound.indexed, ?_, fun name uuid hname ↦ ?_, fun thread call hcall ↦ ?_,
    fun request response hlast hanswers hended ↦ ?_⟩
  · let related (before after : Threads) : Prop := Grows before.ctx after.ctx
    have htrans : ∀ {first second third}, related first second → related second third →
        related first third := fun h hnext ↦ Grows.trans h hnext
    exact runEvents_related (R := related) (fun _ ↦ Grows.refl _) htrans
      (grows_step crypto) threads more
  · obtain ⟨entry, hentry, -⟩ := ClientContext.exists_of_tryGetFriendIdByName hsound.indexed hname
    exact Option.isSome_iff_exists.mpr ⟨entry, hentry⟩
  · obtain ⟨resume, hrest⟩ := Threads.exists_of_nextCall hcall
    exact hsound.sound.allowed (tolerant_friendSetting crypto) hrest
  · exact hsound.sound.ended (tolerant_friendSetting crypto) hended request response
      hlast hanswers rfl

end MessageU.System

