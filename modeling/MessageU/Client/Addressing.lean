import MessageU.Client.Actions
import MessageU.Client.ClientList

/-!
# Registered names at the target prompt

A name is read at a prompt three times: by `getValidUsername` when it is registered, by the server,
which keeps the bytes before the first zero, and by `getValidUsername` again when another client
types it as a target. Every prompt accepts the name `"0"`, and the target prompts take it for a
cancellation. At the end the name is looked up in a cache in which a name of 255 bytes stands
without its last byte, and the first entry with the name is taken.

`Addressable` is what keeps a registered name from going wrong on this way, and `addressed_iff` says
that nothing else does.
-/

set_option autoImplicit false
set_option relaxedAutoImplicit false

namespace MessageU.Client

open Library

/-! ### The choices that only address another client -/

/-- The choices whose requests consist of a target. -/
abbrev addressingChoices : List ℕ :=
  [publicKeyChoice, requestSymmetricKeyChoice]

/-- Whatever is chosen, the request is there and goes to a client. -/
def Addresses (crypto : Crypto) (rounds : ℕ) (state : ClientState) (id : Bytes) : Prop :=
  ∀ choice ∈ addressingChoices, ∃ request,
    ((handleMenuChoice rounds choice).exec crypto state).2 = .ok request ∧ request ≠ [] ∧
      Server.requestedIdOf request = id

section Prompt

variable {crypto : Crypto} {state : ClientState} {rounds : ℕ}

/-- An addressing choice ends in a request to the client that the name leads to, or in none. -/
theorem addressing_outcome (crypto : Crypto) {choice : ℕ} (hchoice : choice ∈ addressingChoices)
    (hrounds : state.console.length < rounds) {accepted : Bytes × List Bytes}
    (haccepted : acceptedName state.console = some accepted) :
    (typedTarget state = none ∧ ((handleMenuChoice rounds choice).exec crypto state).2 = .ok []) ∨
      ∃ target request, typedTarget state = some target ∧
        ((handleMenuChoice rounds choice).exec crypto state).2 = .ok request ∧ request ≠ [] ∧
          Server.requestedIdOf request = target.val := by
  have hacted := handleMenuChoice_acted crypto state rounds choice hrounds
  have hother : choice ≠ registerChoice ∧ choice ≠ sendTextChoice ∧
      choice ≠ sendSymmetricKeyChoice := by
    simp only [addressingChoices, List.mem_cons, List.not_mem_nil, or_false] at hchoice
    rcases hchoice with rfl | rfl <;> simp
  generalize ((handleMenuChoice rounds choice).exec crypto state).1.ctx = ctx at hacted
  generalize ((handleMenuChoice rounds choice).exec crypto state).2 = outcome at hacted ⊢
  cases hacted with
  | cancelled htarget => exact .inl ⟨htarget hchoice, rfl⟩
  | endless hprompt hname => simp [haccepted] at hname
  | registering name rest hregister => exact absurd hregister hother.1
  | asking code hcode =>
    simp only [addressingChoices, List.mem_cons, List.not_mem_nil, or_false] at hchoice
    rcases hchoice with rfl | rfl <;> simp at hcode
  | askingKey target _ htarget =>
    have hrequested : Server.requestedIdOf (Server.requestFrame state.ctx.clientID.val
        requestPublicKey (target.val ++ [])) = target.val :=
      Server.requestedIdOf_requestFrame state.ctx.clientID.property target.property _
    rw [List.append_nil] at hrequested
    exact .inr ⟨target, _, htarget, rfl, Server.requestFrame_ne_nil state.ctx.clientID.property _ _,
      hrequested⟩
  | requestingKey target _ htarget =>
    exact .inr ⟨target, _, htarget, rfl, Server.requestFrame_ne_nil state.ctx.clientID.property _ _,
      Server.requestedIdOf_message state.ctx.clientID.property target.property _⟩
  | sendingText target key hsend => exact absurd hsend hother.2.1
  | sendingKey target publicKey cipher hsend => exact absurd hsend hother.2.2
  | dropped target publicKey hsend => exact absurd hsend hother.2.2
  | failing target publicKey exception hsend => exact absurd hsend hother.2.2

/-- A client is addressed exactly if the name leads to it. -/
theorem addresses_iff (hrounds : state.console.length < rounds) {accepted : Bytes × List Bytes}
    (haccepted : acceptedName state.console = some accepted) {id : Bytes} :
    Addresses crypto rounds state id ↔ ∃ target, typedTarget state = some target ∧
      target.val = id := by
  constructor
  · intro h
    have hchoice : publicKeyChoice ∈ addressingChoices := by simp
    obtain ⟨request, hrequest, hnonempty, hid⟩ := h publicKeyChoice hchoice
    rcases addressing_outcome crypto hchoice hrounds haccepted with
      ⟨-, hnone⟩ | ⟨target, sent, htarget, hsent, -, hsentId⟩
    · rw [hnone] at hrequest
      cases hrequest
      exact absurd rfl hnonempty
    · rw [hsent] at hrequest
      cases hrequest
      exact ⟨target, htarget, hsentId.symm.trans hid⟩
  · rintro ⟨target, htarget, rfl⟩ choice hchoice
    rcases addressing_outcome crypto hchoice hrounds haccepted with
      ⟨hnone, -⟩ | ⟨found, request, hfound, hrequest, hnonempty, hid⟩
    · rw [hnone] at htarget
      cases htarget
    · rw [hfound] at htarget
      cases htarget
      exact ⟨request, hrequest, hnonempty, hid⟩

end Prompt

/-! ### A registration that is granted -/

/-- A registration that is granted leaves the name that was typed in the context, and at the server
what is before its first zero. Assumes: a client without an ID, and more rounds than lines. -/
theorem registration_granted {crypto : Crypto} {limit : Option ℕ} {tables : Server.Tables}
    {rounds : ℕ} {newcomer registered : ClientState} {data response : Bytes}
    {ambient : Server.Ambient} (_hnew : newcomer.ctx.hasClientID = false)
    (hrounds : newcomer.console.length < rounds)
    (hregister : (handleRegister rounds).exec crypto newcomer = (registered, .ok data))
    (hresponse : (Server.serve limit tables data ambient).2 = .ok response)
    (hgranted : Server.responseCode response = Server.responseRegister) :
    (∃ rest, acceptedName newcomer.console = some (registered.ctx.userName, rest)) ∧
      ∃ publicKey, tables.insertClient ⟨ambient.token,
        registered.ctx.userName.takeWhile (· ≠ 0), publicKey, ambient.now⟩ =
          .ok (Server.serve limit tables data ambient).1 := by
  have hacted : Acted crypto newcomer registerChoice _ _ := handleRegister_acted hrounds
  rw [hregister] at hacted
  dsimp only at hacted
  generalize hctx : registered.ctx = ctx at hacted
  generalize houtcome : (Except.ok data : Except CppError Bytes) = outcome at hacted
  have herror : ∀ {answer : Bytes}, Server.responseCode answer = Server.responseRegister →
      answer ≠ Server.errorResponse := by
    rintro answer hcode rfl
    rw [Server.responseCode_errorResponse] at hcode
    simp at hcode
  cases hacted with
  | cancelled htarget =>
    cases houtcome
    have hinvalid : ¬Server.ValidHeader [] := by decide
    rw [Server.serve_invalid limit tables [] ambient hinvalid] at hresponse
    exact absurd (Except.ok.inj hresponse).symm (herror hgranted)
  | endless hprompt hname => cases houtcome
  | asking code hcode => simp at hcode
  | registering name rest hchoice hunregistered hname =>
    refine ⟨⟨rest, hname⟩, ?_⟩
    dsimp only
    have hsize := acceptedName_length hname
    have hfits : name.length ≤ nameSize := hsize.trans (Nat.sub_le _ _)
    let publicKey := crypto.publicKeyOf (crypto.generatePrivateKey newcomer.entropy.rsaSeed)
    have hdata : data = Server.requestFrame newcomer.ctx.clientID.val requestRegister
        (Server.registrationPayload name publicKey.val) := Except.ok.inj houtcome
    have hid := newcomer.ctx.clientID.property
    have hlength := Server.registrationPayload_length hfits publicKey.property
    have hvalid : Server.ValidHeader data := by
      rw [hdata]
      exact Server.validHeader_requestFrame hid (by rw [hlength]; simp)
    have hcode : Server.codeOf data = Server.requestRegister := by
      rw [hdata]
      exact Server.codeOf_requestFrame hid (by simp)
    have hserve := Server.serve_register limit tables data ambient hvalid hcode
    have hraw : Server.rawNameOf data = name.takeWhile (· ≠ 0) := by
      rw [hdata]
      exact Server.rawNameOf_registration_eq hid hfits _
    rw [hserve] at hresponse ⊢
    rw [hraw] at hresponse ⊢
    split_ifs at hresponse ⊢ with hregistration
    · cases hinsert : tables.insertClient
          ⟨ambient.token, name.takeWhile (· ≠ 0), Server.publicKeyOf data, ambient.now⟩ with
      | ok after => exact ⟨_, hinsert⟩
      | error exception =>
        rw [hinsert] at hresponse
        exact absurd (Except.ok.inj hresponse).symm (herror hgranted)
    · exact absurd (Except.ok.inj hresponse).symm (herror hgranted)
  | askingKey target hchoice => simp at hchoice
  | requestingKey target hchoice => simp at hchoice
  | sendingText target key hchoice => simp at hchoice
  | sendingKey target publicKey cipher hchoice => simp at hchoice
  | dropped target publicKey hchoice => simp at hchoice
  | failing target publicKey exception hchoice => simp at hchoice

/-! ### When a registered name is addressed -/

/-- What a name that leads to a new client must not meet: a zero, the convention of the target
prompts, or an entry with the same name in front of its own, which is that of an earlier client in
the list or was in the cache before. -/
structure Addressable (tables : Server.Tables) (observer : ClientContext) (id name : Bytes) :
    Prop where
  noNul : ∀ code ∈ name, code ≠ 0
  notZero : name ≠ zeroName
  listed : ∀ row ∈ tables.clients, row.id ≠ observer.clientID.val →
    row.userName.take (nameSize - 1) = name → compare row.id id ≠ .lt
  cached : ∀ uuid entry, observer.tryGetFriendCopy uuid = some entry → entry.friendName = name →
    (∀ row ∈ tables.clients, row.id ≠ observer.clientID.val → row.id ≠ uuid.val) →
      compare uuid.val id ≠ .lt

section Lookup

variable {tables after : Server.Tables} {observer : ClientContext} {row : Server.ClientRow}
  {name : Bytes}

/-- The name of a new client leads to it in the cache of a client that has learned the list.
Assumes: the row of the new client has the name, which has at most 254 bytes. -/
theorem tryGetFriendIdByName_cacheOf (hstore : Server.Store after) (hindexed : observer.Indexed)
    (hclients : after.clients = tables.clients ++ [row]) (hother : row.id ≠ observer.clientID.val)
    (hname : row.userName = name) (hsize : name.length ≤ nameSize - 1) :
    (∃ target, (cacheOf after observer.clientID.val observer).tryGetFriendIdByName name =
        some target ∧ target.val = row.id) ↔
      (∀ earlier ∈ tables.clients, earlier.id ≠ observer.clientID.val →
        earlier.userName.take (nameSize - 1) = name → compare earlier.id row.id ≠ .lt) ∧
      ∀ uuid entry, observer.tryGetFriendCopy uuid = some entry → entry.friendName = name →
        (∀ earlier ∈ tables.clients, earlier.id ≠ observer.clientID.val → earlier.id ≠ uuid.val) →
          compare uuid.val row.id ≠ .lt := by
  have hcache : (cacheOf after observer.clientID.val observer).Indexed := indexed_foldl _ hindexed
  have hrow : row ∈ after.clients := by
    rw [hclients]
    exact List.mem_append_right _ List.mem_cons_self
  have hearlier : ∀ {earlier}, earlier ∈ tables.clients → earlier ∈ after.clients := fun h ↦ by
    rw [hclients]
    exact List.mem_append_left _ h
  have hirrefl : compare row.id row.id ≠ .lt := by
    have hsame : compare row.id row.id = .eq := Std.ReflCmp.compare_self
    rw [hsame]
    simp
  constructor
  · rintro ⟨target, htarget, hid⟩
    obtain ⟨-, hfirst⟩ := (ClientContext.tryGetFriendIdByName_eq_some_iff hcache).mp htarget
    rw [← hid]
    refine ⟨fun earlier hmem hlisted hcut ↦ ?_, fun uuid entry hentry hsame hunlisted ↦ ?_⟩
    · obtain ⟨entry, hentry, hfriend⟩ := cacheOf_stored observer hstore (hearlier hmem) hlisted
      have hbefore := hfirst _ entry hentry (hfriend.trans hcut)
      rw [ClientId.order, compareOn, ofBytes_id hstore (hearlier hmem)] at hbefore
      exact hbefore
    · by_cases hnew : row.id = uuid.val
      · rw [hid, ← hnew]
        exact hirrefl
      · refine hfirst uuid entry ?_ hsame
        rw [cacheOf, tryGetFriendCopy_foldl_of_notMem _ _ fun listed hmem heq ↦ ?_]
        · exact hentry
        · obtain ⟨client, hclient, rfl⟩ := List.mem_map.mp hmem
          obtain ⟨found, hfound, hfoundOther, rfl⟩ := mem_otherClients.mp hclient
          have hval : found.id = uuid.val := by
            rw [← heq]
            exact (ofBytes_id hstore hfound).symm
          rw [hclients] at hfound
          rcases List.mem_append.mp hfound with hold | hlast
          · exact hunlisted found hold hfoundOther hval
          · rw [List.mem_singleton.mp hlast] at hval
            exact hnew hval
  · rintro ⟨hlisted, hcached⟩
    refine ⟨.ofBytes clientIdSize row.id, ?_, ofBytes_id hstore hrow⟩
    rw [ClientContext.tryGetFriendIdByName_eq_some_iff hcache]
    obtain ⟨entry, hentry, hcut⟩ := cacheOf_stored observer hstore hrow hother
    rw [hname, List.take_of_length_le hsize] at hcut
    refine ⟨⟨entry, hentry, hcut⟩, fun uuid found hfound hsame ↦ ?_⟩
    rw [ClientId.order, compareOn, ofBytes_id hstore hrow]
    rcases cacheOf_cases hstore hfound with ⟨listed, hmem, hlistedOther, rfl, hfriend⟩ |
      ⟨hunlisted, hold⟩
    · rw [ofBytes_id hstore hmem]
      rw [hclients] at hmem
      rcases List.mem_append.mp hmem with hold | hlast
      · exact hlisted listed hold hlistedOther (hfriend.symm.trans hsame)
      · rw [List.mem_singleton.mp hlast]
        exact hirrefl
    · exact hcached uuid found hold hsame fun earlier hmem ↦ hunlisted earlier (hearlier hmem)

end Lookup

/-- When every client can address a new one. A client without an ID registers a name, typed in any
lines, at reachable tables, and the registration is granted; any other client, whatever is in its
cache, takes the client list and types the name that the new client keeps. The server has stored
that name, and the requests of the other client go to the new one, if and only if the name is
addressable. Assumes: more rounds for the prompts than lines, and a cache whose entries are stored
under their own IDs. -/
theorem addressed_iff (crypto : Crypto) {limit : Option ℕ} {tables : Server.Tables} {rounds : ℕ}
    {newcomer registered observer : ClientState} {data response request list : Bytes}
    {ambient later : Server.Ambient} (hreachable : Server.Reachable limit tables)
    (hnew : newcomer.ctx.hasClientID = false) (hnewcomer : newcomer.console.length < rounds)
    (hregister : (handleRegister rounds).exec crypto newcomer = (registered, .ok data))
    (hresponse : (Server.serve limit tables data ambient).2 = .ok response)
    (hgranted : Server.responseCode response = Server.responseRegister)
    (hregistered : (Server.serve limit tables data ambient).1.Registered observer.ctx.clientID.val)
    (hother : observer.ctx.clientID.val ≠ ambient.token) (hindexed : observer.ctx.Indexed)
    (hrequest : Server.IsListRequest observer.ctx.clientID.val request)
    (hlist :
      (Server.serve limit (Server.serve limit tables data ambient).1 request later).2 = .ok list)
    (hlistCode : Server.responseCode list = Server.responseClientList)
    (hobserver : observer.console.length < rounds)
    (htyped : ∃ rest, acceptedName observer.console = some (registered.ctx.userName, rest)) :
    ((∃ row ∈ (Server.serve limit tables data ambient).1.clients,
        row.id = ambient.token ∧ row.userName = registered.ctx.userName) ∧
      Addresses crypto rounds ((responseClientMain list).exec crypto observer).1 ambient.token) ↔
      Addressable tables observer.ctx ambient.token registered.ctx.userName := by
  obtain ⟨⟨rest, haccepted⟩, publicKey, hinsert⟩ :=
    registration_granted hnew hnewcomer hregister hresponse hgranted
  have hstore := (hreachable.after_request data ambient).store
  generalize (Server.serve limit tables data ambient).1 = after at *
  generalize registered.ctx.userName = name at *
  obtain ⟨hclients, -, -, hfresh, -⟩ := Server.Tables.insertClient_eq_ok hinsert
  let row : Server.ClientRow :=
    ⟨ambient.token, name.takeWhile (· ≠ 0), publicKey, ambient.now⟩
  have hrow : row ∈ after.clients := by
    rw [hclients]
    exact List.mem_append_right _ List.mem_cons_self
  have hwhole : name.takeWhile (· ≠ 0) = name ↔ ∀ code ∈ name, code ≠ 0 := by
    simp only [List.takeWhile_eq_self_iff, decide_eq_true_eq]
  have hstored : (∃ row ∈ after.clients, row.id = ambient.token ∧ row.userName = name) ↔
      ∀ code ∈ name, code ≠ 0 := by
    rw [← hwhole]
    refine ⟨?_, fun h ↦ ⟨row, hrow, rfl, h⟩⟩
    rintro ⟨found, hfound, hid, hname⟩
    rw [hclients] at hfound
    rcases List.mem_append.mp hfound with hold | hlast
    · refine absurd ?_ hfresh
      show ambient.token ∈ tables.clients.map Server.ClientRow.id
      rw [← hid]
      exact List.mem_map_of_mem hold
    · rw [List.mem_singleton.mp hlast] at hname
      exact hname
  have hctx := ctx_after_list crypto hstore hregistered hrequest hlist hlistCode observer
  have hconsole : ((responseClientMain list).exec crypto observer).1.console =
      observer.console := by
    rw [after_list crypto hstore hregistered hrequest hlist hlistCode, foldl_learn_console]
  obtain ⟨lines, hlines⟩ := htyped
  generalize ((responseClientMain list).exec crypto observer).1 = informed at *
  rw [← hconsole] at hobserver hlines
  rw [hstored, addresses_iff hobserver hlines, typedTarget_eq hlines, hctx]
  have hlookup (hnoNul : ∀ code ∈ name, code ≠ 0) := tryGetFriendIdByName_cacheOf hstore hindexed
    hclients (Ne.symm hother) (hwhole.mpr hnoNul) (acceptedName_length haccepted)
  constructor
  · rintro ⟨hnoNul, target, htarget, hid⟩
    split_ifs at htarget with hzero
    obtain ⟨hlisted, hcached⟩ := (hlookup hnoNul).mp ⟨target, htarget, hid⟩
    exact ⟨hnoNul, hzero, hlisted, hcached⟩
  · intro h
    rw [if_neg h.notZero]
    exact ⟨h.noNul, (hlookup h.noNul).mpr ⟨h.listed, h.cached⟩⟩

/-- A client at a prompt. -/
def typing (name : Bytes) : ClientState :=
  { freshClient with console := [name] }

/-- The registered client at a prompt. -/
def soloTyping (name : Bytes) : ClientState :=
  { typing name with
    ctx := { ClientContext.empty with clientID := ⟨Server.soloRow.id, Server.soloRow_id_length⟩ } }

/-- The registration of the name that is typed. -/
def typedRegistration (name : Bytes) : Bytes :=
  Server.requestFrame (FixedBytes.zero clientIdSize).val requestRegister
    (Server.registrationPayload name
      (Crypto.tagged.publicKeyOf (Crypto.tagged.generatePrivateKey 0)).val)

/-- The client that has registered it. -/
def registeredAs (name : Bytes) : ClientState :=
  ((handleRegister 2).exec .tagged (typing name)).1

/-- The tables with the first client. -/
def soloTables : Server.Tables :=
  (Server.serve none Server.Tables.empty Server.soloRegistration Server.soloAmbient).1

theorem reachable_soloTables : Server.Reachable none soloTables :=
  (Server.reachable_empty none).after_request Server.soloRegistration Server.soloAmbient

/-- The tables after the registration. -/
def typedTables (name : Bytes) : Server.Tables :=
  (Server.serve none soloTables (typedRegistration name) Server.secondAmbient).1

/-- The list that the first client gets then. -/
def typedList (name : Bytes) : Bytes :=
  Server.responseFrame Server.responseClientList
    (Server.clientListPayload [(Server.secondAmbient.token, name)])

/-- The first client addresses a client that is named `"B"`. -/
theorem typed_name_addressed :
    (∃ row ∈ (typedTables [66]).clients,
        row.id = Server.secondAmbient.token ∧ row.userName = (registeredAs [66]).ctx.userName) ∧
      Addresses .tagged 2 ((responseClientMain (typedList [66])).exec .tagged (soloTyping [66])).1
        Server.secondAmbient.token := by
  have hregister : (handleRegister 2).exec .tagged (typing [66]) =
      (registeredAs [66], .ok (typedRegistration [66])) := Prod.ext rfl (by decide +kernel)
  have hname : (registeredAs [66]).ctx.userName = [66] := by decide +kernel
  have hresponse : (Server.serve none soloTables (typedRegistration [66]) Server.secondAmbient).2 =
      .ok (Server.responseFrame Server.responseRegister Server.secondAmbient.token) := by
    decide +kernel
  have hlist : (Server.serve none (typedTables [66]) soloList Server.soloAmbient).2 =
      .ok (typedList [66]) := by decide +kernel
  have hrequest : Server.IsListRequest Server.soloRow.id soloList :=
    Server.isBare_requestFrame Server.soloRow_id_length (by simp)
  have hindexed : (soloTyping [66]).ctx.Indexed := ClientContext.indexed_of_empty rfl
  have haddressed := addressed_iff .tagged reachable_soloTables (by decide) (by decide) hregister
    hresponse (by decide +kernel) (by decide +kernel) (by decide) hindexed hrequest hlist
    (by decide +kernel) (by decide) ⟨[], by rw [hname]; decide⟩
  rw [typedTables]
  refine haddressed.mpr ?_
  rw [hname]
  refine ⟨by simp, by simp [zeroName], by decide +kernel, fun uuid entry hentry ↦ ?_⟩
  have hnone : (soloTyping [66]).ctx.tryGetFriendCopy uuid = none := by
    simp [soloTyping, ClientContext.empty, ClientContext.tryGetFriendCopy]
  rw [hnone] at hentry
  cases hentry

/-- A client can register the name `"0"`, which cancels at every other prompt. -/
theorem zero_name_unaddressed :
    ¬∀ (tables : Server.Tables) (rounds : ℕ) (newcomer registered observer : ClientState)
      (data response request list : Bytes) (ambient later : Server.Ambient),
      Server.Reachable none tables → newcomer.ctx.hasClientID = false →
        newcomer.console.length < rounds →
        (handleRegister rounds).exec .tagged newcomer = (registered, .ok data) →
        (Server.serve none tables data ambient).2 = .ok response →
        Server.responseCode response = Server.responseRegister →
        (Server.serve none tables data ambient).1.Registered observer.ctx.clientID.val →
        observer.ctx.clientID.val ≠ ambient.token → observer.ctx.Indexed →
        Server.IsListRequest observer.ctx.clientID.val request →
        (Server.serve none (Server.serve none tables data ambient).1 request later).2 = .ok list →
        Server.responseCode list = Server.responseClientList → observer.console.length < rounds →
        (∃ rest, acceptedName observer.console = some (registered.ctx.userName, rest)) →
        (∃ row ∈ (Server.serve none tables data ambient).1.clients,
            row.id = ambient.token ∧ row.userName = registered.ctx.userName) ∧
          Addresses .tagged rounds ((responseClientMain list).exec .tagged observer).1
            ambient.token := by
  intro h
  have hregister : (handleRegister 2).exec .tagged (typing zeroName) =
      (registeredAs zeroName, .ok (typedRegistration zeroName)) := Prod.ext rfl (by decide +kernel)
  have hname : (registeredAs zeroName).ctx.userName = zeroName := by decide +kernel
  have hresponse : (Server.serve none soloTables (typedRegistration zeroName)
      Server.secondAmbient).2 =
        .ok (Server.responseFrame Server.responseRegister Server.secondAmbient.token) := by
    decide +kernel
  have hlist : (Server.serve none (typedTables zeroName) soloList Server.soloAmbient).2 =
      .ok (typedList zeroName) := by decide +kernel
  have hrequest : Server.IsListRequest Server.soloRow.id soloList :=
    Server.isBare_requestFrame Server.soloRow_id_length (by simp)
  obtain ⟨-, haddresses⟩ := h soloTables 2 (typing zeroName) (registeredAs zeroName)
    (soloTyping zeroName) _ _ _ _ Server.secondAmbient Server.soloAmbient
    reachable_soloTables (by decide) (by decide) hregister hresponse (by decide +kernel)
    (by decide +kernel) (by decide) (ClientContext.indexed_of_empty rfl) hrequest hlist
    (by decide +kernel) (by decide) ⟨[], by rw [hname]; decide⟩
  obtain ⟨sent, hsent, hnonempty, -⟩ := haddresses publicKeyChoice (by simp)
  have hcancelled : ((handleMenuChoice 2 publicKeyChoice).exec .tagged
      ((responseClientMain (typedList zeroName)).exec .tagged (soloTyping zeroName)).1).2 =
        .ok [] := by
    decide +kernel
  rw [hcancelled] at hsent
  exact hnonempty (Except.ok.inj hsent).symm

end MessageU.Client
