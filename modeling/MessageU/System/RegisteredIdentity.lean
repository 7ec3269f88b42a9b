import MessageU.Client.Replies
import MessageU.System.OwnAnswers

/-!
# The identity of a registered client

A registration writes the name and the private key of the client before its request is sent, and the
client ID when it is granted. Only a client without an ID registers, so that the name and the key
stay as they are from the moment the ID is there. `identitySetting` is this as a setting: the pull
thread leaves the identity alone, and the main thread, which relies on that, writes a name or a key
only while there is no ID, takes an ID only if the server holds it with the name and the key of the
client, and asks for an ID only if none was granted.

`Consistent` is the relation between the client, its file and the server that every allowed call
keeps. `registered_identity_consistent` collects what holds of every run.
-/

set_option autoImplicit false
set_option relaxedAutoImplicit false

namespace MessageU.System

open Library Client Interaction

/-! ### What an identity depends on -/

/-- What the calls of a client change, the identities that the server holds, and the responses that
were read. -/
structure View where
  client : ClientState
  identities : List Identity
  read : List Bytes

/-- The responses that grant a client ID. -/
def grants (responses : List Bytes) : List Bytes :=
  responses.filter fun response ↦ codeOf response = responseRegisterCode

/-- What a client is known by at the server. -/
def identityOf (crypto : Crypto) (ctx : ClientContext) : Identity :=
  (ctx.clientID.val, ctx.userName, (crypto.publicKeyOf ctx.privateKey).val)

/-- The part of a view that only the main thread changes. -/
structure Status where
  clientID : ClientId
  userName : Bytes
  privateKey : Bytes
  console : List Bytes
  disk : Disk
  granted : List Bytes

/-- The status of a view. -/
def View.status (view : View) : Status where
  clientID := view.client.ctx.clientID
  userName := view.client.ctx.userName
  privateKey := view.client.ctx.privateKey
  console := view.client.console
  disk := view.client.disk
  granted := grants view.read

/-- The client has an ID. -/
def Status.registered (status : Status) : Bool :=
  status.clientID.val.any (· ≠ 0)

/-- The view after a call of the client. -/
def View.after (view : View) (client : ClientState) : View :=
  { view with client := client }

/-- The view after a response has been read. -/
def View.heard (view : View) (response : Bytes) : View :=
  { view with read := view.read ++ [response] }

/-- A call that learns leaves the status. -/
theorem status_learns {call : ClientCall} (h : call.Learns) (crypto : Crypto) (view : View) :
    (view.after (call.exec crypto view.client).1).status = view.status := by
  cases call <;> first | rfl | exact h.elim

/-- A response that grants nothing leaves the status. -/
theorem status_heard {response : Bytes} (h : codeOf response ≠ responseRegisterCode) (view : View) :
    (view.heard response).status = view.status := by
  have hgrants : grants (view.read ++ [response]) = grants view.read := by
    rw [grants, List.filter_append, List.filter_cons_of_neg (by simpa using h), List.filter_nil,
      List.append_nil]
    rfl
  rw [View.status, View.heard]
  dsimp only
  rw [hgrants]
  rfl

/-! ### The setting of a thread -/

/-- What a response to a request grants. -/
def Grants (identities : List Identity) (request response : Bytes) : Prop :=
  codeOf response = responseRegisterCode → Server.codeOf request = requestRegister ∧
    ∃ id : ClientId, NonZero id.val ∧ readClientID response headerSize = .ok id ∧
      (id.val, Server.rawNameOf request, Server.publicKeyOf request) ∈ identities

/-- What an exchange does: its response is read and returned, or read and lost, or there is none. -/
inductive Exchanged (before : View) (request : Bytes) : Except CppError Bytes → View → Prop
  | returned (response : Bytes) (hgrants : Grants before.identities request response) :
    Exchanged before request (.ok response) (before.heard response)
  | lost (response : Bytes) (exception : CppError)
    (hgrants : Grants before.identities request response) :
    Exchanged before request (.error exception) (before.heard response)
  | failed (exception : CppError) : Exchanged before request (.error exception) before

/-- What a thread relies on. -/
def IdentityRely : Thread → View → View → Prop
  | .main, before, after =>
    before.identities ⊆ after.identities ∧ after.status = before.status
  | .pull, _, _ => True

/-- The calls that a thread may make. -/
def IdentityAllowed (crypto : Crypto) : Thread → View → LoopCall → Prop
  | .pull, _, .method call => call.Learns
  | .pull, _, .sendAndReceive data => Server.codeOf data ≠ requestRegister
  | .main, view, .method (.setClientID id) => view.status.registered = false ∧
    (id.val, view.client.ctx.userName, (crypto.publicKeyOf view.client.ctx.privateKey).val) ∈
      view.identities
  | .main, view, .method (.setName _) | .main, view, .method (.setPrivateKey _) =>
    view.status.registered = false
  | .main, view, .method .openMyInfo => view.status.registered = true
  | .main, view, .method (.writeMyInfo content) =>
    view.status.registered = true ∧ content = myInfoBytes crypto view.client.ctx
  | .main, _, .method _ => True
  | .main, view, .sendAndReceive data =>
    Server.codeOf data = requestRegister → view.status.granted = []

/-- The setting of the identity. -/
def identitySetting (crypto : Crypto) (thread : Thread) : Setting LoopCalls CppError View where
  rely := IdentityRely thread
  allowed := IdentityAllowed crypto thread
  step
    | view, .method call, answer, after =>
      answer = (call.exec crypto view.client).2 ∧
        after = view.after (call.exec crypto view.client).1
    | view, .sendAndReceive data, answer, after => Exchanged view data answer after

section Setting

variable {crypto : Crypto} {thread : Thread} {view : View} {α : Type}

theorem tolerant_identitySetting (crypto : Crypto) (thread : Thread) :
    (identitySetting crypto thread).Tolerant where
  refl := fun _ ↦ by
    cases thread with
    | main => exact ⟨List.Subset.refl _, rfl⟩
    | pull => trivial
  trans := fun h hnext ↦ by
    cases thread with
    | main => exact ⟨List.Subset.trans h.1 hnext.1, hnext.2.trans h.2⟩
    | pull => trivial

theorem executes_identitySetting :
    Executes crypto (identitySetting crypto thread) View.client View.after :=
  fun _ _ _ _ hstep ↦ hstep

/-- A response to a request that is no registration grants nothing. -/
theorem Grants.not_granted {identities : List Identity} {request response : Bytes}
    (h : Grants identities request response) (hcode : Server.codeOf request ≠ requestRegister) :
    codeOf response ≠ responseRegisterCode :=
  fun hgrant ↦ hcode (h hgrant).1

/-- An exchange that is no registration leaves the status. -/
theorem Exchanged.status_eq {request : Bytes} {answer : Except CppError Bytes} {after : View}
    (h : Exchanged view request answer after) (hcode : Server.codeOf request ≠ requestRegister) :
    after.identities = view.identities ∧ after.status = view.status := by
  cases h with
  | returned response hgrants => exact ⟨rfl, status_heard (hgrants.not_granted hcode) view⟩
  | lost response exception hgrants => exact ⟨rfl, status_heard (hgrants.not_granted hcode) view⟩
  | failed exception => exact ⟨rfl, rfl⟩

/-- What one thread may do is what the other one relies on. -/
theorem compatible_identitySetting (crypto : Crypto) :
    Team.Compatible (identitySetting crypto) := by
  intro first second hne state call answer after hallowed hstep
  cases second with
  | pull => trivial
  | main =>
    cases first with
    | main => exact absurd rfl hne
    | pull =>
      cases call with
      | method call =>
        obtain ⟨-, rfl⟩ := hstep
        exact ⟨List.Subset.refl _, status_learns hallowed crypto state⟩
      | sendAndReceive data =>
        obtain ⟨hidentities, hstatus⟩ := Exchanged.status_eq hstep hallowed
        exact ⟨hidentities ▸ List.Subset.refl _, hstatus⟩

end Setting

/-! ### Registrations -/

/-- No ID was granted to the client. -/
structure Status.Fresh (status : Status) : Prop where
  unregistered : status.registered = false
  granted : status.granted = []

/-- A round may begin. -/
def Status.Settled (status : Status) : Prop :=
  status.registered = true ∨ status.granted = []

section Registration

variable {crypto : Crypto} {view : View} {α : Type} {post : Except CppError α → View → Prop}

/-- A call of the main thread and what follows it, in the state that the call is made in. -/
theorem guarantees_main {call : ClientCall} {next : call.Result → Program α}
    (h : ∀ seen, view.identities ⊆ seen.identities → seen.status = view.status →
      IdentityAllowed crypto .main seen (.method call) ∧
        (proceed next (call.exec crypto seen.client).2).Guarantees
          (methods (identitySetting crypto .main)) post
          (seen.after (call.exec crypto seen.client).1)) :
    (ask call >>= next).Guarantees (methods (identitySetting crypto .main)) post view :=
  guarantees_method executes_identitySetting fun seen hseen ↦ h seen hseen.1 hseen.2

/-- A program that has ended, with a postcondition on the status. -/
theorem guarantees_over {fact : Except CppError α → Status → Prop} {outcome : Except CppError α}
    (h : fact outcome view.status) :
    (finished outcome : Program α).Guarantees (methods (identitySetting crypto .main))
      (fun outcome after ↦ fact outcome after.status) view :=
  fun seen hseen ↦ by
    have hstatus : seen.status = view.status := hseen.2
    show fact outcome seen.status
    rwa [hstatus]

/-- The name that `getValidUsername` returns is the accepted one. -/
theorem guarantees_getValidUsername (prompt : String) (rounds : ℕ) (hfresh : view.status.Fresh) :
    (getValidUsername prompt rounds).Guarantees (methods (identitySetting crypto .main))
      (fun outcome after ↦ after.status.Fresh ∧ ∀ name, outcome = .ok name →
        ∃ rest, acceptedName view.status.console = some (name, rest)) view := by
  induction rounds generalizing view with
  | zero => exact fun seen hseen ↦ ⟨hseen.2 ▸ hfresh, nofun⟩
  | succ rounds ih =>
    refine guarantees_main fun prompted _ hprompted ↦ ⟨trivial, ?_⟩
    refine guarantees_main fun read _ hread ↦ ⟨trivial, ?_⟩
    have hconsole : read.client.console = view.status.console := by
      show read.status.console = view.status.console
      rw [hread]
      exact congrArg Status.console hprompted
    have hstill : read.status.Fresh := by
      rw [hread]
      exact (hprompted ▸ hfresh : prompted.status.Fresh)
    have hround := acceptedName_eq view.status.console
    rw [← hconsole] at hround ⊢
    let rest : View := read.after { read.client with console := read.client.console.tail }
    have hrest : rest.status.Fresh := ⟨hstill.unregistered, hstill.granted⟩
    show Guarantees _ _ (if read.client.console.head?.getD [] = zeroName then _ else _) rest
    split_ifs with hzero hvalid
    · refine guarantees_main fun printed _ hprinted ↦ ⟨trivial, fun seen hseen ↦ ?_⟩
      have hstatus : seen.status = rest.status := hseen.2.trans hprinted
      rw [hzero, if_pos (.inl rfl)] at hround
      refine ⟨hstatus ▸ hrest, ?_⟩
      rintro name ⟨⟩
      exact ⟨_, hround⟩
    · refine guarantees_main fun printed _ hprinted ↦ ⟨trivial, ?_⟩
      have hrefused : ¬(read.client.console.head?.getD [] = zeroName ∨
          isValidUsername (read.client.console.head?.getD []) = true) :=
        not_or.mpr ⟨hzero, by simpa using hvalid⟩
      rw [if_neg hrefused] at hround
      have hprintedFresh : printed.status.Fresh := hprinted ▸ hrest
      have hprintedConsole : printed.status.console = read.client.console.tail :=
        congrArg Status.console hprinted
      rw [hround, ← hprintedConsole]
      exact @ih (printed.after (ClientCall.exec crypto printed.client (.print _)).1) hprintedFresh
    · intro seen hseen
      have hstatus : seen.status = rest.status := hseen.2
      have haccepted : read.client.console.head?.getD [] = zeroName ∨
          isValidUsername (read.client.console.head?.getD []) = true :=
        .inr (by simpa using hvalid)
      rw [if_pos haccepted] at hround
      refine ⟨hstatus ▸ hrest, ?_⟩
      rintro name ⟨⟩
      exact ⟨_, hround⟩

/-- The registration of a name without a zero carries the name and the public key. -/
theorem registration_fields (id : ClientId) {name : Bytes} (publicKey : FixedBytes publicKeySize)
    (hsize : name.length ≤ nameSize - 1) (hnoNul : ∀ code ∈ name, code ≠ 0) :
    Server.rawNameOf (createBuffer id requestRegister (nameField name ++ publicKey.val)) = name ∧
      Server.publicKeyOf (createBuffer id requestRegister (nameField name ++ publicKey.val)) =
        publicKey.val := by
  have hpayload : nameField name ++ publicKey.val =
      Server.registrationPayload name publicKey.val := by
    rw [nameField_eq hsize]
    rfl
  have hname : name.length ≤ nameSize := hsize.trans (Nat.sub_le _ _)
  rw [hpayload, createBuffer_eq]
  exact ⟨Server.rawNameOf_registration id.property hname hnoNul _,
    Server.publicKeyOf_registration id.property hname publicKey.property _⟩

/-- A request that registers a client as it is. -/
structure Registers (crypto : Crypto) (status : Status) (request : Bytes) : Prop where
  fresh : status.Fresh
  name : Server.rawNameOf request = status.userName
  publicKey : Server.publicKeyOf request = (crypto.publicKeyOf status.privateKey).val

/-- An action ends in the registration of the client as it is, or in a request that is none. -/
def Acts (crypto : Crypto) (outcome : Except CppError Bytes) (status : Status) : Prop :=
  ∀ request, outcome = .ok request → Registers crypto status request ∨
    (status.Settled ∧ Server.codeOf request ≠ requestRegister)

theorem acts_nothing {status : Status} (h : status.Settled) : Acts crypto (.ok []) status := by
  rintro request ⟨⟩
  exact .inr ⟨h, by decide⟩

/-- Assumes: an accepted name without a zero. -/
theorem guarantees_handleRegister (rounds : ℕ) (hsettled : view.status.Settled)
    (hnoNul : ∀ accepted ∈ acceptedName view.status.console, ∀ code ∈ accepted.1, code ≠ 0) :
    (handleRegister rounds).Guarantees (methods (identitySetting crypto .main))
      (fun outcome after ↦ Acts crypto outcome after.status) view := by
  have hsetting := tolerant_methods (tolerant_identitySetting crypto .main)
  refine guarantees_main fun seen _ hseen ↦ ⟨trivial, ?_⟩
  have hseenSettled : seen.status.Settled := hseen ▸ hsettled
  rw [← hseen] at hnoNul
  show Guarantees _ _ (if seen.status.registered = true then _ else _) seen
  split_ifs with hregistered
  · refine guarantees_main fun printed _ hprinted ↦ ⟨trivial, ?_⟩
    refine guarantees_over (acts_nothing ?_)
    exact (hprinted ▸ hseenSettled : printed.status.Settled)
  · rw [Bool.not_eq_true] at hregistered
    have hfresh : seen.status.Fresh :=
      ⟨hregistered, hseenSettled.resolve_left (by simp [hregistered])⟩
    refine (guarantees_getValidUsername _ rounds hfresh).bind hsetting (fun _ _ _ _ _ ↦ nofun)
      fun name after hafter ↦ ?_
    obtain ⟨rest, haccepted⟩ := hafter.2 name rfl
    have hname : ∀ code ∈ name, code ≠ 0 := hnoNul _ haccepted
    refine guarantees_main fun named _ hnamed ↦ ?_
    have hnamedFresh : named.status.Fresh := hnamed ▸ hafter.1
    refine ⟨hnamedFresh.unregistered, guarantees_main fun drawn _ hdrawn ↦ ⟨trivial, ?_⟩⟩
    refine guarantees_main fun keyed _ hkeyed ↦ ?_
    have hkeyedStatus : keyed.status = { named.status with userName := name } :=
      hkeyed.trans hdrawn
    refine ⟨?_, guarantees_main fun derived _ hderived ↦ ⟨trivial, ?_⟩⟩
    · show keyed.status.registered = false
      rw [hkeyedStatus]
      exact hnamedFresh.unregistered
    refine guarantees_main fun last _ hlast ↦ ⟨trivial, guarantees_over ?_⟩
    have hlastStatus : last.status = { named.status with
        userName := name
        privateKey := crypto.generatePrivateKey drawn.client.entropy.rsaSeed } := by
      let put (status : Status) : Status :=
        { status with privateKey := crypto.generatePrivateKey drawn.client.entropy.rsaSeed }
      exact (hlast.trans hderived).trans (congrArg put hkeyedStatus)
    show Acts crypto _ last.status
    rintro request ⟨⟩
    rw [hlastStatus]
    obtain ⟨hfieldName, hfieldKey⟩ := registration_fields last.client.ctx.clientID
      (crypto.publicKeyOf (crypto.generatePrivateKey drawn.client.entropy.rsaSeed))
      (acceptedName_length haccepted) hname
    exact .inl ⟨⟨hnamedFresh.unregistered, hnamedFresh.granted⟩, hfieldName, hfieldKey⟩

/-- A function that learns leaves the status. -/
theorem guarantees_learns (fact : Status → Prop) {program : Program α}
    (hprogram : program.Within ClientCall.Learns) (hfact : fact view.status) :
    program.Guarantees (methods (identitySetting crypto .main)) (fun _ after ↦ fact after.status)
      view := by
  refine guarantees_of_within (fun before seen hbefore hrely ↦ ?_) (fun call seen hkind _ ↦ ?_)
    (fun call seen answer after hkind hseen hstep ↦ ?_) (fun _ _ h ↦ h) hprogram hfact
  · have hstatus : seen.status = before.status := hrely.2
    rwa [hstatus]
  · cases call <;> first | exact hkind.elim | trivial
  · obtain ⟨-, rfl⟩ := hstep
    rwa [status_learns hkind]

/-- An action that is no registration. -/
theorem guarantees_otherChoice {choice : ℕ} (rounds : ℕ) (hchoice : choice ≠ registerChoice)
    (hsettled : view.status.Settled) :
    (handleMenuChoice rounds choice).Guarantees (methods (identitySetting crypto .main))
      (fun outcome after ↦ Acts crypto outcome after.status) view := by
  have hreturns : (handleMenuChoice rounds choice).Returns fun request ↦
      Server.codeOf request ≠ requestRegister := by
    refine returns_handleMenuChoice hchoice (by decide) fun id code payload hcode ↦ ?_
    rw [createBuffer_eq, Server.codeOf_requestFrame id.property]
    · rintro rfl
      simp at hcode
    · simp only [List.mem_cons, List.not_mem_nil, or_false] at hcode
      rcases hcode with rfl | rfl | rfl | rfl <;> simp
  have hkept : (handleMenuChoice rounds choice).Guarantees (methods (identitySetting crypto .main))
      (fun _ after ↦ after.status.Settled) view := by
    refine guarantees_of_within (fun before seen hbefore hrely ↦ ?_) (fun call seen hkind _ ↦ ?_)
      (fun call seen answer after hkind hseen hstep ↦ ?_) (fun _ _ h ↦ h)
      (within_handleMenuChoice hchoice rounds) hsettled
    · have hstatus : seen.status = before.status := hrely.2
      rwa [hstatus]
    · cases call <;> first | exact hkind.elim | trivial
    · obtain ⟨-, rfl⟩ := hstep
      cases call <;> first | exact hseen | exact hkind.elim
  exact (hkept.and_returns hreturns).mono fun outcome after hafter request hrequest ↦
    .inr ⟨hafter.1, hafter.2 request hrequest⟩

/-- An action. Assumes: a name that is accepted for a registration has no zero. -/
theorem guarantees_choice (rounds choice : ℕ) (hsettled : view.status.Settled)
    (hnoNul : choice = registerChoice →
      ∀ accepted ∈ acceptedName view.status.console, ∀ code ∈ accepted.1, code ≠ 0) :
    (handleMenuChoice rounds choice).Guarantees (methods (identitySetting crypto .main))
      (fun outcome after ↦ Acts crypto outcome after.status) view := by
  by_cases hchoice : choice = registerChoice
  · rw [handleMenuChoice, if_pos hchoice]
    exact guarantees_handleRegister rounds hsettled (hnoNul hchoice)
  · exact guarantees_otherChoice rounds hchoice hsettled

/-! ### Responses -/

/-- A client with an ID saves its identity. -/
theorem guarantees_saveMyInfo (hregistered : view.status.registered = true) :
    saveMyInfo.Guarantees (methods (identitySetting crypto .main))
      (fun _ after ↦ after.status.registered = true) view := by
  refine guarantees_main fun seen _ hseen ↦ ⟨trivial, ?_⟩
  refine guarantees_main fun named _ hnamed ↦ ⟨trivial, ?_⟩
  refine guarantees_main fun keyed _ hkeyed ↦ ⟨trivial, ?_⟩
  have hnamedStatus : named.status = view.status := hnamed.trans hseen
  have hkeyedStatus : keyed.status = view.status := hkeyed.trans hnamedStatus
  have hkept : ∀ later : View, later.status.clientID = view.status.clientID →
      later.status.registered = true := fun later hid ↦ by
    rw [Status.registered, hid]
    exact hregistered
  have hended : ∀ (program : Program Unit) (later : View), program.Within ClientCall.Learns →
      later.status.clientID = view.status.clientID →
        program.Guarantees (methods (identitySetting crypto .main))
          (fun _ after ↦ after.status.registered = true) later :=
    fun program later hprogram hid ↦
      guarantees_learns (fun status ↦ status.registered = true) hprogram (hkept later hid)
  show Guarantees _ _ (if _ then _ else _) keyed
  split_ifs
  · exact hended _ _ (within_call trivial) (congrArg Status.clientID hkeyedStatus)
  refine guarantees_main fun opened _ hopened ↦ ?_
  have hopenedStatus : opened.status = view.status := hopened.trans hkeyedStatus
  have hopenedId : opened.status.clientID = view.status.clientID :=
    congrArg Status.clientID hopenedStatus
  refine ⟨hkept opened hopenedId, ?_⟩
  show (proceed _ opened.client.disk.opens).Guarantees _ _
    (opened.after { opened.client with disk := opened.client.disk.truncated })
  generalize hopens : opened.client.disk.opens = opens
  rcases opens with exception | isOpen
  · exact hended _ _ (within_finished _) hopenedId
  cases isOpen with
  | false => exact hended _ _ (within_call trivial) hopenedId
  | true =>
    refine guarantees_main fun encoded _ hencoded ↦ ⟨trivial, ?_⟩
    refine guarantees_main fun asked _ hasked ↦ ⟨trivial, ?_⟩
    refine guarantees_main fun written _ hwritten ↦ ?_
    have hwrittenStatus : written.status =
        { view.status with disk := opened.client.disk.truncated } := by
      let put (status : Status) : Status :=
        { status with disk := opened.client.disk.truncated }
      exact ((hwritten.trans hasked).trans hencoded).trans (congrArg put hopenedStatus)
    have hwrittenId : written.status.clientID = view.status.clientID := by
      rw [hwrittenStatus]
    refine ⟨⟨hkept written hwrittenId, ?_⟩, ?_⟩
    · have hname : named.client.ctx.userName = written.client.ctx.userName := by
        show named.status.userName = written.status.userName
        rw [hnamedStatus, hwrittenStatus]
      have hkey : keyed.client.ctx.privateKey = written.client.ctx.privateKey := by
        show keyed.status.privateKey = written.status.privateKey
        rw [hkeyedStatus, hwrittenStatus]
      have hid : asked.client.ctx.clientID = written.client.ctx.clientID :=
        (congrArg Status.clientID hwritten).symm
      show named.client.ctx.userName ++ [10] ++ bytesToHex asked.client.ctx.clientID ++ [10] ++
        (crypto.base64Encode keyed.client.ctx.privateKey).filter
            (fun byte ↦ byte ≠ 10 ∧ byte ≠ 13) =
          myInfoBytes crypto written.client.ctx
      rw [hname, hkey, hid]
      rfl
    · show Guarantees _ _ (if (!written.client.disk.writes) = true then _ else _) _
      split_ifs
      · exact hended _ _ (within_call trivial) hwrittenId
      · exact hended _ _ (within_pure _) hwrittenId

/-- The ID that was granted is taken and saved. Assumes: the server holds it with the name and the
key of the client. -/
theorem guarantees_responseRegister {response : Bytes} {id : ClientId}
    (hread : readClientID response headerSize = .ok id) (hnonzero : NonZero id.val)
    (hunregistered : view.status.registered = false)
    (hrow : (id.val, view.status.userName, (crypto.publicKeyOf view.status.privateKey).val) ∈
      view.identities) :
    (responseRegister response).Guarantees (methods (identitySetting crypto .main))
      (fun _ after ↦ after.status.registered = true) view := by
  have hsetting := tolerant_methods (tolerant_identitySetting crypto .main)
  rw [responseRegister, hread]
  refine guarantees_main fun seen hidentities hseen ↦ ⟨⟨?_, ?_⟩, ?_⟩
  · rw [hseen]
    exact hunregistered
  · show (id.val, seen.status.userName, (crypto.publicKeyOf seen.status.privateKey).val) ∈ _
    rw [hseen]
    exact hidentities hrow
  let taken : View :=
    seen.after { seen.client with ctx := { seen.client.ctx with clientID := id } }
  have hregistered : taken.status.registered = true := by
    obtain ⟨byte, hbyte, hne⟩ := hnonzero
    exact List.any_eq_true.mpr ⟨byte, hbyte, by simpa using hne⟩
  refine (guarantees_saveMyInfo hregistered).bind hsetting (fun _ after hafter later hlater ↦ ?_)
    fun _ after hafter ↦ ?_
  · have hstatus : later.status = after.status := hlater.2
    rw [hstatus]
    exact hafter
  · refine guarantees_learns (fun status ↦ status.registered = true) ?_ hafter
    refine within_ask.mpr ⟨trivial, fun _ ↦ within_ask.mpr ⟨trivial, fun name ↦ ?_⟩⟩
    refine within_ask.mpr ⟨trivial, fun _ ↦ within_ask.mpr ⟨trivial, fun id ↦ ?_⟩⟩
    exact within_call trivial

end Registration

/-! ### Rounds -/

/-- What a round ends with. -/
def IdentityEnds : Thread → Except CppError Unit → View → Prop
  | .main, .ok _, view => view.status.Settled
  | .main, .error _, _ | .pull, _, _ => True

section Rounds

variable {crypto : Crypto} {view : View}

/-- The processing of a response in the main thread. Assumes: the request registers the client as it
is, or is no registration. -/
theorem guarantees_response {request response : Bytes}
    (hacts : Acts crypto (.ok request) view.status)
    (hgrants : Grants view.identities request response) :
    (here (responseClientMain response)).Guarantees (identitySetting crypto .main)
      (IdentityEnds .main) (view.heard response) := by
  refine guarantees_here ?_
  by_cases hcode : codeOf response = responseRegisterCode
  · obtain ⟨hregister, id, hnonzero, hread, hrow⟩ := hgrants hcode
    rcases hacts request rfl with hregisters | ⟨-, hother⟩
    · rw [hregisters.name, hregisters.publicKey] at hrow
      have hunregistered : (view.heard response).status.registered = false :=
        hregisters.fresh.unregistered
      unfold responseClientMain
      split_ifs
      · exact fun _ _ ↦ trivial
      · refine (guarantees_responseRegister hread hnonzero hunregistered hrow).mono
          fun outcome after hafter ↦ ?_
        cases outcome with
        | ok value => exact .inl hafter
        | error exception => trivial
    · exact absurd hregister hother
  · have hsettled : (view.heard response).status.Settled := by
      rw [status_heard hcode]
      exact (hacts request rfl).elim (fun hregisters ↦ .inr hregisters.fresh.granted) And.left
    refine (guarantees_learns Status.Settled (within_responseClientMain hcode) hsettled).mono
      fun outcome after hafter ↦ ?_
    cases outcome with
    | ok value => exact hafter
    | error exception => trivial

/-- A round of the main thread. Assumes: a name that is accepted for a registration has no zero. -/
theorem guarantees_identity_main (rounds choice : ℕ) (hsettled : view.status.Settled)
    (hnoNul : choice = registerChoice →
      ∀ accepted ∈ acceptedName view.status.console, ∀ code ∈ accepted.1, code ≠ 0) :
    (mainTurn rounds choice).Guarantees (identitySetting crypto .main)
      (IdentityEnds .main) view := by
  refine (guarantees_here (guarantees_choice rounds choice hsettled hnoNul)).bind
    (tolerant_identitySetting crypto .main) (fun _ _ _ _ _ ↦ trivial) fun data after hacts ↦ ?_
  split_ifs
  · intro seen hseen
    have hstatus : seen.status = after.status := hseen.2
    show seen.status.Settled
    rw [hstatus]
    exact (hacts data rfl).elim (fun hregisters ↦ .inr hregisters.fresh.granted) And.left
  · intro seen hseen
    have hstatus : seen.status = after.status := hseen.2
    rw [← hstatus] at hacts
    refine ⟨fun hcode ↦ ?_, fun answer final hexchanged ↦ ?_⟩
    · rcases hacts data rfl with hregisters | ⟨-, hother⟩
      · exact hregisters.fresh.granted
      · exact absurd hcode hother
    · cases hexchanged with
      | returned response hgrants => exact guarantees_response hacts hgrants
      | lost response exception hgrants => exact fun _ _ ↦ trivial
      | failed exception => exact fun _ _ ↦ trivial

/-- A round of the pull thread. -/
theorem guarantees_identity_pull :
    pullTurn.Guarantees (identitySetting crypto .pull) (IdentityEnds .pull) view := by
  refine (guarantees_pulling (tolerant_identitySetting crypto .pull) (fun _ _ ↦ id)
    (fun state id ↦ ?_) view).mono fun _ _ _ ↦ trivial
  have hother : Server.codeOf (createBuffer id requestWaitingMessages []) ≠ requestRegister := by
    rw [codeOf_pull]
    simp
  refine ⟨hother, fun response after hexchanged ↦ ?_⟩
  generalize hanswer : Except.ok response = answer at hexchanged
  cases (hexchanged : Exchanged _ _ answer _) with
  | returned read hgrants =>
    cases hanswer
    exact hgrants.not_granted hother
  | lost => cases hanswer
  | failed => cases hanswer

end Rounds

/-! ### The client, its file and the server -/

/-- The client, its file and the server agree. `saved` is what the file holds before a run. -/
structure Consistent (crypto : Crypto) (saved : Option Bytes) (view : View) : Prop where
  row : view.status.registered = true → identityOf crypto view.client.ctx ∈ view.identities
  file : view.client.disk.myInfo = saved ∨ (view.status.registered = true ∧
    (view.client.disk.myInfo = some [] ∨
      view.client.disk.myInfo = some (myInfoBytes crypto view.client.ctx)))
  once : view.status.granted.length ≤ 1

section Consistent

variable {crypto : Crypto} {saved : Option Bytes} {view after : View}

/-- What leaves the identity, the file and the grants keeps the agreement. -/
theorem Consistent.congr (h : Consistent crypto saved view)
    (hidentities : view.identities ⊆ after.identities)
    (hid : after.client.ctx.clientID = view.client.ctx.clientID)
    (hname : after.client.ctx.userName = view.client.ctx.userName)
    (hkey : after.client.ctx.privateKey = view.client.ctx.privateKey)
    (hfile : after.client.disk.myInfo = view.client.disk.myInfo)
    (hgranted : after.status.granted = view.status.granted) : Consistent crypto saved after := by
  have hregistered : after.status.registered = view.status.registered := by
    show after.client.ctx.clientID.val.any _ = view.client.ctx.clientID.val.any _
    rw [hid]
  have hidentity : identityOf crypto after.client.ctx = identityOf crypto view.client.ctx := by
    rw [identityOf, hid, hname, hkey, identityOf]
  have hbytes : myInfoBytes crypto after.client.ctx = myInfoBytes crypto view.client.ctx := by
    rw [myInfoBytes, hid, hname, hkey, myInfoBytes]
  refine ⟨fun hhas ↦ ?_, ?_, ?_⟩
  · rw [hidentity]
    exact hidentities (h.row (hregistered ▸ hhas))
  · rw [hfile, hregistered, hbytes]
    exact h.file
  · rw [hgranted]
    exact h.once

/-- An equal status keeps the agreement. -/
theorem Consistent.of_status (h : Consistent crypto saved view)
    (hidentities : view.identities ⊆ after.identities) (hstatus : after.status = view.status) :
    Consistent crypto saved after :=
  h.congr hidentities (congrArg Status.clientID hstatus) (congrArg Status.userName hstatus)
    (congrArg Status.privateKey hstatus) (congrArg (fun status ↦ status.disk.myInfo) hstatus)
    (congrArg Status.granted hstatus)

/-- While there is no ID, the file is as it was. -/
theorem Consistent.unsaved (h : Consistent crypto saved view)
    (hunregistered : view.status.registered = false) : view.client.disk.myInfo = saved := by
  refine h.file.resolve_right fun hsaved ↦ ?_
  rw [hunregistered] at hsaved
  exact Bool.noConfusion hsaved.1

/-- A call of the main thread that is allowed keeps the agreement. -/
theorem Consistent.exec (h : Consistent crypto saved view) {call : ClientCall}
    (hallowed : IdentityAllowed crypto .main view (.method call)) :
    Consistent crypto saved (view.after (call.exec crypto view.client).1) := by
  cases call with
  | setClientID id =>
    obtain ⟨hunregistered, hrow⟩ := hallowed
    exact ⟨fun _ ↦ hrow, .inl (h.unsaved hunregistered), h.once⟩
  | setName name =>
    have hunregistered : view.status.registered = false := hallowed
    refine ⟨fun hhas ↦ ?_, .inl (h.unsaved hunregistered), h.once⟩
    exact absurd (hunregistered.symm.trans hhas) (by simp)
  | setPrivateKey privateKey =>
    have hunregistered : view.status.registered = false := hallowed
    refine ⟨fun hhas ↦ ?_, .inl (h.unsaved hunregistered), h.once⟩
    exact absurd (hunregistered.symm.trans hhas) (by simp)
  | openMyInfo =>
    have hregistered : view.status.registered = true := hallowed
    refine ⟨h.row, ?_, h.once⟩
    show view.client.disk.truncated.myInfo = saved ∨ (view.status.registered = true ∧
      (view.client.disk.truncated.myInfo = some [] ∨
        view.client.disk.truncated.myInfo = some (myInfoBytes crypto view.client.ctx)))
    rw [Disk.truncated]
    split
    · exact .inr ⟨hregistered, .inl rfl⟩
    · exact h.file
    · exact h.file
  | writeMyInfo content =>
    obtain ⟨hregistered, rfl⟩ := hallowed
    refine ⟨h.row, ?_, h.once⟩
    show (if view.client.disk.writes = true then some (myInfoBytes crypto view.client.ctx)
        else view.client.disk.myInfo) = saved ∨ (view.status.registered = true ∧
      ((if view.client.disk.writes = true then some (myInfoBytes crypto view.client.ctx)
        else view.client.disk.myInfo) = some [] ∨
      (if view.client.disk.writes = true then some (myInfoBytes crypto view.client.ctx)
        else view.client.disk.myInfo) = some (myInfoBytes crypto view.client.ctx)))
    split_ifs
    · exact .inr ⟨hregistered, .inr rfl⟩
    · exact h.file
  | _ => exact h.congr (List.Subset.refl _) rfl rfl rfl rfl rfl

/-- A response that is read keeps the agreement. Assumes: a registration is only exchanged while no
ID was granted. -/
theorem Consistent.heard (h : Consistent crypto saved view) {request response : Bytes}
    (hgrants : Grants view.identities request response)
    (hfree : Server.codeOf request = requestRegister → view.status.granted = []) :
    Consistent crypto saved (view.heard response) := by
  by_cases hcode : codeOf response = responseRegisterCode
  · have hgranted : (view.heard response).status.granted = [response] := by
      have hnone : grants view.read = [] := hfree (hgrants hcode).1
      show grants (view.read ++ [response]) = [response]
      rw [grants] at hnone ⊢
      rw [List.filter_append, hnone, List.nil_append,
        List.filter_cons_of_pos (by simpa using hcode), List.filter_nil]
    refine ⟨h.row, h.file, ?_⟩
    rw [hgranted]
    exact le_rfl
  · exact h.of_status (List.Subset.refl _) (status_heard hcode view)

/-- What a thread is allowed to do keeps the agreement. -/
theorem Consistent.step (h : Consistent crypto saved view) {thread : Thread} {call : LoopCall}
    {answer : Except CppError call.Result}
    (hallowed : IdentityAllowed crypto thread view call)
    (hstep : (identitySetting crypto thread).step view call answer after) :
    Consistent crypto saved after := by
  cases call with
  | method call =>
    obtain ⟨-, rfl⟩ := hstep
    cases thread with
    | main => exact h.exec hallowed
    | pull => exact h.of_status (List.Subset.refl _) (status_learns hallowed crypto view)
  | sendAndReceive data =>
    have hfree : Server.codeOf data = requestRegister → view.status.granted = [] := by
      cases thread with
      | main => exact hallowed
      | pull => exact fun hcode ↦ absurd hcode hallowed
    cases (hstep : Exchanged view data answer after) with
    | returned response hgrants => exact h.heard hgrants hfree
    | lost response exception hgrants => exact h.heard hgrants hfree
    | failed exception => exact h

end Consistent

/-! ### Runs -/

namespace Session

/-- What the identity of the client depends on. -/
def view (session : Session) : View where
  client := session.threads.shared.client
  identities := session.link.identities
  read := session.read

/-- The threads over the view. -/
def team (session : Session) : Team Thread LoopCalls CppError Unit View where
  shared := session.view
  rest := session.threads.rest

/-- A name that is accepted for a registration has no zero. -/
def TypesNoNul (_ : Session) : SessionEvent → Prop
  | .choose choice surroundings => choice = registerChoice →
    ∀ accepted ∈ acceptedName surroundings.console, ∀ code ∈ accepted.1, code ≠ 0
  | .wake | .act _ | .send .. | .receive .. | .fail .. | .serve _ => True

/-- What holds at every moment of a run. -/
structure Identified (own : ℕ) (crypto : Crypto) (saved : Option Bytes) (session : Session) :
    Prop where
  sound : session.team.Sound (identitySetting crypto) IdentityEnds
  consistent : Consistent crypto saved session.view
  asked : ∀ data, session.link.asking ≠ none → session.link.request own = some data →
    Server.codeOf data = requestRegister → session.view.status.granted = []

variable {limit : Option ℕ} {own : ℕ} {crypto : Crypto} {saved : Option Bytes} {session : Session}

/-- What a response that is read grants. -/
theorem Heard.grants (h : session.Heard own) {thread : Thread} {data response : Bytes}
    (hresponse : session.link.response own thread = some response)
    (hrequest : session.link.request own = some data) :
    Grants session.link.identities data response := by
  intro hcode
  obtain ⟨staged, hsound, hdrawn⟩ := h.drawn
  obtain ⟨reply, hintends, -, -, hreply⟩ := h.linked.means hresponse hrequest
  obtain ⟨-, -, request, hreturned⟩ := hsound.returned hresponse
  obtain ⟨id, hnonzero, hid⟩ := hdrawn.returned request response hreturned hcode
  rw [hreply, codeOf_reply] at hcode
  cases reply with
  | registered granted =>
    have hread : readClientID response headerSize = .ok granted := by
      rw [hreply]
      exact readClientID_reply (List.append_nil _).symm
    have hread' : readClientID response headerSize = .ok id := by
      rw [hid]
      exact readClientID_reply (List.append_nil _).symm
    have hsame : granted = id := Except.ok.inj (hread.symm.trans hread')
    exact ⟨hintends.1, granted, hsame ▸ hnonzero, hread, hintends.2⟩
  | failed => simp [Reply.code] at hcode
  | listed clients => simp [Reply.code] at hcode
  | key id publicKey => simp [Reply.code] at hcode
  | sent target msgId => simp [Reply.code] at hcode
  | waiting messages => simp [Reply.code] at hcode

theorem identified_start (own : ℕ) (crypto : Crypto) {client : ClientState}
    (hnew : client.ctx.hasClientID = false) :
    Identified own crypto client.disk.myInfo (start client) where
  sound := fun thread seen hseen ↦ by
    cases thread with
    | main =>
      have hstatus : seen.status = (start client).view.status := hseen.2
      show seen.status.Settled
      rw [hstatus]
      exact .inr rfl
    | pull => trivial
  consistent :=
    { row := fun hregistered ↦ absurd (hnew.symm.trans hregistered) (by simp)
      file := .inl rfl
      once := Nat.zero_le _ }
  asked := nofun

/-- The pull thread relies on nothing, and the main thread on its part of the view. -/
theorem rely_of_status {before after : View} (hidentities : before.identities ⊆ after.identities)
    (hstatus : after.status = before.status) (thread : Thread) :
    IdentityRely thread before after := by
  cases thread with
  | main => exact ⟨hidentities, hstatus⟩
  | pull => trivial

/-- A thread makes its next call. -/
theorem Identified.act (h : session.Identified own crypto saved) {thread : Thread} {call : LoopCall}
    {resume : Except CppError call.Result → Loop Unit} {answer : Except CppError call.Result}
    {after : Session} (hrest : session.threads.rest thread = .request call resume)
    (hstep : (identitySetting crypto thread).step session.view call answer after.view)
    (hafter : after.threads.rest = (session.threads.launch thread after.threads.shared
      (resume answer)).rest)
    (hasked : ∀ data, after.link.asking ≠ none → after.link.request own = some data →
      Server.codeOf data = requestRegister → after.view.status.granted = []) :
    after.Identified own crypto saved := by
  have hsetting := tolerant_identitySetting crypto
  have hallowed := h.sound.allowed hsetting hrest
  refine ⟨?_, h.consistent.step hallowed hstep, hasked⟩
  have hteam : after.team = session.team.launch thread after.view (resume answer) := by
    rw [team, hafter]
    rfl
  rw [hteam]
  exact h.sound.act hsetting (compatible_identitySetting crypto) hrest hstep

/-- Something happens that no thread of the client takes part in. -/
theorem Identified.disturb (h : session.Identified own crypto saved) {link : Link}
    (hidentities : session.link.identities ⊆ link.identities)
    (hasked : ∀ data, link.asking ≠ none → link.request own = some data →
      Server.codeOf data = requestRegister → session.view.status.granted = []) :
    Identified own crypto saved { session with link := link } :=
  ⟨h.sound.disturb (tolerant_identitySetting crypto) (rely_of_status hidentities rfl),
    h.consistent.of_status hidentities rfl, hasked⟩

/-- Assumes: what is drawn for a request of the client is not zero, and a name that is accepted for
a registration has no zero. -/
theorem Identified.step (h : session.Identified own crypto saved) (hheard : session.Heard own)
    (limit : Option ℕ) {event : SessionEvent} (hnames : TypesNoNul session event) :
    (session.step limit own crypto event).Identified own crypto saved := by
  have hsetting := tolerant_identitySetting crypto
  obtain ⟨staged, hsound⟩ := hheard.linked.sound
  refine step_cases (motive := fun after ↦ after.Identified own crypto saved) hheard.linked limit
    crypto event h (fun choice surroundings hevent hrest ↦ ?_) (fun outcome hrest ↦ ?_)
    (fun thread call resume _ hrest ↦ ?_) (fun thread data resume ambient _ hrest ↦ ?_)
    (fun thread data resume response outcome _ hrest hresponse hrequest ↦ ?_)
    (fun thread data resume exception _ hrest ↦ ?_) fun happening _ ↦ ?_
  · subst hevent
    have hsettled : session.view.status.Settled := h.sound.ended hsetting hrest
    let prepared : View := session.view.after (surroundings.apply session.threads.shared.client)
    have hround : (mainTurn (surroundings.console.length + 1) choice).Guarantees
        (identitySetting crypto .main) (IdentityEnds .main) prepared :=
      guarantees_identity_main _ choice hsettled hnames
    refine ⟨h.sound.launch hsetting (fun other hne ↦ ?_) hround,
      h.consistent.congr (List.Subset.refl _) rfl rfl rfl rfl rfl, h.asked⟩
    cases other with
    | main => exact absurd rfl hne
    | pull => trivial
  · exact ⟨h.sound.launch hsetting (fun other _ ↦ (hsetting other).refl _) guarantees_identity_pull,
      h.consistent, h.asked⟩
  · exact h.act hrest ⟨rfl, rfl⟩ rfl h.asked
  · rcases hsound.send limit thread data ambient with hsame | ⟨-, -, hasking, -, htaken, hafter⟩
    · rw [hsame]
      exact h
    · refine h.disturb (hsound.identities_send limit thread data ambient)
        fun request _ hrequest hcode ↦ ?_
      rw [hafter.request, htaken, requestAt_settle] at hrequest
      cases hrequest
      have hallowed := h.sound.allowed hsetting hrest
      cases thread with
      | main => exact hallowed hcode
      | pull => exact absurd hcode hallowed
  · have hgrants := hheard.grants hresponse hrequest
    cases outcome with
    | ok value => exact h.act hrest (Exchanged.returned response hgrants) rfl nofun
    | error exception => exact h.act hrest (Exchanged.lost response exception hgrants) rfl nofun
  · have hexchanged : Exchanged session.view data (.error exception)
        { session.view with identities := (session.link.broken thread).identities } := by
      rw [Link.identities_broken]
      exact .failed exception
    refine h.act hrest hexchanged rfl ?_
    show ∀ data, (session.link.broken thread).asking ≠ none →
      (session.link.broken thread).request own = some data → _
    rw [Link.broken]
    split_ifs
    · exact h.asked
    · exact h.asked
  · rcases hsound.serve limit happening with hsame | ⟨hother, hasking, -, hafter⟩
    · rw [hsame]
      exact h
    · refine h.disturb (hsound.identities_serve limit happening) fun data hbusy hrequest ↦ ?_
      rw [hasking] at hbusy
      rw [hafter.request, requestAt_stagedStep limit happening hother, ← hsound.request] at hrequest
      exact h.asked data hbusy hrequest

/-- At most one registration of the client was granted. -/
theorem Identified.granted_once (h : session.Identified own crypto saved)
    (hheard : session.Heard own) :
    (grants (responsesTo own session.link.server)).length ≤ 1 := by
  have honce : (grants session.read).length ≤ 1 := h.consistent.once
  obtain ⟨staged, hsound, -⟩ := hheard.drawn
  rw [hheard.responses, System.grants, List.filter_append, hsound.unread]
  split_ifs with hfree
  · rwa [List.filter_nil, List.append_nil]
  cases hconnection : staged.connections own with
  | returned request response =>
    rw [returnedAt]
    by_cases hcode : codeOf response = responseRegisterCode
    · obtain ⟨reply, hintends, -, -, hreply⟩ :=
        hsound.answers.returned own request response hconnection
      have hregister : Server.codeOf request = requestRegister := by
        rw [hreply, codeOf_reply] at hcode
        cases reply with
        | registered granted => exact hintends.1
        | failed => simp [Reply.code] at hcode
        | listed clients => simp [Reply.code] at hcode
        | key id publicKey => simp [Reply.code] at hcode
        | sent target msgId => simp [Reply.code] at hcode
        | waiting messages => simp [Reply.code] at hcode
      have hrequest : session.link.request own = some request := by
        rw [hsound.request, hconnection]
        rfl
      have hnone : System.grants session.read = [] := h.asked request hfree hrequest hregister
      rw [System.grants] at hnone
      rw [hnone, List.nil_append]
      exact List.length_filter_le ..
    · rw [List.filter_cons_of_neg (by simpa using hcode), List.filter_nil, List.append_nil]
      exact honce
  | idle => rwa [returnedAt, List.filter_nil, List.append_nil]
  | busy request rest => rwa [returnedAt, List.filter_nil, List.append_nil]
  | stopped => rwa [returnedAt, List.filter_nil, List.append_nil]

/-- The identity of a registered client. In every run of a client that has no ID, with any choices,
pulls, rejected registrations and failing exchanges, against a server that other clients use as they
like: when the client has an ID, the server has a row for it, with the name of the client and the
public part of its private key; what is written to the file is the identity of the client, and the
file holds it, or nothing when the write has failed, or what it held before; and at most one
registration of the client is granted. Assumes: no ID of zeros is drawn for the client, and no name
with a zero is typed. -/
theorem registered_identity_consistent (limit : Option ℕ) (own : ℕ) (crypto : Crypto)
    (client : ClientState) (hnew : client.ctx.hasClientID = false) (events : List SessionEvent)
    (hdraws : Along (step limit own crypto) DrawsNonZero (start client) events)
    (hnames : Along (step limit own crypto) TypesNoNul (start client) events) :
    let session := runEvents (step limit own crypto) (start client) events
    (session.ctx.hasClientID = true → ∃ row ∈ session.link.server.tables.clients,
      row.id = session.ctx.clientID.val ∧ row.userName = session.ctx.userName ∧
        row.publicKey = (crypto.publicKeyOf session.ctx.privateKey).val) ∧
      (∀ thread content, session.threads.nextCall thread = some (.method (.writeMyInfo content)) →
        session.ctx.hasClientID = true ∧ content = myInfoBytes crypto session.ctx) ∧
      (session.threads.shared.client.disk.myInfo = client.disk.myInfo ∨
        session.ctx.hasClientID = true ∧
          (session.threads.shared.client.disk.myInfo = some [] ∨
            session.threads.shared.client.disk.myInfo = some (myInfoBytes crypto session.ctx))) ∧
      (System.grants (responsesTo own session.link.server)).length ≤ 1 := by
  intro session
  obtain ⟨hheard, hidentified⟩ : session.Heard own ∧
      session.Identified own crypto client.disk.myInfo :=
    (hdraws.and hnames).invariant
      (P := fun session ↦ session.Heard own ∧ session.Identified own crypto client.disk.myInfo)
      (fun _ _ hguard h ↦ ⟨h.1.step limit crypto hguard.1, h.2.step h.1 limit hguard.2⟩)
      ⟨heard_start own client, identified_start own crypto hnew⟩
  refine ⟨fun hhas ↦ ?_, fun thread content hcall ↦ ?_, hidentified.consistent.file,
    hidentified.granted_once hheard⟩
  · obtain ⟨row, hrow, hidentity⟩ := List.mem_map.mp (hidentified.consistent.row hhas)
    obtain ⟨hid, hname, hkey⟩ := Prod.ext_iff.mp hidentity |>.imp_right Prod.ext_iff.mp
    exact ⟨row, hrow, hid, hname, hkey⟩
  · obtain ⟨resume, hrest⟩ := Threads.exists_of_nextCall hcall
    have hallowed := hidentified.sound.allowed (tolerant_identitySetting crypto) hrest
    cases thread with
    | main => exact hallowed
    | pull => exact hallowed.elim

instance (session : Session) : DecidablePred (DrawsNonZero session)
  | .send _ ambient => inferInstanceAs (Decidable (NonZero ambient.token))
  | .choose .. | .wake | .act _ | .receive .. | .fail .. | .serve _ => isTrue trivial

instance (session : Session) : DecidablePred (TypesNoNul session)
  | .choose choice surroundings => inferInstanceAs (Decidable (choice = registerChoice →
      ∀ accepted ∈ acceptedName surroundings.console, ∀ code ∈ accepted.1, code ≠ 0))
  | .wake | .act _ | .send .. | .receive .. | .fail .. | .serve _ => isTrue trivial

/-- A client that has not registered. -/
def newcomer : ClientState where
  ctx := .empty
  console := []
  output := []
  entropy := ⟨.zero symmetricKeySize, 0⟩
  disk := ⟨.ok true, true, none⟩

/-- What the server draws for it. -/
def newcomerAmbient : Server.Ambient :=
  ⟨List.replicate clientIdSize 7, "", List.length_replicate⟩

/-- It registers, after a line that is no name. -/
def newcomerRun : List SessionEvent :=
  .choose registerChoice ⟨[[200], [65]], ⟨.zero symmetricKeySize, 3⟩, .ok true, true⟩ ::
    (List.replicate 11 (.act .main) ++ [.send .main newcomerAmbient, .serve (.call 0 false),
      .receive .main (.ok ())] ++ List.replicate 13 (.act .main))

/-- The newcomer has its row. -/
theorem newcomer_row : ∃ row ∈ (runEvents (step none 0 .tagged) (start newcomer)
      newcomerRun).link.server.tables.clients,
    row.id = newcomerAmbient.token ∧ row.userName = [65] := by
  have hid : (runEvents (step none 0 .tagged) (start newcomer) newcomerRun).ctx.clientID.val =
      newcomerAmbient.token := by decide +kernel
  have hname : (runEvents (step none 0 .tagged) (start newcomer) newcomerRun).ctx.userName =
      [65] := by
    decide +kernel
  obtain ⟨row, hrow, hrowId, hrowName, -⟩ := (registered_identity_consistent none 0 .tagged
    newcomer (by decide) newcomerRun (by decide +kernel) (by decide +kernel)).1 (by decide +kernel)
  exact ⟨row, hrow, hrowId.trans hid, hrowName.trans hname⟩

end Session

end MessageU.System
