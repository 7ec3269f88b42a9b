import MessageU.Client.Startup
import MessageU.System.Acquaintances

/-!
# The client across its restarts

A client may end or be killed at any moment and be started again. What it keeps is `my.info.txt`;
its cache is lost, and the new process has a connection of its own at the server, which has gone on.
`Lives` is a client with its file over any number of processes, against one server.

`identity_across_lives` is the agreement of client and server across restarts: whenever the client
has an ID, in whatever life, the server has a row for it with the name of the client and the public
part of its private key. The write of the file is all or nothing: the text is short, and it is
handed over at once when the file is closed. A process that ends between opening and closing the
file, or a write that fails, leaves an empty file, which is not accepted, and the client is a new
one again. `identity_kept` is that this happens once at most: from a life that has begun with an ID
on, the identity and the file stay as they are.

For the first one the names that are typed hold no newline (`Plain`), since the file is read by
lines. For the second one a client with an ID registers no more, and so is granted no other ID
(`Keeping`).
-/

set_option autoImplicit false
set_option relaxedAutoImplicit false

namespace MessageU.System

open Library Client Interaction

/-! ### The file -/

/-- What the Base64 functions promise of every text: without the line breaks, the encoding decodes
to the text. -/
def Decodes (crypto : Crypto) (decode : Bytes → Except CppError Bytes) : Prop :=
  ∀ key, decode ((crypto.base64Encode key).filter fun byte ↦ byte ≠ 10 ∧ byte ≠ 13) = .ok key

section File

variable {crypto : Crypto} {decode : Bytes → Except CppError Bytes}

/-- A file that was written for a context is read as the identity of this context, or not at all.
Assumes: the name of the context has no newline. -/
theorem loadedContext_myInfoBytes (hdecodes : Decodes crypto decode) {ctx : ClientContext}
    (hname : 10 ∉ ctx.userName) :
    loadedContext decode (some (myInfoBytes crypto ctx)) = .empty ∨
      loadedContext decode (some (myInfoBytes crypto ctx)) =
        { ClientContext.empty with
          userName := ctx.userName
          clientID := ctx.clientID
          privateKey := ctx.privateKey } := by
  have hlines : myInfoBytes crypto ctx = ctx.userName ++ 10 :: (bytesToHex ctx.clientID ++
      10 :: (crypto.base64Encode ctx.privateKey).filter fun byte ↦ byte ≠ 10 ∧ byte ≠ 13) := by
    simp [myInfoBytes]
  have hhex := newline_notMem (isValidHexUUID_iff.mp (isValidHexUUID_bytesToHex ctx.clientID)).2
  have hkey : (10 : UInt8) ∉
      (crypto.base64Encode ctx.privateKey).filter fun byte ↦ byte ≠ 10 ∧ byte ≠ 13 := by
    simp
  generalize hencoded : (crypto.base64Encode ctx.privateKey).filter
    (fun byte ↦ byte ≠ 10 ∧ byte ≠ 13) = encoded at hlines hkey
  rcases load_cases decode (myInfoBytes crypto ctx) .empty with hrefused | hfile
  · exact .inl (congrArg MyInfoLoad.ctx hrefused)
  · obtain ⟨name, clientIdHex, privateKeyBase64, privateKeyRaw, hfile⟩ := hfile
    right
    have hparts : ∀ last : Bytes, myInfoBytes crypto ctx =
        name ++ 10 :: (clientIdHex ++ 10 :: last) →
          name = ctx.userName ∧ clientIdHex = bytesToHex ctx.clientID ∧ last = encoded := by
      intro last hwhole
      rw [hlines] at hwhole
      have hfirst := congrArg (cut 10) hwhole
      rw [cut_append hname, cut_append hfile.name_line] at hfirst
      obtain ⟨hsame, hrest⟩ := Prod.mk.inj (Option.some.inj hfirst)
      have hsecond := congrArg (cut 10) hrest
      rw [cut_append hhex,
        cut_append (newline_notMem (isValidHexUUID_iff.mp hfile.hex).2)] at hsecond
      obtain ⟨hid, hlast⟩ := Prod.mk.inj (Option.some.inj hsecond)
      exact ⟨hsame.symm, hid.symm, hlast.symm⟩
    have hidentity : name = ctx.userName ∧ clientIdHex = bytesToHex ctx.clientID ∧
        privateKeyBase64 = encoded := by
      rcases hfile.lines with hwhole | hwhole
      · exact hparts _ hwhole
      · obtain ⟨-, -, hlast⟩ := hparts _ hwhole
        rw [← hlast] at hkey
        simp at hkey
    obtain ⟨rfl, rfl, rfl⟩ := hidentity
    have hraw : privateKeyRaw = ctx.privateKey := by
      have hdecoded := hdecodes ctx.privateKey
      rw [hencoded, hfile.decodes] at hdecoded
      exact Except.ok.inj hdecoded
    show (validateAndLoadMyInfo decode (myInfoBytes crypto ctx) .empty).ctx = _
    rw [load_eq hfile (uuidHex32ToBytes16_bytesToHex ctx.clientID), hraw]

end File

/-! ### Names without a newline -/

/-- A line that is read from the console holds no newline. -/
def Typed : (call : LoopCall) → Except CppError call.Result → Prop
  | .method .getline, answer => ∀ line, answer = .ok (some line) → 10 ∉ line
  | .method _, _ | .sendAndReceive _, _ => True

/-- A thread sets names without a newline. -/
def plainSetting : Setting LoopCalls CppError Unit where
  rely _ _ := True
  allowed _ call := ∀ name, call = .method (.setName name) → 10 ∉ name
  step _ call answer _ := Typed call answer

/-- Every name that a program sets is without a newline. -/
def SetsPlain {α : Type} (program : Loop α) (ends : Except CppError α → Prop) : Prop :=
  program.Guarantees plainSetting (fun outcome _ ↦ ends outcome) ()

section SetsPlain

variable {α β : Type}

theorem tolerant_plainSetting : plainSetting.Tolerant where
  refl := fun _ ↦ trivial
  trans := fun _ _ ↦ trivial

/-- A call that sets no name. -/
def KeepsName (call : ClientCall) : Prop :=
  ∀ name, call ≠ .setName name

/-- A function that sets no name. -/
theorem setsPlain_within {program : Program α} (h : program.Within KeepsName) :
    SetsPlain (here program) fun _ ↦ True := by
  let fact (_ : Unit) : Prop := True
  have hfact : fact () := trivial
  refine guarantees_here (guarantees_of_within (fun _ _ _ _ ↦ trivial)
    (fun call _ hcall _ name heq ↦ ?_) (fun _ _ _ _ _ _ _ ↦ trivial) (fun _ _ _ ↦ trivial) h hfact)
  exact absurd (LoopCall.method.inj heq) (hcall name)

/-- A call and what follows it. -/
theorem setsPlain_ask {ends : Except CppError α → Prop} {call : ClientCall}
    {next : call.Result → Program α} (hcall : ∀ name, call = .setName name → 10 ∉ name)
    (hnext : ∀ value, Typed (.method call) (.ok value) → SetsPlain (here (next value)) ends)
    (herror : ∀ exception, ends (.error exception)) :
    SetsPlain (here (ask call >>= next)) ends := by
  rintro ⟨⟩ -
  refine ⟨fun name heq ↦ hcall name (LoopCall.method.inj heq), fun answer after htyped ↦ ?_⟩
  cases answer with
  | ok value => exact hnext value htyped
  | error exception => exact fun _ _ ↦ herror exception

theorem SetsPlain.bind {ends : Except CppError β → Prop} {middle : Except CppError α → Prop}
    {program : Loop α} {next : α → Loop β} (h : SetsPlain program middle)
    (herror : ∀ exception, middle (.error exception) → ends (.error exception))
    (hnext : ∀ value, middle (.ok value) → SetsPlain (next value) ends) :
    SetsPlain (program >>= next) ends :=
  Guarantees.bind tolerant_plainSetting h (fun exception _ hmiddle _ _ ↦ herror exception hmiddle)
    fun value _ hmiddle ↦ hnext value hmiddle

/-- The name that is typed. -/
theorem setsPlain_getValidUsername (prompt : String) (rounds : ℕ) :
    SetsPlain (here (getValidUsername prompt rounds)) fun outcome ↦
      ∀ name, outcome = .ok name → 10 ∉ name := by
  have herror : ∀ exception name, (Except.error exception : Except CppError Bytes) = .ok name →
    10 ∉ name :=
    fun exception name heq ↦ by cases heq
  induction rounds with
  | zero => exact fun _ _ ↦ herror _
  | succ rounds ih =>
    refine setsPlain_ask (fun name heq ↦ by cases heq) (fun _ _ ↦ ?_) (herror ·)
    refine setsPlain_ask (fun name heq ↦ by cases heq) (fun line hline ↦ ?_) (herror ·)
    have hplain : 10 ∉ line.getD [] := by
      cases line with
      | none => simp
      | some text => exact hline text rfl
    dsimp only
    split_ifs
    · refine setsPlain_ask (fun name heq ↦ by cases heq) (fun _ _ _ _ name heq ↦ ?_) (herror ·)
      rw [← Except.ok.inj heq]
      decide
    · exact setsPlain_ask (fun name heq ↦ by cases heq) (fun _ _ ↦ ih) (herror ·)
    · intro _ _ name heq
      rw [← Except.ok.inj heq]
      exact hplain

theorem ClientCall.Reads.keepsName {call : ClientCall} (h : call.Reads) : KeepsName call := by
  rintro name rfl
  exact h

theorem ClientCall.KeepsIdentity.keepsName {call : ClientCall} (h : call.KeepsIdentity) :
    KeepsName call := by
  rintro name rfl
  exact h

theorem ClientCall.Learns.keepsName {call : ClientCall} (h : call.Learns) : KeepsName call := by
  rintro name rfl
  exact h

theorem setsPlain_handleRegister (rounds : ℕ) :
    SetsPlain (here (handleRegister rounds)) fun _ ↦ True := by
  have hreads : ∀ {call : ClientCall}, call.Reads → KeepsName call := ClientCall.Reads.keepsName
  refine setsPlain_ask (fun name heq ↦ by cases heq) (fun registered _ ↦ ?_) fun _ ↦ trivial
  split_ifs
  · exact setsPlain_within (within_ask.mpr ⟨hreads trivial, fun _ ↦ within_pure _⟩)
  rw [here_bind]
  refine (setsPlain_getValidUsername _ rounds).bind (fun _ _ ↦ trivial) fun name hname ↦ ?_
  refine setsPlain_ask (fun other heq ↦ ?_) (fun _ _ ↦ ?_) fun _ ↦ trivial
  · cases heq
    exact hname name rfl
  · have hkey : ∀ privateKey, KeepsName (.setPrivateKey privateKey) :=
      fun privateKey name heq ↦ by cases heq
    refine setsPlain_within (within_ask.mpr ⟨hreads trivial,
      fun _ ↦ within_ask.mpr ⟨hkey _, fun _ ↦ ?_⟩⟩)
    refine within_ask.mpr ⟨hreads trivial, fun _ ↦ ?_⟩
    exact within_ask.mpr ⟨hreads trivial, fun _ ↦ within_pure _⟩

/-- The processing of a response sets no name. -/
theorem within_responseClientMain_keepsName (data : Bytes) :
    (responseClientMain data).Within KeepsName := by
  by_cases hcode : codeOf data = responseRegisterCode
  · unfold responseClientMain
    split_ifs
    · exact within_throwing _
    · have hreads : ∀ call : ClientCall, call.Reads → KeepsName call :=
        fun _ ↦ ClientCall.Reads.keepsName
      have hset : ∀ id, KeepsName (.setClientID id) := fun id name heq ↦ by cases heq
      have hopen : KeepsName .openMyInfo := fun name heq ↦ by cases heq
      have hwrite : ∀ content, KeepsName (.writeMyInfo content) :=
        fun content name heq ↦ by cases heq
      refine (within_finished _).bind fun id ↦ within_ask.mpr ⟨hset id, fun _ ↦ ?_⟩
      refine (within_saveMyInfo_of hreads hopen hwrite).bind fun _ ↦ ?_
      refine within_ask.mpr ⟨hreads _ trivial,
        fun _ ↦ within_ask.mpr ⟨hreads _ trivial, fun _ ↦ ?_⟩⟩
      refine within_ask.mpr ⟨hreads _ trivial,
        fun _ ↦ within_ask.mpr ⟨hreads _ trivial, fun _ ↦ ?_⟩⟩
      exact within_call (hreads _ trivial)
  · exact (within_responseClientMain hcode).mono fun _ ↦ ClientCall.Learns.keepsName

theorem setsPlain_mainTurn (rounds choice : ℕ) :
    SetsPlain (mainTurn rounds choice) fun _ ↦ True := by
  have hchoice : SetsPlain (here (handleMenuChoice rounds choice)) fun _ ↦ True := by
    by_cases hregister : choice = registerChoice
    · rw [handleMenuChoice, if_pos hregister]
      exact setsPlain_handleRegister rounds
    · exact setsPlain_within ((within_handleMenuChoice hregister rounds).mono
        fun _ ↦ ClientCall.KeepsIdentity.keepsName)
  refine hchoice.bind (fun _ _ ↦ trivial) fun data _ ↦ ?_
  split_ifs
  · exact fun _ _ ↦ trivial
  · refine fun _ _ ↦ ⟨fun name heq ↦ (by cases heq), fun answer _ _ ↦ ?_⟩
    cases answer with
    | error exception => exact fun _ _ ↦ trivial
    | ok buffer => exact setsPlain_within (within_responseClientMain_keepsName buffer)

theorem setsPlain_pullTurn : SetsPlain pullTurn fun _ ↦ True := by
  have hcall : ∀ call : ClientCall, call.Reads → SetsPlain (here (ask call)) fun _ ↦ True :=
    fun call h ↦ setsPlain_within (within_call (ClientCall.Reads.keepsName h))
  refine (hcall .hasClientID trivial).bind (fun _ _ ↦ trivial) fun registered _ ↦ ?_
  split_ifs
  · exact fun _ _ ↦ trivial
  refine Guarantees.attempt tolerant_plainSetting
    (show SetsPlain _ (fun _ ↦ True) from ?_) fun outcome _ _ ↦ ?_
  · refine (hcall .getClientID trivial).bind (fun _ _ ↦ trivial) fun id _ ↦ ?_
    refine fun _ _ ↦ ⟨fun name heq ↦ (by cases heq), fun answer _ _ ↦ ?_⟩
    cases answer with
    | error exception => exact fun _ _ ↦ trivial
    | ok buffer =>
      show SetsPlain (here (ask (.print _)) >>= fun _ ↦ here (responseClientMain buffer)) _
      exact (hcall (.print _) trivial).bind (fun _ _ ↦ trivial)
        fun _ _ ↦ setsPlain_within (within_responseClientMain_keepsName buffer)
  · cases outcome <;> exact fun _ _ ↦ trivial

end SetsPlain

namespace Session

/-- A line that is typed holds no newline. -/
def TypesLines (_ : Session) : SessionEvent → Prop
  | .choose _ surroundings => ∀ line ∈ surroundings.console, 10 ∉ line
  | .wake | .act _ | .send .. | .receive .. | .fail .. | .serve _ => True

/-- The name of the client has no newline, and no thread sets one. -/
structure Plain (threads : Threads) : Prop where
  sound : Team.Sound (fun _ ↦ plainSetting) (fun _ _ _ ↦ True)
    (⟨(), threads.rest⟩ : Team Thread LoopCalls CppError Unit Unit)
  console : ∀ line ∈ threads.shared.client.console, 10 ∉ line
  name : 10 ∉ threads.ctx.userName

theorem plain_start {client : ClientState} (hconsole : ∀ line ∈ client.console, 10 ∉ line)
    (hname : 10 ∉ client.ctx.userName) : Plain (.start client) where
  sound := fun _ _ _ ↦ trivial
  console := hconsole
  name := hname

/-- A call that a thread is allowed leaves the name without a newline. -/
theorem plain_exec (crypto : Crypto) {client : ClientState} {call : ClientCall}
    (hcall : ∀ name, call = .setName name → 10 ∉ name)
    (hconsole : ∀ line ∈ client.console, 10 ∉ line) (hname : 10 ∉ client.ctx.userName) :
    Typed (.method call) (call.exec crypto client).2 ∧
      (∀ line ∈ (call.exec crypto client).1.console, 10 ∉ line) ∧
        10 ∉ (call.exec crypto client).1.ctx.userName := by
  cases call with
  | setName name => exact ⟨trivial, hconsole, hcall name rfl⟩
  | getline =>
    refine ⟨fun line hline ↦ ?_, fun line hline ↦ hconsole line (List.mem_of_mem_tail hline), hname⟩
    exact hconsole line (List.mem_of_head? (Except.ok.inj hline))
  | _ => exact ⟨trivial, hconsole, hname⟩

theorem Plain.step {threads : Threads} (h : Plain threads) (crypto : Crypto) (event : ThreadEvent)
    (hlines : ∀ choice surroundings, event = .choose choice surroundings →
      ∀ line ∈ surroundings.console, 10 ∉ line) : Plain (threads.step crypto event) := by
  have hsetting : ∀ thread : Thread, (plainSetting).Tolerant := fun _ ↦ tolerant_plainSetting
  refine Threads.step_cases (motive := Plain) crypto threads event h
    (fun choice surroundings hevent _ ↦ ?_) (fun _ outcome _ ↦ ?_) fun thread response _ ↦ ?_
  · refine ⟨?_, hlines choice surroundings hevent, h.name⟩
    exact h.sound.launch hsetting (fun _ _ ↦ trivial) (setsPlain_mainTurn _ choice)
  · exact ⟨h.sound.launch hsetting (fun _ _ ↦ trivial) setsPlain_pullTurn, h.console, h.name⟩
  · cases hrest : threads.rest thread with
    | finished outcome =>
      rw [Team.perform_of_finished _ hrest]
      exact h
    | request call resume =>
      rw [Team.perform_of_request _ hrest]
      have hact : ∀ {answer : Except CppError call.Result}, Typed call answer → Team.Sound
          (fun _ ↦ plainSetting) (fun _ _ _ ↦ True)
          (⟨(), Function.update threads.rest thread (resume answer)⟩ :
            Team Thread LoopCalls CppError Unit Unit) :=
        fun htyped ↦ h.sound.act hsetting (fun _ _ _ _ _ _ _ _ _ ↦ trivial) hrest htyped
      have hallowed := h.sound.allowed hsetting hrest
      cases call with
      | method call =>
        obtain ⟨htyped, hconsole, hname⟩ := plain_exec crypto
          (fun name heq ↦ hallowed name (congrArg _ heq)) h.console h.name
        exact ⟨hact htyped, hconsole, hname⟩
      | sendAndReceive data =>
        cases response with
        | ok buffer => exact ⟨hact trivial, h.console, h.name⟩
        | error exception => exact ⟨hact trivial, h.console, h.name⟩

/-- An event of a session is an event of its threads, or none. -/
theorem exists_threadEvent (limit : Option ℕ) (own : ℕ) (crypto : Crypto) (session : Session)
    (event : SessionEvent) :
    (session.step limit own crypto event).threads = session.threads ∨
      ∃ happened, (session.step limit own crypto event).threads =
          session.threads.step crypto happened ∧
        ∀ choice surroundings, happened = .choose choice surroundings →
          event = .choose choice surroundings := by
  cases event with
  | choose choice surroundings =>
    refine .inr ⟨.choose choice surroundings, rfl, fun other others heq ↦ ?_⟩
    cases heq
    rfl
  | wake => exact .inr ⟨.wake, rfl, fun _ _ heq ↦ by cases heq⟩
  | act thread =>
    simp only [step]
    split
    · exact .inr ⟨.act thread (.ok []), rfl, fun _ _ heq ↦ by cases heq⟩
    · exact .inl rfl
    · exact .inl rfl
  | send thread ambient =>
    simp only [step]
    split <;> exact .inl rfl
  | receive thread outcome =>
    simp only [step]
    split
    · exact .inr ⟨.act thread (outcome.map fun _ ↦ _), rfl, fun _ _ heq ↦ by cases heq⟩
    · exact .inl rfl
  | fail thread exception =>
    simp only [step]
    split
    · exact .inr ⟨.act thread (.error exception), rfl, fun _ _ heq ↦ by cases heq⟩
    · exact .inl rfl
    · exact .inl rfl
  | serve event => exact .inl rfl

theorem Plain.session {session : Session} (h : Plain session.threads) (limit : Option ℕ) (own : ℕ)
    (crypto : Crypto) {event : SessionEvent} (hlines : session.TypesLines event) :
    Plain (session.step limit own crypto event).threads := by
  rcases exists_threadEvent limit own crypto session event with hsame | ⟨happened, hsteps, hevent⟩
  · rw [hsame]
    exact h
  · rw [hsteps]
    refine h.step crypto happened fun choice surroundings hchoose ↦ ?_
    rw [hevent choice surroundings hchoose] at hlines
    exact hlines

/-- The identities at the server grow. -/
theorem identities_step {session : Session} {own : ℕ} (h : session.Linked own) (limit : Option ℕ)
    (crypto : Crypto) (event : SessionEvent) :
    session.link.identities ⊆ (session.step limit own crypto event).link.identities := by
  obtain ⟨staged, hsound⟩ := h.sound
  refine step_cases (motive := fun after ↦ session.link.identities ⊆ after.link.identities) h limit
    crypto event (List.Subset.refl _) (fun _ _ _ _ ↦ List.Subset.refl _)
    (fun _ _ ↦ List.Subset.refl _) (fun _ _ _ _ _ ↦ List.Subset.refl _)
    (fun thread data resume ambient _ _ ↦ hsound.identities_send limit thread data ambient)
    (fun _ _ _ _ _ _ _ _ _ ↦ List.Subset.refl _) (fun thread _ _ _ _ _ ↦ ?_)
    fun happening _ ↦ hsound.identities_serve limit happening
  show _ ⊆ (session.link.broken thread).identities
  rw [Link.identities_broken]
  exact List.Subset.refl _

end Session

/-! ### A client that has an ID -/

/-- What a client keeps: its identity and its file. -/
def kept (client : ClientState) : ClientId × Bytes × Bytes × Option Bytes :=
  (client.ctx.clientID, client.ctx.userName, client.ctx.privateKey, client.disk.myInfo)

/-- A call that leaves the identity leaves what is kept. -/
theorem kept_exec {call : ClientCall} (h : call.KeepsIdentity) (crypto : Crypto)
    (client : ClientState) : kept (call.exec crypto client).1 = kept client := by
  cases call <;> first | rfl | exact h.elim

/-- A thread leaves what is kept, and asks for no registration. -/
def keepingSetting (crypto : Crypto) : Setting LoopCalls CppError ClientState where
  rely before after := kept after = kept before
  allowed
    | _, .method call => call.KeepsIdentity
    | _, .sendAndReceive data => Server.codeOf data ≠ requestRegister
  step
    | before, .method call, answer, after =>
      answer = (call.exec crypto before).2 ∧ after = (call.exec crypto before).1
    | before, .sendAndReceive _, answer, after => after = before ∧
      ∀ response, answer = .ok response → codeOf response ≠ responseRegisterCode

section Keeping

variable {crypto : Crypto} {client : ClientState}

theorem tolerant_keepingSetting (crypto : Crypto) : (keepingSetting crypto).Tolerant where
  refl := fun _ ↦ rfl
  trans := fun h hnext ↦ hnext.trans h

/-- What a thread may do leaves what is kept. -/
theorem kept_step {call : LoopCall} {answer : Except CppError call.Result} {after : ClientState}
    (hallowed : (keepingSetting crypto).allowed client call)
    (hstep : (keepingSetting crypto).step client call answer after) : kept after = kept client := by
  cases call with
  | method call =>
    obtain ⟨-, rfl⟩ := hstep
    exact kept_exec hallowed crypto client
  | sendAndReceive data =>
    obtain ⟨rfl, -⟩ := hstep
    rfl

theorem compatible_keepingSetting (crypto : Crypto) :
    Team.Compatible fun _ : Thread ↦ keepingSetting crypto :=
  fun _ _ _ _ _ _ _ hallowed hstep ↦ kept_step hallowed hstep

/-- A function that leaves the identity. -/
theorem guarantees_keepsIdentity {α : Type} {program : Program α}
    (hprogram : program.Within ClientCall.KeepsIdentity) (client : ClientState) :
    program.Guarantees (methods (keepingSetting crypto)) (fun _ _ ↦ True) client := by
  let fact (_ : ClientState) : Prop := True
  have hfact : fact client := trivial
  exact guarantees_of_within (fun _ _ _ _ ↦ trivial) (fun _ _ hkind _ ↦ hkind)
    (fun _ _ _ _ _ _ _ ↦ trivial) (fun _ _ _ ↦ trivial) hprogram hfact

theorem executes_keepingSetting :
    Executes crypto (keepingSetting crypto) id fun _ after ↦ after :=
  fun _ _ _ _ hstep ↦ hstep

/-- An action of a client that has an ID is no registration. -/
theorem guarantees_registeredChoice (hid : client.ctx.hasClientID = true) (rounds choice : ℕ) :
    (handleMenuChoice rounds choice).Guarantees (methods (keepingSetting crypto))
      (fun outcome _ ↦ ∀ data, outcome = .ok data →
        Server.codeOf data ≠ requestRegister) client := by
  by_cases hregister : choice = registerChoice
  · rw [handleMenuChoice, if_pos hregister]
    refine guarantees_method executes_keepingSetting fun seen hseen ↦ ⟨trivial, ?_⟩
    have hstill : seen.ctx.hasClientID = true := by
      have hsame : seen.ctx.clientID = client.ctx.clientID := congrArg Prod.fst hseen
      rwa [ClientContext.hasClientID, hsame]
    have hanswer : (ClientCall.exec crypto seen .hasClientID).2 = .ok true := by rw [← hstill]; rfl
    rw [id, hanswer, proceed_ok, if_pos rfl]
    refine guarantees_method executes_keepingSetting fun printed _ ↦
      ⟨trivial, fun _ _ data heq ↦ ?_⟩
    rw [← Except.ok.inj heq]
    decide
  · have hreturns : (handleMenuChoice rounds choice).Returns fun data ↦
        Server.codeOf data ≠ requestRegister := by
      refine returns_handleMenuChoice hregister (by decide) fun id code payload hcode ↦ ?_
      rw [createBuffer_eq, Server.codeOf_requestFrame id.property]
      · rintro rfl
        simp at hcode
      · simp only [List.mem_cons, List.not_mem_nil, or_false] at hcode
        rcases hcode with rfl | rfl | rfl | rfl <;> simp
    exact ((guarantees_keepsIdentity (within_handleMenuChoice hregister rounds) client).and_returns
      hreturns).mono fun _ _ h ↦ h.2

/-- A round of the main thread of a client that has an ID. -/
theorem guarantees_keeping_main (hid : client.ctx.hasClientID = true) (rounds choice : ℕ) :
    (mainTurn rounds choice).Guarantees (keepingSetting crypto) (fun _ _ ↦ True) client := by
  refine (guarantees_here (guarantees_registeredChoice hid rounds choice)).bind
    (tolerant_keepingSetting crypto) (fun _ _ _ _ _ ↦ trivial) fun data after hdata ↦ ?_
  split_ifs
  · exact fun _ _ ↦ trivial
  · refine fun seen _ ↦ ⟨hdata data rfl, fun answer final hexchanged ↦ ?_⟩
    cases answer with
    | error exception => exact fun _ _ ↦ trivial
    | ok response =>
      refine guarantees_here (guarantees_keepsIdentity ?_ final)
      exact (within_responseClientMain (hexchanged.2 response rfl)).mono fun call hlearns ↦ by
        cases call <;> first | exact hlearns | trivial

/-- A round of its pull thread. -/
theorem guarantees_keeping_pull :
    pullTurn.Guarantees (keepingSetting crypto) (fun _ _ ↦ True) client := by
  refine guarantees_pulling (tolerant_keepingSetting crypto) (fun state call hlearns ↦ ?_)
    (fun state id ↦ ⟨?_, fun response after hexchanged ↦ hexchanged.2 response rfl⟩) client
  · show call.KeepsIdentity
    cases call <;> first | exact hlearns | trivial
  · show Server.codeOf (createBuffer id requestWaitingMessages []) ≠ requestRegister
    rw [codeOf_pull]
    simp

end Keeping

namespace Session

/-- The client has an ID, and its threads leave what it keeps. -/
structure Keeping (crypto : Crypto) (before : ClientState) (session : Session) : Prop where
  sound : Team.Sound (fun _ ↦ keepingSetting crypto) (fun _ _ _ ↦ True)
    (⟨session.threads.shared.client, session.threads.rest⟩ :
      Team Thread LoopCalls CppError Unit ClientState)
  kept : kept session.threads.shared.client = kept before
  registered : session.ctx.hasClientID = true

variable {crypto : Crypto} {before : ClientState} {session : Session} {limit : Option ℕ} {own : ℕ}

theorem Keeping.congr (h : session.Keeping crypto before) {after : Session}
    (hsound : Team.Sound (fun _ ↦ keepingSetting crypto) (fun _ _ _ ↦ True)
      (⟨after.threads.shared.client, after.threads.rest⟩ :
        Team Thread LoopCalls CppError Unit ClientState))
    (hkept : System.kept after.threads.shared.client = System.kept session.threads.shared.client) :
    after.Keeping crypto before := by
  refine ⟨hsound, hkept.trans h.kept, ?_⟩
  have hid : after.ctx.clientID = session.ctx.clientID := congrArg Prod.fst hkept
  rw [ClientContext.hasClientID, hid]
  exact h.registered

/-- A thread makes its next call. -/
theorem Keeping.act (h : session.Keeping crypto before) {thread : Thread} {call : LoopCall}
    {resume : Except CppError call.Result → Loop Unit} (answer : Except CppError call.Result)
    {after : Session} (hrest : session.threads.rest thread = .request call resume)
    (hstep : (keepingSetting crypto).step session.threads.shared.client call answer
      after.threads.shared.client)
    (hafter : after.threads.rest = Function.update session.threads.rest thread (resume answer)) :
    after.Keeping crypto before := by
  have hsetting : ∀ _ : Thread, (keepingSetting crypto).Tolerant :=
    fun _ ↦ tolerant_keepingSetting crypto
  have hallowed := h.sound.allowed hsetting hrest
  refine h.congr ?_ (kept_step hallowed hstep)
  rw [hafter]
  exact h.sound.act hsetting (compatible_keepingSetting crypto) hrest hstep

/-- Assumes: what is drawn for a request of the client is not zero. -/
theorem Keeping.step (h : session.Keeping crypto before) (hheard : session.Heard own)
    (limit : Option ℕ) (event : SessionEvent) :
    (session.step limit own crypto event).Keeping crypto before := by
  have hsetting : ∀ _ : Thread, (keepingSetting crypto).Tolerant :=
    fun _ ↦ tolerant_keepingSetting crypto
  refine step_cases (motive := Keeping crypto before) hheard.linked limit crypto event h
    (fun choice surroundings _ _ ↦ ?_) (fun outcome _ ↦ ?_) (fun thread call resume _ hrest ↦ ?_)
    (fun _ _ _ _ _ _ ↦ h.congr h.sound rfl)
    (fun thread data resume response outcome _ hrest hresponse hrequest ↦ ?_)
    (fun thread data resume exception _ hrest ↦ ?_) fun _ _ ↦ h.congr h.sound rfl
  · have hid : (surroundings.apply session.threads.shared.client).ctx.hasClientID = true :=
      h.registered
    exact h.congr (h.sound.launch hsetting (fun _ _ ↦ rfl)
      (guarantees_keeping_main hid _ choice)) rfl
  · exact h.congr (h.sound.launch hsetting (fun _ _ ↦ rfl) guarantees_keeping_pull) rfl
  · exact h.act _ hrest ⟨rfl, rfl⟩ rfl
  · have hother : Server.codeOf data ≠ requestRegister := h.sound.allowed hsetting hrest
    have hgrants := hheard.grants hresponse hrequest
    cases outcome with
    | ok value =>
      refine h.act (.ok response) hrest ⟨rfl, fun read hread ↦ ?_⟩ rfl
      rw [← Except.ok.inj hread]
      exact hgrants.not_granted hother
    | error exception =>
      exact h.act (.error exception) hrest ⟨rfl, fun read hread ↦ by cases hread⟩ rfl
  · exact h.act (.error exception) hrest ⟨rfl, fun read hread ↦ by cases hread⟩ rfl

end Session

/-! ### Lives -/

/-- A client over its processes: the connection of the process that runs, and its session. -/
structure Lives where
  own : ℕ
  session : Session

/-- What can happen. -/
inductive LifeEvent
  | session (event : WireEvent)
  /-- The process ends, wherever its threads are, and another one starts that gets a connection. -/
  | restart (connection : ℕ)

namespace Lives

/-- The client of a process that starts. -/
def reloaded (decode : Bytes → Except CppError Bytes) (disk : Disk) : ClientState :=
  { freshClient with ctx := loadedContext decode disk.myInfo, disk := disk }

/-- No request has come. -/
def isIdle {Rest : Type} : Server.Connection Rest → Bool
  | .idle => true
  | .busy _ _ | .returned _ _ | .stopped => false

/-- A connection that the server has not served. -/
def Unused (server : Server.ServerState Server.Handler) (connection : ℕ) : Prop :=
  isIdle (server.connections connection) = true ∧ responsesTo connection server = []

instance (server : Server.ServerState Server.Handler) (connection : ℕ) :
    Decidable (Unused server connection) :=
  inferInstanceAs (Decidable (_ ∧ _))

/-- The first process of a client. -/
def start (own : ℕ) (client : ClientState) : Lives where
  own := own
  session := .start client

/-- The next process. -/
def restarted (decode : Bytes → Except CppError Bytes) (lives : Lives) (connection : ℕ) :
    Lives where
  own := connection
  session :=
    { threads := .start (reloaded decode lives.session.threads.shared.client.disk)
      link := { server := lives.session.link.server, asking := none, connected := true }
      read := [] }

/-- One event. -/
def step (limit : Option ℕ) (crypto : Crypto) (decode : Bytes → Except CppError Bytes)
    (lives : Lives) : LifeEvent → Lives
  | .session event => { lives with session := lives.session.wireStep limit lives.own crypto event }
  | .restart connection =>
    if Unused lives.session.link.server connection then lives.restarted decode connection else lives

/-- The context of the client. -/
abbrev ctx (lives : Lives) : ClientContext :=
  lives.session.ctx

/-- Responses are matched to their requests, and what is drawn for a request of the client is not
zero. -/
def Drawing (lives : Lives) : LifeEvent → Prop
  | .session event => lives.session.Matched event ∧
    Session.OnSession Session.DrawsNonZero lives.session event
  | .restart _ => True

/-- And a line that is typed has no newline, and a name for a registration no zero. -/
def Regular (lives : Lives) : LifeEvent → Prop
  | .session event => (lives.session.Matched event ∧
      Session.OnSession Session.DrawsNonZero lives.session event) ∧
    Session.OnSession Session.TypesNoNul lives.session event ∧
    Session.OnSession Session.TypesLines lives.session event
  | .restart _ => True

/-- The client as if no connection had been left in the middle of a request. -/
def whole (lives : Lives) : Lives :=
  { lives with session := lives.session.whole }

section Restarted

variable {limit : Option ℕ} {crypto : Crypto} {decode : Bytes → Except CppError Bytes}
  {lives : Lives} {connection : ℕ}

/-- A process begins on an unused connection of the server. -/
theorem heard_restarted (h : lives.session.Heard lives.own) (decode : Bytes → Except CppError Bytes)
    (hunused : Unused lives.session.link.server connection) :
    (lives.restarted decode connection).session.Heard connection := by
  obtain ⟨staged, hsound, -⟩ := h.drawn
  have hidle : staged.connections connection = .idle := by
    have hconnection : lives.session.link.server.connections connection =
        (staged.connections connection).unstage := by
      rw [hsound.stages]
      rfl
    have hnone := hunused.1
    rw [hconnection] at hnone
    cases hstaged : staged.connections connection with
    | idle => rfl
    | busy request rest => simp [hstaged, Server.Connection.unstage, isIdle] at hnone
    | returned request response => simp [hstaged, Server.Connection.unstage, isIdle] at hnone
    | stopped => simp [hstaged, Server.Connection.unstage, isIdle] at hnone
  have hlink : (lives.restarted decode connection).session.link.Sound connection staged :=
    { stages := hsound.stages
      answers := hsound.answers
      free := fun _ ↦ by rw [Server.ServerState.running, hidle]
      alive := by simp [hidle] }
  refine ⟨⟨⟨staged, hlink⟩, fun thread hasking ↦ by cases hasking⟩, ⟨staged, hlink, ?_, ?_⟩, ?_⟩
  · intro request ambient stage hbusy
    rw [hidle] at hbusy
    cases hbusy
  · intro request response hreturned
    rw [hidle] at hreturned
    cases hreturned
  · exact hunused.2

/-- The next process does not see whether the connection of the last one was left in the middle. -/
theorem restarted_whole (lives : Lives) (decode : Bytes → Except CppError Bytes) (connection : ℕ) :
    lives.whole.restarted decode connection = lives.restarted decode connection := by
  rw [restarted, restarted, whole, Session.whole_threads, Session.whole_server]

/-- What a step of `Session` and a restart keep, a step keeps. -/
theorem whole_keeps {P : Lives → Prop} (h : P lives.whole) {event : LifeEvent}
    (hdrawing : lives.Drawing event)
    (hsession : ∀ happened, (event = .session (.session happened) ∨
        ∃ thread exception, happened = .fail thread exception) →
      lives.session.DrawsNonZero happened →
        P { lives with session := lives.session.whole.step limit lives.own crypto happened })
    (hrestart : ∀ connection, Unused lives.whole.session.link.server connection →
      P (lives.whole.restarted decode connection)) :
    P (lives.step limit crypto decode event).whole := by
  cases event with
  | session event =>
    obtain ⟨hmatched, hdraws⟩ := hdrawing
    refine Session.whole_keeps (P := fun session ↦ P { lives with session := session }) hmatched h
      fun happened hcause ↦ hsession happened (hcause.imp_left (congrArg _)) ?_
    rcases hcause with rfl | ⟨thread, exception, rfl⟩
    · exact hdraws
    · trivial
  | restart connection =>
    rw [Lives.step]
    split_ifs with hunused
    · have hserver : Unused lives.whole.session.link.server connection := by
        rw [whole, Session.whole_server]
        exact hunused
      rw [← restarted_whole]
      exact hrestart connection hserver
    · exact h

/-- Assumes: responses are matched to their requests, and what is drawn for a request of the client
is not zero. -/
theorem heard_step (h : lives.whole.session.Heard lives.own) (limit : Option ℕ) (crypto : Crypto)
    (decode : Bytes → Except CppError Bytes) {event : LifeEvent} (hdrawing : lives.Drawing event) :
    (lives.step limit crypto decode event).whole.session.Heard
      (lives.step limit crypto decode event).own :=
  whole_keeps (P := fun lives ↦ lives.session.Heard lives.own) h hdrawing
    (fun _ _ hdraws ↦ h.step limit crypto hdraws) fun _ hunused ↦ heard_restarted h decode hunused

/-- A file holds nothing, or the identity of a client that the server has a row for. -/
def Filed (crypto : Crypto) (identities : List Identity) (file : Option Bytes) : Prop :=
  file = none ∨ file = some [] ∨ ∃ ctx : ClientContext,
    10 ∉ ctx.userName ∧ identityOf crypto ctx ∈ identities ∧ file = some (myInfoBytes crypto ctx)

theorem Filed.mono {identities more : List Identity} {file : Option Bytes}
    (h : Filed crypto identities file) (hmore : identities ⊆ more) : Filed crypto more file := by
  rcases h with h | h | ⟨ctx, hname, hrow, hfile⟩
  · exact .inl h
  · exact .inr (.inl h)
  · exact .inr (.inr ⟨ctx, hname, hmore hrow, hfile⟩)

/-- The context that such a file leaves has no ID, or the identity of this client. -/
theorem Filed.loaded (hdecodes : Decodes crypto decode) {identities : List Identity}
    {file : Option Bytes} (h : Filed crypto identities file) :
    10 ∉ (loadedContext decode file).userName ∧ ((loadedContext decode file).hasClientID = true →
      identityOf crypto (loadedContext decode file) ∈ identities) := by
  have hempty : 10 ∉ ClientContext.empty.userName ∧ (ClientContext.empty.hasClientID = true →
      identityOf crypto ClientContext.empty ∈ identities) := by
    refine ⟨by simp [ClientContext.empty], fun hid ↦ absurd hid (by decide)⟩
  rcases h with rfl | rfl | ⟨ctx, hname, hrow, rfl⟩
  · exact hempty
  · exact hempty
  · rcases loadedContext_myInfoBytes hdecodes hname with hnone | hsame
    · rw [hnone]
      exact hempty
    · rw [hsame]
      exact ⟨hname, fun _ ↦ hrow⟩

/-- What holds of a client over its processes. -/
structure Sound (crypto : Crypto) (lives : Lives) : Prop where
  heard : lives.session.Heard lives.own
  plain : Session.Plain lives.session.threads
  identified : ∃ saved, Filed crypto lives.session.link.identities saved ∧
    lives.session.Identified lives.own crypto saved

/-- What the file holds at any moment. -/
theorem Sound.filed (h : lives.Sound crypto) :
    Filed crypto lives.session.link.identities lives.session.threads.shared.client.disk.myInfo := by
  obtain ⟨saved, hfiled, hidentified⟩ := h.identified
  rcases hidentified.consistent.file with hsame | ⟨hregistered, hcut | hwritten⟩
  · exact hsame.symm ▸ hfiled
  · exact .inr (.inl hcut)
  · exact .inr (.inr ⟨_, h.plain.name, hidentified.consistent.row hregistered, hwritten⟩)

theorem Sound.restarted (h : lives.Sound crypto) (hdecodes : Decodes crypto decode)
    (hunused : Unused lives.session.link.server connection) :
    (lives.restarted decode connection).Sound crypto := by
  obtain ⟨hname, hrow⟩ := h.filed.loaded hdecodes
  refine ⟨heard_restarted h.heard decode hunused,
    Session.plain_start (fun _ hline ↦ absurd hline List.not_mem_nil) hname, _, h.filed, ?_⟩
  refine ⟨fun thread seen hseen ↦ ?_, ⟨hrow, .inl rfl, Nat.zero_le _⟩,
    fun _ hasking ↦ absurd rfl hasking⟩
  cases thread with
  | main =>
    have hstatus : seen.status = (lives.restarted decode connection).session.view.status := hseen.2
    show seen.status.Settled
    rw [hstatus]
    exact .inr rfl
  | pull => trivial

theorem Sound.step (h : lives.whole.Sound crypto) (hdecodes : Decodes crypto decode)
    (limit : Option ℕ) {event : LifeEvent} (hregular : lives.Regular event) :
    (lives.step limit crypto decode event).whole.Sound crypto := by
  have hdrawing : lives.Drawing event := by
    cases event with
    | session event => exact hregular.1
    | restart connection => trivial
  refine whole_keeps (P := Sound crypto) h hdrawing (fun happened hcause hdraws ↦ ?_)
    fun connection hunused ↦ h.restarted hdecodes hunused
  have hlines : lives.session.TypesNoNul happened ∧ lives.session.TypesLines happened := by
    rcases hcause with rfl | ⟨thread, exception, rfl⟩
    · exact hregular.2
    · exact ⟨trivial, trivial⟩
  obtain ⟨saved, hfiled, hidentified⟩ := h.identified
  exact ⟨h.heard.step limit crypto hdraws, h.plain.session limit _ crypto hlines.2, saved,
    hfiled.mono (Session.identities_step h.heard.linked limit crypto happened),
    hidentified.step h.heard limit hlines.1⟩

end Restarted

/-! ### Runs -/

variable {limit : Option ℕ} {crypto : Crypto} {decode : Bytes → Except CppError Bytes}

theorem sound_start (own : ℕ) (crypto : Crypto) (decode : Bytes → Except CppError Bytes)
    {disk : Disk}
    (hnone : disk.myInfo = none) : (start own (reloaded decode disk)).Sound crypto where
  heard := Session.heard_start own _
  plain := by
    refine Session.plain_start (fun _ hline ↦ absurd hline List.not_mem_nil) ?_
    rw [reloaded, hnone]
    simp [loadedContext, ClientContext.empty]
  identified := by
    refine ⟨none, .inl rfl, ?_⟩
    have hnew : (reloaded decode disk).ctx.hasClientID = false := by
      rw [reloaded, hnone]
      rfl
    have hidentified := Session.identified_start own crypto hnew
    have hfile : (reloaded decode disk).disk.myInfo = none := hnone
    rwa [hfile] at hidentified

/-- The identity of a client in all its lives. The client is installed without a file, and its
processes end at any moment and start again, each with a connection of its own at the server, which
other clients use as they like. Whenever the client has an ID, whether it was granted in this
process or read from the file, the server has a row for it, with the name of the client and the
public part of its private key. Assumes: responses are matched to their requests; Base64 decoding
undoes the encoding; no ID of zeros is drawn for the client, the lines that are typed have no
newline, and a name that is typed no zero. -/
theorem identity_across_lives (limit : Option ℕ) (own : ℕ) (crypto : Crypto)
    (decode : Bytes → Except CppError Bytes) (hdecodes : Decodes crypto decode) (disk : Disk)
    (hnone : disk.myInfo = none) (events : List LifeEvent)
    (hrun : Along (step limit crypto decode) Regular (start own (reloaded decode disk)) events) :
    let lives := runEvents (step limit crypto decode) (start own (reloaded decode disk)) events
    lives.ctx.hasClientID = true → ∃ row ∈ lives.session.link.server.tables.clients,
      row.id = lives.ctx.clientID.val ∧ row.userName = lives.ctx.userName ∧
        row.publicKey = (crypto.publicKeyOf lives.ctx.privateKey).val := by
  intro lives hid
  have h : lives.whole.Sound crypto := Along.invariant (P := fun lives ↦ lives.whole.Sound crypto)
    (fun _ _ hregular hlives ↦ hlives.step hdecodes limit hregular)
    (sound_start own crypto decode hnone) hrun
  obtain ⟨saved, -, hidentified⟩ := h.identified
  have hctx : lives.whole.ctx = lives.ctx :=
    congrArg Threads.ctx (Session.whole_threads lives.session)
  have hserver : lives.whole.session.link.server = lives.session.link.server :=
    Session.whole_server lives.session
  rw [← hctx] at hid ⊢
  obtain ⟨row, hrow, hidentity⟩ := List.mem_map.mp (hidentified.consistent.row hid)
  obtain ⟨hrowId, hname, hkey⟩ := Prod.ext_iff.mp hidentity |>.imp_right Prod.ext_iff.mp
  rw [← hserver]
  exact ⟨row, hrow, hrowId, hname, hkey⟩

instance (session : Session) : DecidablePred (Session.TypesLines session)
  | .choose _ surroundings => inferInstanceAs (Decidable (∀ line ∈ surroundings.console, 10 ∉ line))
  | .wake | .act _ | .send .. | .receive .. | .fail .. | .serve _ => isTrue trivial

instance (lives : Lives) : DecidablePred lives.Drawing
  | .session event => inferInstanceAs (Decidable (lives.session.Matched event ∧
      Session.OnSession Session.DrawsNonZero lives.session event))
  | .restart _ => isTrue trivial

instance (lives : Lives) : DecidablePred lives.Regular
  | .session event => inferInstanceAs (Decidable ((lives.session.Matched event ∧
      Session.OnSession Session.DrawsNonZero lives.session event) ∧
        Session.OnSession Session.TypesNoNul lives.session event ∧
          Session.OnSession Session.TypesLines lives.session event))
  | .restart _ => isTrue trivial

/-- The decoder takes back what the encoder gives. -/
theorem decodes_fileCrypto : Decodes fileCrypto readKey := by
  intro key
  have hprintable : ∀ c ∈ toBase64 key, decide (c ≠ 10 ∧ c ≠ 13) = true := by
    intro c hc
    have hlow := mem_toBase64 hc
    refine decide_eq_true ⟨?_, ?_⟩
    · rintro rfl
      exact absurd hlow (by decide)
    · rintro rfl
      exact absurd hlow (by decide)
  show readKey ((toBase64 key ++ [10]).filter _) = .ok key
  rw [List.filter_append, List.filter_eq_self.mpr hprintable, readKey]
  exact congrArg Except.ok ((congrArg ofBase64 (List.append_nil _)).trans (ofBase64_toBase64 key))

/-- A directory that can be written. -/
def installed : Disk :=
  ⟨.ok true, true, none⟩

/-- The client registers, is killed when an exchange was left in the middle, and starts again. -/
def killedRun : List LifeEvent :=
  Session.interruptedPull.map (fun event ↦ .session (.session event)) ++ [.restart 1]

/-- The identity of `identity_across_lives` is read from the file. -/
theorem identity_across_lives_killed :
    ∃ row ∈ (runEvents (step none fileCrypto readKey) (start 0 (reloaded readKey installed))
        killedRun).session.link.server.tables.clients,
      row.id = Session.newcomerAmbient.token ∧ row.userName = [65] := by
  have hid : (runEvents (step none fileCrypto readKey) (start 0 (reloaded readKey installed))
      killedRun).ctx.clientID.val = Session.newcomerAmbient.token := by decide +kernel
  have hname : (runEvents (step none fileCrypto readKey) (start 0 (reloaded readKey installed))
      killedRun).ctx.userName = [65] := by decide +kernel
  obtain ⟨row, hrow, hrowId, hrowName, -⟩ := identity_across_lives none 0 fileCrypto readKey
    decodes_fileCrypto installed rfl killedRun (by decide +kernel) (by decide +kernel)
  exact ⟨row, hrow, hrowId.trans hid, hrowName.trans hname⟩

/-- What holds from a process on that has begun with an ID. -/
structure Kept (crypto : Crypto) (before : ClientState) (lives : Lives) : Prop where
  heard : lives.session.Heard lives.own
  keeping : lives.session.Keeping crypto before

theorem kept_restarted {lives : Lives} (h : lives.session.Heard lives.own)
    (decode : Bytes → Except CppError Bytes) {connection : ℕ}
    (hunused : Unused lives.session.link.server connection)
    (hid : (lives.restarted decode connection).ctx.hasClientID = true) :
    (lives.restarted decode connection).Kept crypto
      (reloaded decode lives.session.threads.shared.client.disk) :=
  ⟨heard_restarted h decode hunused, fun _ _ _ ↦ trivial, rfl, hid⟩

/-- Assumes: responses are matched to their requests, and what is drawn for a request of the client
is not zero. -/
theorem Kept.step {lives : Lives} {disk : Disk} (h : lives.whole.Kept crypto (reloaded decode disk))
    (limit : Option ℕ) {event : LifeEvent} (hdrawing : lives.Drawing event) :
    (lives.step limit crypto decode event).whole.Kept crypto (reloaded decode disk) := by
  refine whole_keeps (P := Kept crypto (reloaded decode disk)) h hdrawing
    (fun happened _ hdraws ↦ ⟨h.heard.step limit crypto hdraws,
      h.keeping.step h.heard limit happened⟩) fun connection hunused ↦ ?_
  have hfile : lives.whole.session.threads.shared.client.disk.myInfo = disk.myInfo :=
    congrArg (fun kept ↦ kept.2.2.2) h.keeping.kept
  have hsame : kept (reloaded decode lives.whole.session.threads.shared.client.disk) =
      kept (reloaded decode disk) := by
    simp only [kept, reloaded, hfile]
  have hid : (lives.whole.restarted decode connection).ctx.hasClientID = true := by
    have hbefore : lives.whole.ctx.clientID = (loadedContext decode disk.myInfo).clientID :=
      congrArg Prod.fst h.keeping.kept
    show (loadedContext decode
      lives.whole.session.threads.shared.client.disk.myInfo).hasClientID = true
    rw [hfile, ClientContext.hasClientID, ← hbefore]
    exact h.keeping.registered
  have hkept : (lives.whole.restarted decode connection).Kept crypto
      (reloaded decode lives.whole.session.threads.shared.client.disk) :=
    kept_restarted h.heard decode hunused hid
  exact ⟨hkept.heard, hkept.keeping.sound, hkept.keeping.kept.trans hsame, hid⟩

/-- A client keeps the identity that a process has begun with. From a process on that begins with an
ID, in whatever state of whatever run, the identity of the client and its file stay as they are,
over any number of processes that end at any moment. Assumes: responses are matched to their
requests, and no ID of zeros is drawn for the client. -/
theorem identity_kept (limit : Option ℕ) (own : ℕ) (crypto : Crypto)
    (decode : Bytes → Except CppError Bytes) (client : ClientState) (events : List LifeEvent)
    (hrun : Along (step limit crypto decode) Drawing (start own client) events) (connection : ℕ) :
    let lives := runEvents (step limit crypto decode) (start own client) events
    Unused lives.session.link.server connection →
      let begun := lives.restarted decode connection
      begun.ctx.hasClientID = true →
        ∀ more, Along (step limit crypto decode) Drawing begun more →
          let later := runEvents (step limit crypto decode) begun more
          kept later.session.threads.shared.client = kept begun.session.threads.shared.client := by
  intro lives hunused begun hid more hmore later
  have hheard : lives.whole.session.Heard lives.own :=
    Along.invariant (P := fun lives ↦ lives.whole.session.Heard lives.own)
      (fun _ _ hdrawing hlives ↦ heard_step hlives limit crypto decode hdrawing)
      (Session.heard_start own client) hrun
  have hunusedWhole : Unused lives.whole.session.link.server connection := by
    rw [whole, Session.whole_server]
    exact hunused
  have hbegun : lives.whole.restarted decode connection = begun := restarted_whole lives decode _
  have hstart : begun.whole.Kept crypto
      (reloaded decode lives.whole.session.threads.shared.client.disk) := by
    rw [← hbegun]
    rw [← hbegun] at hid
    exact kept_restarted hheard decode hunusedWhole hid
  have hkept : later.whole.Kept crypto
      (reloaded decode lives.whole.session.threads.shared.client.disk) :=
    Along.invariant (P := fun later ↦ later.whole.Kept crypto (reloaded decode (runEvents
        (step limit crypto decode) (start own client)
          events).whole.session.threads.shared.client.disk))
      (fun _ _ hdrawing hlives ↦ hlives.step limit hdrawing) hstart hmore
  have hthreads : ∀ lives : Lives, lives.whole.session.threads = lives.session.threads :=
    fun lives ↦ Session.whole_threads lives.session
  have hkeeping := hkept.keeping.kept
  rw [hthreads later] at hkeeping
  rw [hkeeping, hthreads lives]
  rfl

/-- In its second life the client wants to register again, and is killed once more. -/
def refusedRun : List LifeEvent :=
  .session (.session (.choose registerChoice
    ⟨[[66]], ⟨.zero symmetricKeySize, 3⟩, .ok true, true⟩)) ::
    (List.replicate 13 (.session (.session (.act .main))) ++ [.restart 2])

/-- Its first life. -/
def registeredRun : List LifeEvent :=
  Session.newcomerRun.map fun event ↦ .session (.session event)

/-- Its third life has the identity of its second one. -/
theorem identity_kept_refused :
    kept (runEvents (step none fileCrypto readKey) ((runEvents (step none fileCrypto readKey)
        (start 0 (reloaded readKey installed)) registeredRun).restarted readKey 1)
          refusedRun).session.threads.shared.client =
      kept ((runEvents (step none fileCrypto readKey) (start 0 (reloaded readKey installed))
        registeredRun).restarted readKey 1).session.threads.shared.client :=
  identity_kept none 0 fileCrypto readKey (reloaded readKey installed)
    registeredRun (by decide +kernel) 1 (by decide +kernel) (by decide +kernel)
    refusedRun (by decide +kernel)

end Lives

end MessageU.System
