import MessageU.Server.Acceptance
import MessageU.System.Acquaintances

/-!
# A registered client is never refused

Everything that a client sends under an ID that the server has given it is acceptable to the server:
the client builds its requests as the server reads them, and it names only clients that it has heard
of, which are registered and stay so (`Acquainted`). What can still go wrong is a fault of the
database or something that has become too large (`Smooth`). Without them the server answers every
request with the code that belongs to it (`registered_never_refused`).
-/

set_option autoImplicit false
set_option relaxedAutoImplicit false

namespace MessageU.System

open Library Client

/-- The requests that may be refused for what they are: a registration, and one under the saved
ID. -/
def Exempt (saved : ClientId) (request : Bytes) : Prop :=
  Server.codeOf request = requestRegister ∨ Server.requesterIdOf request = saved.val

section Requests

variable {crypto : Crypto} {saved : ClientId} {tables : Server.Tables} {request : Bytes}

/-- What a thread sends is acceptable. Assumes: its payload fits the size field. -/
theorem Directed.acceptable (hstore : Server.Store tables)
    (h : Directed crypto saved tables.identities request)
    (hsize : request.length < Server.headerSize + 2 ^ 32) :
    Exempt saved request ∨ Server.Acceptable tables request := by
  have hregistered : ∀ {identity : Identity}, identity ∈ tables.identities →
      tables.Registered identity.1 := fun hidentity ↦
    (tables.registered_iff _).mpr (List.mem_map_of_mem hidentity)
  have hrequester : ∀ {id : ClientId} {code : ℕ} {payload : Bytes},
    Owned saved tables.identities id →
      Exempt saved (Server.requestFrame id.val code payload) ∨
        tables.Registered (Server.requesterIdOf (Server.requestFrame id.val code payload)) := by
    intro id code payload hid
    rcases hid with rfl | hmem
    · exact .inl (.inr (Server.requesterIdOf_requestFrame id.property))
    · rw [Server.requesterIdOf_requestFrame id.property]
      exact .inr ((tables.registered_iff _).mpr hmem)
  have hheader : ∀ {id : ClientId} {code : ℕ} {payload : Bytes},
      (Server.requestFrame id.val code payload).length < Server.headerSize + 2 ^ 32 →
        Server.ValidHeader (Server.requestFrame id.val code payload) := by
    intro id code payload hsize
    rw [Server.requestFrame_length id.property] at hsize
    exact Server.validHeader_requestFrame id.property (Nat.lt_of_add_lt_add_left hsize)
  cases h with
  | registration hcode => exact .inl (.inl hcode)
  | bare id code hid hcode hrequest =>
    subst hrequest
    have hread : Server.codeOf (Server.requestFrame id.val code []) = code := by
      refine Server.codeOf_requestFrame id.property ?_
      simp only [List.mem_cons, List.not_mem_nil, or_false] at hcode
      rcases hcode with rfl | rfl <;> simp
    refine (hrequester hid).imp_right fun hrequester ↦ ⟨hheader hsize, hrequester, .inl ⟨?_, ?_⟩⟩
    · rw [hread]
      exact hcode
    · rw [Server.requestFrame_length id.property]
      rfl
  | keyWanted id identity hid hidentity hrequest =>
    subst hrequest
    have hlength := hstore.id_length (hregistered hidentity)
    have htarget : Server.requestedIdOf (Server.requestFrame id.val requestPublicKey identity.1) =
        identity.1 := by
      have hempty : identity.1 ++ [] = identity.1 := List.append_nil _
      rw [← hempty]
      exact (Server.requestedIdOf_requestFrame id.property hlength _).trans hempty.symm
    refine (hrequester hid).imp_right fun hrequester ↦
      ⟨hheader hsize, hrequester, .inr (.inl ⟨?_, ?_, ?_⟩)⟩
    · exact Server.codeOf_requestFrame id.property (by simp)
    · rw [Server.requestFrame_length id.property, hlength]
    · rw [htarget]
      exact hregistered hidentity
  | message id identity type content hid hidentity hrequest htype hempty hkey =>
    subst hrequest
    have hlength := hstore.id_length (hregistered hidentity)
    have hcontent : content.length < 2 ^ 32 := by
      rw [Server.requestFrame_length id.property, Server.messagePayload_length hlength] at hsize
      omega
    refine (hrequester hid).imp_right fun hrequester ↦
      ⟨hheader hsize, hrequester, .inr (.inr ⟨?_, ?_, ?_, ?_⟩)⟩
    · exact Server.codeOf_requestFrame id.property (by simp)
    · rw [Server.requestFrame_length id.property, Server.messagePayload_length hlength]
      simp only [Server.minLen, Server.headerSize, Server.clientIdSize, Server.messageTypeSize,
        Server.contentSize]
      omega
    · exact Server.validMessage_requestFrame id.property hlength htype hempty hcontent _
    · rw [Server.requestedIdOf_message id.property hlength]
      exact hregistered hidentity

end Requests

/-! ### Runs -/

namespace Session

/-- What a client sends fits the size field, and the calls that the server makes for it do not fail
and find room. -/
def Smooth (limit : Option ℕ) (own : ℕ) (session : Session) : SessionEvent → Prop
  | .send thread _ =>
    match session.threads.nextCall thread with
    | some (.sendAndReceive data) => data.length < Server.headerSize + 2 ^ 32
    | some (.method _) | none => True
  | .serve (.call connection fault) => connection = own → fault = false ∧
    ∀ request ∈ session.link.request own,
      Server.Room limit session.link.server.tables (Server.requesterIdOf request)
  | .choose .. | .wake | .act _ | .receive .. | .fail .. | .serve (.arrive ..) => True

/-- What holds at every moment of a smooth run. -/
structure Welcome (limit : Option ℕ) (own : ℕ) (crypto : Crypto) (saved : ClientId)
    (session : Session) : Prop where
  acquainting : session.Acquainting own crypto saved
  granting : ∃ staged, session.link.Sound own staged ∧
    Server.ServerState.Granting limit (Exempt saved) own staged

variable {limit : Option ℕ} {own : ℕ} {crypto : Crypto} {saved : ClientId} {session : Session}

theorem welcome_start (limit : Option ℕ) (own : ℕ) (crypto : Crypto) (client : ClientState) :
    (start client).Welcome limit own crypto client.ctx.clientID where
  acquainting := acquainting_start own crypto client
  granting := ⟨_, Link.sound_fresh own, Server.ServerState.granting_initial limit _ own⟩

theorem Welcome.step (h : session.Welcome limit own crypto saved) {event : SessionEvent}
    (hsmooth : session.Smooth limit own event) :
    (session.step limit own crypto event).Welcome limit own crypto saved := by
  refine ⟨h.acquainting.step limit event, ?_⟩
  obtain ⟨staged, hsound, hgranting⟩ := h.granting
  have hstore := hsound.answers.sound.store
  refine step_cases (motive := fun after ↦ ∃ staged, after.link.Sound own staged ∧
      Server.ServerState.Granting limit (Exempt saved) own staged) h.acquainting.linked limit crypto
    event h.granting (fun _ _ _ _ ↦ h.granting) (fun _ _ ↦ h.granting) (fun _ _ _ _ _ ↦ h.granting)
    (fun thread data resume ambient hevent hrest ↦ ?_)
    (fun thread data resume response outcome _ _ hresponse _ ↦
      ⟨staged, hsound.release hresponse, hgranting⟩)
    (fun thread data resume exception _ _ ↦ ⟨staged, hsound.broken thread, hgranting⟩)
    fun happening hevent ↦ ?_
  · rcases hsound.send limit thread data ambient with hsame | ⟨-, -, -, -, -, hafter⟩
    · rw [hsame]
      exact h.granting
    · subst hevent
      refine ⟨_, hafter, hgranting.step hstore (fun request drawn harrives ↦ ?_) fun _ hcall ↦ by
        cases hcall⟩
      cases harrives
      have hdirected : Directed crypto saved session.link.identities data :=
        h.acquainting.sound.allowed (tolerant_acquaintanceSetting crypto saved) hrest
      rw [hsound.identities] at hdirected
      have hsize : data.length < Server.headerSize + 2 ^ 32 := by
        simpa only [Smooth, Threads.nextCall, hrest, firstCall] using hsmooth
      exact hdirected.acceptable hstore hsize
  · rcases hsound.serve limit happening with hsame | ⟨hother, -, -, hafter⟩
    · rw [hsame]
      exact h.granting
    · subst hevent
      refine ⟨_, hafter, hgranting.step hstore (fun request ambient harrives ↦
        absurd harrives (hother request ambient)) ?_⟩
      rintro fault rfl
      obtain ⟨hfault, hroom⟩ := hsmooth rfl
      refine ⟨hfault, fun request rest hbusy ↦ ?_⟩
      have hrequest : session.link.request own = some request := by
        rw [hsound.request, hbusy]
        rfl
      have htables : session.link.server.tables = staged.tables := congrArg _ hsound.stages
      rw [← htables]
      exact hroom request hrequest

theorem Smooth.whole {event : SessionEvent} (h : session.Smooth limit own event) :
    session.whole.Smooth limit own event := by
  rw [Session.whole]
  split_ifs
  · exact h
  · exact h

/-- In every smooth run of a client in which responses are matched to their requests, whatever its
threads, the other clients and the server do in between: a request that the server has answered is a
registration, or carries the ID that the client began with, or the answer has the code that belongs
to the request, and is not the error. -/
theorem registered_never_refused (limit : Option ℕ) (own : ℕ) (crypto : Crypto)
    (client : ClientState) {events : List WireEvent}
    (hmatched : Along (wireStep limit own crypto) Matched (start client) events)
    (hsmooth : Along (wireStep limit own crypto) (OnSession (Smooth limit own)) (start client)
      events) :
    let session := runEvents (wireStep limit own crypto) (start client) events
    ∀ request response, session.link.server.connections own = .returned request response →
      Server.codeOf request ≠ requestRegister →
        Server.requesterIdOf request ≠ client.ctx.clientID.val →
          Server.responseCode response = Server.codeOf request + 1400 := by
  intro session request response hreturned hcode hrequester
  have h : session.whole.Welcome limit own crypto client.ctx.clientID := by
    refine Along.invariant (P := fun session ↦ session.whole.Welcome limit own crypto
      client.ctx.clientID) (fun session event hguard hwelcome ↦ ?_)
      (welcome_start limit own crypto client) (hmatched.and hsmooth)
    refine whole_keeps (P := Welcome limit own crypto client.ctx.clientID) hguard.1 hwelcome
      fun happened hcause ↦ hwelcome.step ?_
    rcases hcause with rfl | ⟨thread, exception, rfl⟩
    · exact Smooth.whole hguard.2
    · trivial
  rw [← whole_server session] at hreturned
  obtain ⟨staged, hsound, hgranting⟩ := h.granting
  have hstaged : staged.connections own = .returned request response := by
    have hconnection : session.whole.link.server.connections own =
        (staged.connections own).unstage := by
      rw [hsound.stages]
      rfl
    rw [hconnection] at hreturned
    cases hstage : staged.connections own with
    | returned earlier built =>
      rw [hstage] at hreturned
      cases hreturned
      rfl
    | idle => simp [hstage, Server.Connection.unstage] at hreturned
    | busy earlier rest => simp [hstage, Server.Connection.unstage] at hreturned
    | stopped => simp [hstage, Server.Connection.unstage] at hreturned
  exact (hgranting.returned request response hstaged).resolve_left (not_or.mpr ⟨hcode, hrequester⟩)

instance (limit : Option ℕ) (own : ℕ) (session : Session) : DecidablePred (Smooth limit own session)
  | .send thread _ => by
    unfold Smooth
    dsimp only
    split <;> infer_instance
  | .serve (.call _ _) => inferInstanceAs (Decidable (_ → _ ∧ _))
  | .choose .. | .wake | .act _ | .receive .. | .fail .. | .serve (.arrive ..) => isTrue trivial

/-- The newcomer asks for the clients list when it has registered. -/
def askingRun : List SessionEvent :=
  newcomerRun ++ .choose clientsListChoice ⟨[], ⟨.zero symmetricKeySize, 3⟩, .ok true, true⟩ ::
    ([.act .main, .send .main newcomerAmbient] ++ List.replicate 3 (.serve (.call 0 false)))

/-- What it asks. -/
def askedList : Bytes :=
  Server.requestFrame (List.replicate clientIdSize 7) requestClientsList []

/-- The newcomer is answered. -/
theorem registered_never_refused_asking : ∃ response,
    (runEvents (wireStep none 0 .tagged) (start newcomer)
        (askingRun.map .session)).link.server.connections 0 = .returned askedList response ∧
      Server.responseCode response = 2101 := by
  have hnever := registered_never_refused none 0 .tagged newcomer
    (show Along (wireStep none 0 .tagged) Matched (start newcomer) (askingRun.map .session) by
      decide +kernel)
    (show Along (wireStep none 0 .tagged) (OnSession (Smooth none 0)) (start newcomer)
      (askingRun.map .session) by decide +kernel)
  have hasked : Link.requestAt ((runEvents (wireStep none 0 .tagged) (start newcomer)
      (askingRun.map .session)).link.server.connections 0) = some askedList := by decide +kernel
  have hanswered : returnedAt ((runEvents (wireStep none 0 .tagged) (start newcomer)
      (askingRun.map .session)).link.server.connections 0) ≠ [] := by decide +kernel
  have hcode : Server.codeOf askedList = requestClientsList := by decide +kernel
  generalize runEvents (wireStep none 0 .tagged) (start newcomer) (askingRun.map .session) = session
    at hnever hasked hanswered ⊢
  cases hconnection : session.link.server.connections 0 with
  | returned request response =>
    rw [hconnection] at hasked
    cases hasked
    refine ⟨response, rfl, (hnever askedList response hconnection ?_ ?_).trans ?_⟩
    · rw [hcode]
      simp
    · decide +kernel
    · rw [hcode]
  | idle => exact absurd (by rw [hconnection]; rfl) hanswered
  | busy request rest => exact absurd (by rw [hconnection]; rfl) hanswered
  | stopped => exact absurd (by rw [hconnection]; rfl) hanswered

end Session

end MessageU.System
