import MessageU.System.Session

/-!
# The answers to a client

The responses that the server builds for the connection of a client are the ones that the client has
read, in order, and the one that it has not read yet (`Session.Heard`). A response that grants a
client ID grants the one that was drawn for its request; `Drawn` is what holds of the connection
when none of those is zero.
-/

set_option autoImplicit false
set_option relaxedAutoImplicit false

namespace MessageU.System

open Library Client

/-! ### The responses of a connection -/

/-- The responses that were built for a connection. -/
def responsesTo {Rest : Type} (own : ℕ) (server : Server.ServerState Rest) : List Bytes :=
  (server.answered.filter (·.connection = own)).map Server.Answer.response

/-- The response that a connection has returned last. -/
def returnedAt {Rest : Type} : Server.Connection Rest → List Bytes
  | .returned _ response => [response]
  | .idle | .busy _ _ | .stopped => []

/-- The response that was returned and is not read yet. -/
def Link.unread (own : ℕ) (link : Link) : List Bytes :=
  if link.asking = none then [] else returnedAt (link.server.connections own)

section Staged

variable {server : Server.ServerState Server.Staged} {connection own : ℕ} {request : Bytes}
  {ambient : Server.Ambient} {progress : Server.Progress}

/-- The responses of a connection that settles. -/
theorem responsesTo_settle :
    responsesTo own (server.settle own request
      (Server.ServerState.stagedOutcome ambient progress)) =
      responsesTo own server ++ returnedAt ((server.settle own request
        (Server.ServerState.stagedOutcome ambient progress)).connections own) := by
  cases progress with
  | answer response =>
    simp [responsesTo, Server.ServerState.settle, Server.ServerState.stagedOutcome, returnedAt]
  | next stage =>
    simp [responsesTo, Server.ServerState.settle, Server.ServerState.stagedOutcome, returnedAt]

/-- The responses of a connection when another one settles. -/
theorem responsesTo_settle_of_ne (h : own ≠ connection) :
    responsesTo own (server.settle connection request
      (Server.ServerState.stagedOutcome ambient progress)) = responsesTo own server := by
  cases progress with
  | answer response =>
    simp [responsesTo, Server.ServerState.settle, Server.ServerState.stagedOutcome, Ne.symm h]
  | next stage => rfl

/-- An event that is no request of a connection leaves its responses, or the connection was running
and its last response is the new one. -/
theorem responsesTo_stagedStep (limit : Option ℕ) (event : Server.Event)
    (hother : ∀ sent ambient, event ≠ .arrive own sent ambient) :
    (responsesTo own (server.stagedStep limit event) = responsesTo own server ∧
        returnedAt ((server.stagedStep limit event).connections own) =
          returnedAt (server.connections own)) ∨
      (server.running own ≠ none ∧ responsesTo own (server.stagedStep limit event) =
        responsesTo own server ++ returnedAt
          ((server.stagedStep limit event).connections own)) := by
  refine Server.ServerState.stagedStep_cases
    (motive := fun after ↦ (responsesTo own after = responsesTo own server ∧
        returnedAt (after.connections own) = returnedAt (server.connections own)) ∨
      (server.running own ≠ none ∧
        responsesTo own after = responsesTo own server ++ returnedAt (after.connections own)))
    limit server event (.inl ⟨rfl, rfl⟩) (fun connection request ambient hevent _ ↦ .inl ?_)
    fun connection fault request ambient stage after row progress _ hbusy _ ↦ ?_
  · have hne : own ≠ connection := fun hsame ↦ hother request ambient (hsame ▸ hevent)
    rw [responsesTo_settle_of_ne hne,
      Server.ServerState.settle_connections_of_ne server request _ hne]
    exact ⟨rfl, rfl⟩
  · by_cases hsame : own = connection
    · subst hsame
      refine .inr ⟨by simp [Server.ServerState.running, hbusy], responsesTo_settle⟩
    · rw [responsesTo_settle_of_ne hsame,
        Server.ServerState.settle_connections_of_ne _ request _ hsame]
      exact .inl ⟨rfl, rfl⟩

end Staged

namespace Link

variable {limit : Option ℕ} {own : ℕ} {link : Link} {staged : Server.ServerState Server.Staged}

/-- The response that is not read yet, at the stages of the server. -/
theorem Sound.unread (h : link.Sound own staged) :
    link.unread own = if link.asking = none then [] else returnedAt (staged.connections own) := by
  have hconnection : link.server.connections own = (staged.connections own).unstage := by
    rw [h.stages]
    rfl
  rw [Link.unread, hconnection]
  cases staged.connections own <;> rfl

theorem Sound.responsesTo (h : link.Sound own staged) :
    responsesTo own link.server = System.responsesTo own staged := by
  rw [h.stages]
  rfl

end Link

/-! ### The client IDs that are granted -/

/-- A byte string with a byte that is not zero. -/
def NonZero (bytes : Bytes) : Prop :=
  ∃ byte ∈ bytes, byte ≠ 0

instance : DecidablePred NonZero :=
  fun bytes ↦ inferInstanceAs (Decidable (∃ byte ∈ bytes, byte ≠ 0))

/-- What was drawn for the requests of a connection is not zero, and it is what the connection is
granted. -/
structure Drawn (own : ℕ) (server : Server.ServerState Server.Staged) : Prop where
  busy : ∀ request ambient stage,
    server.connections own = .busy request (ambient, stage) → NonZero ambient.token
  returned : ∀ request response, server.connections own = .returned request response →
    codeOf response = responseRegisterCode →
      ∃ id : ClientId, NonZero id.val ∧ response = (Reply.registered id).bytes

theorem drawn_initial (own : ℕ) : Drawn own (.initial Server.Staged) where
  busy := fun _ _ _ h ↦ by cases h
  returned := fun _ _ h ↦ by cases h

section Drawn

variable {server : Server.ServerState Server.Staged} {own : ℕ} {request response : Bytes}
  {ambient : Server.Ambient}

/-- A response that can only have another code or the general one grants nothing. -/
theorem not_granted_of_code {code : ℕ}
    (h : Server.responseCode response = code ∨ response = Server.errorResponse)
    (hcode : code ≠ responseRegisterCode) : codeOf response ≠ responseRegisterCode := by
  show Server.responseCode response ≠ responseRegisterCode
  rcases h with heq | heq
  · rwa [heq]
  · rw [heq, Server.responseCode_errorResponse]
    simp

/-- The general error grants nothing. -/
theorem not_granted_of_error (h : response = Server.errorResponse) :
    codeOf response ≠ responseRegisterCode :=
  not_granted_of_code (.inr h : Server.responseCode response = errorGeneral ∨ _) (by simp)

/-- A call that grants a client ID grants the one that was drawn. -/
theorem granted_step {tables after : Server.Tables} {stage : Server.Stage}
    {row : Option Server.MessageRow} {progress : Server.Progress}
    (hstep : Server.StageStep tables request ambient stage after row progress)
    (hprogress : progress = .answer response) (hcode : codeOf response = responseRegisterCode) :
    response = (Reply.registered ⟨ambient.token, ambient.token_length⟩).bytes := by
  have hother : ∀ {code : ℕ} {built : Bytes}, Server.Progress.answer built = .answer response →
      Server.responseCode built = code ∨ built = Server.errorResponse →
        code ≠ responseRegisterCode →
        response = (Reply.registered ⟨ambient.token, ambient.token_length⟩).bytes := by
    intro code built hbuilt hcodes hne
    rw [← Server.Progress.answer.inj hbuilt] at hcode
    exact absurd hcode (not_granted_of_code hcodes hne)
  cases hstep with
  | failed => exact hother hprogress (.inr rfl : _ = errorGeneral ∨ _) (by simp)
  | requesterFound => cases hprogress
  | requesterTouched => exact absurd hcode (not_granted_of_error (Server.routed_answer hprogress))
  | registered hinsert => exact (Server.Progress.answer.inj hprogress).symm
  | clientsListed =>
    exact hother hprogress (Server.responseCode_caught_buildResponse (by simp) _) (by simp)
  | keyFetched =>
    exact hother hprogress (Server.responseCode_caught_buildResponse (by simp) _) (by simp)
  | messagesFetched =>
    unfold Server.selected at hprogress
    split_ifs at hprogress
    exact hother hprogress (.inr rfl : _ = errorGeneral ∨ _) (by simp)
  | messagesRemoved messages =>
    exact hother hprogress (Server.responseCode_caught_buildResponse (by simp) _) (by simp)
  | targetFound => cases hprogress
  | messageStored =>
    exact hother hprogress (Server.responseCode_sentResponse request _) (by simp)

/-- A connection that settles is granted what was drawn. -/
theorem Drawn.settle {progress : Server.Progress} (hdrawn : NonZero ambient.token)
    (hgranted : ∀ built, progress = .answer built → codeOf built = responseRegisterCode →
      ∃ id : ClientId, NonZero id.val ∧ built = (Reply.registered id).bytes) :
    Drawn own (server.settle own request (Server.ServerState.stagedOutcome ambient progress)) where
  busy := fun other otherAmbient stage hbusy ↦ by
    rcases Server.ServerState.busy_of_settle hbusy with ⟨hne, -⟩ | ⟨-, -, rfl, -⟩
    · exact absurd rfl hne
    · exact hdrawn
  returned := fun other response hreturned hcode ↦ by
    cases progress with
    | answer built =>
      simp only [Server.ServerState.settle, Server.ServerState.stagedOutcome, Function.update_self,
        Server.Connection.returned.injEq] at hreturned
      exact hgranted response (by rw [hreturned.2]) hcode
    | next stage => simp [Server.ServerState.settle, Server.ServerState.stagedOutcome] at hreturned

/-- What a connection is at decides what it has drawn. -/
theorem Drawn.congr {after : Server.ServerState Server.Staged} (h : Drawn own server)
    (hsame : after.connections own = server.connections own) : Drawn own after where
  busy := fun request ambient stage hbusy ↦ h.busy request ambient stage (hsame.symm.trans hbusy)
  returned := fun request response hreturned ↦
    h.returned request response (hsame.symm.trans hreturned)

/-- Assumes: what is drawn for a request of the connection is not zero. -/
theorem Drawn.step (h : Drawn own server) (limit : Option ℕ) (event : Server.Event)
    (hdrawn : ∀ sent drawn, event = .arrive own sent drawn → NonZero drawn.token) :
    Drawn own (server.stagedStep limit event) := by
  refine Server.ServerState.stagedStep_cases (motive := Drawn own) limit server event h
    (fun connection request ambient hevent _ ↦ ?_)
    fun connection fault request ambient stage after row progress _ hbusy hstep ↦ ?_
  · by_cases hsame : own = connection
    · subst hsame
      refine Drawn.settle (hdrawn request ambient hevent) fun built hbuilt hcode ↦ ?_
      exact absurd hcode (not_granted_of_error (Server.start_answer hbuilt))
    · exact h.congr (Server.ServerState.settle_connections_of_ne server request _ hsame)
  · by_cases hsame : own = connection
    · subst hsame
      have hnonzero := h.busy request ambient stage hbusy
      exact Drawn.settle hnonzero fun built hbuilt hcode ↦
        ⟨_, hnonzero, granted_step hstep hbuilt hcode⟩
    · exact h.congr (Server.ServerState.settle_connections_of_ne _ request _ hsame)

end Drawn

/-! ### The responses that a client reads -/

namespace Session

/-- The client has read all responses of its connection but the last, and what its connection is
granted is not zero. -/
structure Heard (own : ℕ) (session : Session) : Prop where
  linked : session.Linked own
  drawn : ∃ staged, session.link.Sound own staged ∧ Drawn own staged
  responses : responsesTo own session.link.server = session.read ++ session.link.unread own

/-- What is drawn for a request of the client is not zero. -/
def DrawsNonZero (_ : Session) : SessionEvent → Prop
  | .send _ ambient => NonZero ambient.token
  | .choose .. | .wake | .act _ | .receive .. | .fail .. | .serve _ => True

variable {limit : Option ℕ} {own : ℕ} {crypto : Crypto} {session : Session}

theorem heard_start (own : ℕ) (client : ClientState) : (start client).Heard own where
  linked := linked_start own client
  drawn := ⟨_, Link.sound_fresh own, drawn_initial own⟩
  responses := rfl

/-- The response that a thread reads is the one that was not read. -/
theorem unread_of_response {link : Link} {thread : Thread} {response : Bytes}
    (h : link.response own thread = some response) : link.unread own = [response] := by
  rw [Link.response] at h
  split_ifs at h with hasking
  rw [Link.unread, if_neg (by simp [hasking.1])]
  cases hconnection : link.server.connections own with
  | returned request returned =>
    rw [hconnection] at h
    rw [returnedAt, Option.some.inj h]
  | idle => simp [hconnection] at h
  | busy request rest => simp [hconnection] at h
  | stopped => simp [hconnection] at h

/-- Assumes: what is drawn for a request of the client is not zero. -/
theorem Heard.step (h : session.Heard own) (limit : Option ℕ) (crypto : Crypto)
    {event : SessionEvent} (hdraws : DrawsNonZero session event) :
    (session.step limit own crypto event).Heard own := by
  obtain ⟨staged, hsound, hdrawn⟩ := h.drawn
  have hresponses : System.responsesTo own staged = session.read ++ session.link.unread own := by
    rw [← hsound.responsesTo]
    exact h.responses
  have hthreads : ∀ threads, Linked own { session with threads := threads } →
      Heard own { session with threads := threads } := fun threads hlinked ↦
    ⟨hlinked, h.drawn, h.responses⟩
  have hlinked := h.linked.step limit crypto event
  revert hlinked
  refine step_cases (motive := fun after ↦ after.Linked own → after.Heard own) h.linked limit crypto
    event (fun _ ↦ h) (fun _ _ _ _ ↦ hthreads _) (fun _ _ ↦ hthreads _) (fun _ _ _ _ _ ↦ hthreads _)
    (fun thread data resume ambient hevent _ hlinked ↦ ?_)
    (fun thread data resume response outcome _ _ hresponse _ hlinked ↦ ?_)
    (fun thread data resume exception _ _ hlinked ↦ ?_) fun happening _ hlinked ↦ ?_
  · rcases hsound.send limit thread data ambient with hsame | ⟨hnone, -, hasking, -, htaken, hafter⟩
    · rw [hsame]
      exact h
    · subst hevent
      have hnonzero : ∀ sent drawn, Server.Event.arrive own data ambient = .arrive own sent drawn →
          NonZero drawn.token := by
        intro sent drawn heq
        cases heq
        exact hdraws
      refine ⟨hlinked, ⟨_, hafter, hdrawn.step limit _ hnonzero⟩, ?_⟩
      show System.responsesTo own (session.link.send limit own thread data ambient).server =
        session.read ++ (session.link.send limit own thread data ambient).unread own
      rw [Link.unread, if_pos hnone, List.append_nil] at hresponses
      rw [hafter.responsesTo, hafter.unread, hasking, if_neg (by simp), htaken, responsesTo_settle,
        hresponses]
  · refine ⟨hlinked, ⟨staged, hsound.release hresponse, hdrawn⟩, ?_⟩
    show System.responsesTo own session.link.server = session.read ++ [response] ++ []
    rw [h.responses, unread_of_response hresponse, List.append_nil]
  · refine ⟨hlinked, ⟨staged, hsound.broken thread, hdrawn⟩, ?_⟩
    show System.responsesTo own (session.link.broken thread).server =
      session.read ++ (session.link.broken thread).unread own
    rw [Link.broken]
    split_ifs
    · exact h.responses
    · exact h.responses
  · rcases hsound.serve limit happening with hsame | ⟨hother, hasking, -, hafter⟩
    · rw [hsame]
      exact h
    · refine ⟨hlinked, ⟨_, hafter, hdrawn.step limit happening fun sent drawn heq ↦
        absurd heq (hother sent drawn)⟩, ?_⟩
      show System.responsesTo own (session.link.serve limit own happening).server =
        session.read ++ (session.link.serve limit own happening).unread own
      rw [hafter.responsesTo, hafter.unread, hasking]
      rw [hsound.unread] at hresponses
      rcases responsesTo_stagedStep limit happening hother with ⟨hsame, hreturned⟩ |
        ⟨hrunning, hmore⟩
      · rw [hsame, hreturned]
        exact hresponses
      · have hbusy : session.link.asking ≠ none := fun hnone ↦ hrunning (hsound.free hnone)
        have hunread : returnedAt (staged.connections own) = [] := by
          rw [Server.ServerState.running] at hrunning
          cases hconnection : staged.connections own with
          | busy request rest => rfl
          | idle => rfl
          | stopped => rfl
          | returned request response => simp [hconnection] at hrunning
        rw [if_neg hbusy, hunread, List.append_nil] at hresponses
        rw [if_neg hbusy, hmore, hresponses]

end Session

end MessageU.System
