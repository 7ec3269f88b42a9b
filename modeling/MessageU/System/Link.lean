import MessageU.System.Answers
import MessageU.System.SharedConnection

/-!
# A client at a running server

One connection of the server belongs to a client, the others to clients that may do anything. `Link`
is the server together with what the client knows of its connection: which thread has an exchange
under way, and whether an exchange was left in the middle. A thread that takes `_connMutex` sends
its request (`Link.send`), the server makes calls for it and for the others (`Link.serve`), and the
thread reads the response when it has been returned (`Link.response`). Requests come to the
connection of the client from the client alone.

It is an assumption here that responses are matched to their requests: behind an exchange that
throws when its request has been sent and its response not read, nothing is exchanged any more
(`Link.broken`). The code does go on with such a connection, and may read what is left of an old
response as a new one; `WireEvent` adds these exchanges.

`Link.Sound` is what holds at every moment. When no exchange is under way the connection of the
client waits for a request, so that a request that is sent is taken; while one is under way it stays
the request of the connection (`requestAt_stagedStep`); and the response that is read means what the
identities of the clients say (`Sound.means`).
-/

set_option autoImplicit false
set_option relaxedAutoImplicit false

namespace MessageU.System

open Library Client

/-- The connection of a client at the server. -/
structure Link where
  server : Server.ServerState Server.Handler
  /-- The thread whose exchange is under way or was left in the middle. -/
  asking : Option Thread
  /-- No exchange was left in the middle. -/
  connected : Bool

/-- What a request reads at the server when the server draws an ID. -/
def drawing (id : ClientId) : Server.Ambient :=
  ⟨id.val, "", id.property⟩

namespace Link

/-- A connection at a server that has not done anything. -/
def fresh : Link where
  server := .initial Server.Handler
  asking := none
  connected := true

/-- The request that a connection is at. -/
def requestAt {Rest : Type} : Server.Connection Rest → Option Bytes
  | .busy request _ | .returned request _ => some request
  | .idle | .stopped => none

/-- The identities that the server holds. -/
def identities (link : Link) : List Identity :=
  link.server.tables.identities

variable (limit : Option ℕ) (own : ℕ)

/-- The request that the connection of the client is at. -/
def request (link : Link) : Option Bytes :=
  requestAt (link.server.connections own)

/-- A thread takes the mutex and sends a request. -/
def send (link : Link) (thread : Thread) (request : Bytes) (ambient : Server.Ambient) : Link :=
  if link.asking = none ∧ link.connected = true then
    { link with
      server := link.server.step limit (.arrive own request ambient)
      asking := some thread }
  else link

/-- The response that a thread can read. -/
def response (link : Link) (thread : Thread) : Option Bytes :=
  if link.asking = some thread ∧ link.connected = true then
    match link.server.connections own with
    | .returned _ response => some response
    | .idle | .busy _ _ | .stopped => none
  else none

/-- The exchange is over. -/
def release (link : Link) : Link :=
  { link with asking := none }

/-- An exchange throws. When its request has been sent, the connection is left in the middle, and
nothing is exchanged on it any more. That is no behaviour of the code but an assumption on the run:
an exchange behind it would not be matched to its response. -/
def broken (link : Link) (thread : Thread) : Link :=
  if link.asking = some thread then { link with connected := false } else link

/-- Something happens at the server, which is no request of the client. -/
def serve (link : Link) (event : Server.Event) : Link :=
  match event with
  | .arrive connection _ _ =>
    if connection = own then link else { link with server := link.server.step limit event }
  | .call _ _ => { link with server := link.server.step limit event }

/-! ### What holds of a link -/

/-- The server is at its stages, and the connection of the client is as the client knows it. -/
structure Sound (link : Link) (staged : Server.ServerState Server.Staged) : Prop where
  stages : link.server = staged.unstage
  answers : AnswersSound staged
  free : link.asking = none → staged.running own = none
  alive : staged.connections own ≠ .stopped

variable {limit own} {link : Link} {staged : Server.ServerState Server.Staged}

theorem sound_fresh (own : ℕ) : Sound own fresh (.initial Server.Staged) where
  stages := rfl
  answers := answersSound_initial
  free := fun _ ↦ rfl
  alive := nofun

theorem requestAt_unstage (connection : Server.Connection Server.Staged) :
    requestAt connection.unstage = requestAt connection := by
  cases connection <;> rfl

theorem Sound.request (h : link.Sound own staged) :
    link.request own = requestAt (staged.connections own) := by
  rw [Link.request, h.stages]
  exact requestAt_unstage _

theorem Sound.identities (h : link.Sound own staged) :
    link.identities = staged.tables.identities := by
  rw [Link.identities, h.stages]
  rfl

/-- What an event of the server does to the link does to the stages. -/
theorem Sound.step (h : link.Sound own staged) (limit : Option ℕ) (event : Server.Event) :
    link.server.step limit event = (staged.stagedStep limit event).unstage := by
  rw [h.stages, Server.ServerState.step_unstage]

end Link

/-! ### Events at the server -/

section Staged

variable {server : Server.ServerState Server.Staged} {connection own : ℕ} {request : Bytes}
  {ambient : Server.Ambient} {progress : Server.Progress}

/-- A connection that settles is at its request. -/
theorem requestAt_settle :
    Link.requestAt ((server.settle connection request
      (Server.ServerState.stagedOutcome ambient progress)).connections connection) =
        some request := by
  cases progress with
  | answer response =>
    simp [Server.ServerState.settle, Server.ServerState.stagedOutcome, Link.requestAt]
  | next stage => simp [Server.ServerState.settle, Server.ServerState.stagedOutcome, Link.requestAt]

/-- A connection that settles has not stopped. -/
theorem alive_settle (h : server.connections own ≠ .stopped) :
    (server.settle connection request
      (Server.ServerState.stagedOutcome ambient progress)).connections own ≠ .stopped := by
  by_cases hsame : own = connection
  · subst hsame
    cases progress with
    | answer response => simp [Server.ServerState.settle, Server.ServerState.stagedOutcome]
    | next stage => simp [Server.ServerState.settle, Server.ServerState.stagedOutcome]
  · rwa [Server.ServerState.settle_connections_of_ne server request _ hsame]

/-- An event stops no connection. -/
theorem alive_stagedStep (h : server.connections own ≠ .stopped) (limit : Option ℕ)
    (event : Server.Event) : (server.stagedStep limit event).connections own ≠ .stopped :=
  Server.ServerState.stagedStep_cases (motive := fun after ↦ after.connections own ≠ .stopped) limit
    server event h (fun _ _ _ _ _ ↦ alive_settle h) fun _ _ _ _ _ _ _ _ _ _ _ ↦ alive_settle h

/-- An event that is no request of a connection leaves the connection at its request. -/
theorem requestAt_stagedStep (limit : Option ℕ) (event : Server.Event)
    (hother : ∀ sent ambient, event ≠ .arrive own sent ambient) :
    Link.requestAt ((server.stagedStep limit event).connections own) =
      Link.requestAt (server.connections own) := by
  refine Server.ServerState.stagedStep_cases
    (motive := fun after ↦ Link.requestAt (after.connections own) = _) limit server event rfl
    (fun connection request ambient hevent _ ↦ ?_)
    fun connection fault request ambient stage after row progress _ hbusy _ ↦ ?_
  · have hne : own ≠ connection := fun hsame ↦ hother request ambient (hsame ▸ hevent)
    rw [Server.ServerState.settle_connections_of_ne server request _ hne]
  · by_cases hsame : own = connection
    · subst hsame
      rw [requestAt_settle, hbusy]
      rfl
    · rw [Server.ServerState.settle_connections_of_ne _ request _ hsame]
      rfl

/-- A connection that is not running stays so until a request arrives at it. -/
theorem running_stagedStep (h : server.running own = none) (limit : Option ℕ) (event : Server.Event)
    (hother : ∀ sent ambient, event ≠ .arrive own sent ambient) :
    (server.stagedStep limit event).running own = none := by
  have hidle : ∀ {after : Server.ServerState Server.Staged} {connection : ℕ} {request : Bytes}
      {outcome : Server.Outcome Server.Staged}, own ≠ connection → after.running own = none →
        (after.settle connection request outcome).running own = none := by
    intro after connection request outcome hne hafter
    rwa [Server.ServerState.running,
      Server.ServerState.settle_connections_of_ne after request outcome hne]
  refine Server.ServerState.stagedStep_cases (motive := fun after ↦ after.running own = none) limit
    server event h (fun connection request ambient hevent _ ↦ ?_)
    fun connection fault request ambient stage after row progress _ hbusy _ ↦ ?_
  · exact hidle (fun hsame ↦ hother request ambient (hsame ▸ hevent)) h
  · refine hidle (fun hsame ↦ ?_) h
    rw [← hsame] at hbusy
    simp [Server.ServerState.running, hbusy] at h

end Staged

namespace Link

variable {limit : Option ℕ} {own : ℕ} {link : Link} {staged : Server.ServerState Server.Staged}

/-- The server takes an event that is no request of the client. -/
theorem Sound.serve (h : link.Sound own staged) (limit : Option ℕ) (event : Server.Event) :
    link.serve limit own event = link ∨
      ((∀ sent ambient, event ≠ .arrive own sent ambient) ∧
        (link.serve limit own event).asking = link.asking ∧
        (link.serve limit own event).connected = link.connected ∧
        (link.serve limit own event).Sound own (staged.stagedStep limit event)) := by
  have hkept : (∀ sent ambient, event ≠ .arrive own sent ambient) →
      Sound own { link with server := link.server.step limit event }
        (staged.stagedStep limit event) := fun hother ↦
    { stages := h.step limit event
      answers := h.answers.step limit event
      free := fun hfree ↦ running_stagedStep (h.free hfree) limit event hother
      alive := alive_stagedStep h.alive limit event }
  cases event with
  | arrive connection sent ambient =>
    rw [Link.serve]
    split_ifs with hsame
    · exact .inl rfl
    · have hother : ∀ other otherAmbient, Server.Event.arrive connection sent ambient ≠
          .arrive own other otherAmbient := by
        rintro other otherAmbient heq
        cases heq
        exact hsame rfl
      exact .inr ⟨hother, rfl, rfl, hkept hother⟩
  | call connection fault => exact .inr ⟨nofun, rfl, rfl, hkept nofun⟩

/-- A request that is sent is taken. -/
theorem Sound.send (h : link.Sound own staged) (limit : Option ℕ) (thread : Thread) (sent : Bytes)
    (ambient : Server.Ambient) :
    link.send limit own thread sent ambient = link ∨
      (link.asking = none ∧ link.connected = true ∧
        (link.send limit own thread sent ambient).asking = some thread ∧
        (link.send limit own thread sent ambient).connected = true ∧
        (staged.stagedStep limit (.arrive own sent ambient) = staged.settle own sent
          (Server.ServerState.stagedOutcome ambient (Server.start sent))) ∧
        (link.send limit own thread sent ambient).Sound own
          (staged.stagedStep limit (.arrive own sent ambient))) := by
  rw [Link.send]
  split_ifs with hfree
  · have htaken : staged.stagedStep limit (.arrive own sent ambient) = staged.settle own sent
        (Server.ServerState.stagedOutcome ambient (Server.start sent)) := by
      have hidle := h.free hfree.1
      have halive := h.alive
      simp only [Server.ServerState.running] at hidle
      simp only [Server.ServerState.stagedStep]
      cases hconnection : staged.connections own with
      | idle => rfl
      | busy request rest =>
        rw [hconnection] at hidle
        cases hidle
      | returned request response => rfl
      | stopped => exact absurd hconnection halive
    refine .inr ⟨hfree.1, hfree.2, rfl, hfree.2, htaken, ?_⟩
    exact
      { stages := h.step limit (.arrive own sent ambient)
        answers := h.answers.step limit _
        free := fun hnone ↦ absurd hnone (Option.some_ne_none thread)
        alive := alive_stagedStep h.alive limit _ }
  · exact .inl rfl

/-- The server keeps the identities that it holds. -/
theorem Sound.identities_step (h : link.Sound own staged) (limit : Option ℕ)
    (event : Server.Event) :
    link.identities ⊆ (link.server.step limit event).tables.identities := by
  rw [h.identities, h.step limit event]
  exact (Server.ServerState.identities_step limit staged event).subset

theorem Sound.identities_send (h : link.Sound own staged) (limit : Option ℕ) (thread : Thread)
    (sent : Bytes) (ambient : Server.Ambient) :
    link.identities ⊆ (link.send limit own thread sent ambient).identities := by
  rw [Link.send]
  split_ifs
  · exact h.identities_step limit _
  · exact List.Subset.refl _

theorem Sound.identities_serve (h : link.Sound own staged) (limit : Option ℕ)
    (event : Server.Event) : link.identities ⊆ (link.serve limit own event).identities := by
  cases event with
  | arrive connection sent ambient =>
    rw [Link.serve]
    split_ifs
    · exact List.Subset.refl _
    · exact h.identities_step limit _
  | call connection fault => exact h.identities_step limit _

theorem identities_broken (link : Link) (thread : Thread) :
    (link.broken thread).identities = link.identities := by
  rw [Link.broken]
  split_ifs <;> rfl

/-- A response that is read was returned for the request of the connection. -/
theorem Sound.returned (h : link.Sound own staged) {thread : Thread} {response : Bytes}
    (hresponse : link.response own thread = some response) :
    link.asking = some thread ∧ link.connected = true ∧
      ∃ request, staged.connections own = .returned request response := by
  rw [Link.response] at hresponse
  split_ifs at hresponse with hasking
  refine ⟨hasking.1, hasking.2, ?_⟩
  have hconnection : link.server.connections own = (staged.connections own).unstage := by
    rw [h.stages]
    rfl
  rw [hconnection] at hresponse
  cases hstaged : staged.connections own with
  | returned request returned =>
    rw [hstaged] at hresponse
    cases hresponse
    exact ⟨request, rfl⟩
  | idle => simp [hstaged, Server.Connection.unstage] at hresponse
  | busy request rest => simp [hstaged, Server.Connection.unstage] at hresponse
  | stopped => simp [hstaged, Server.Connection.unstage] at hresponse

/-- The exchange of a thread that has read its response is over. -/
theorem Sound.release (h : link.Sound own staged) {thread : Thread} {response : Bytes}
    (hresponse : link.response own thread = some response) : link.release.Sound own staged where
  stages := h.stages
  answers := h.answers
  free := fun _ ↦ by
    obtain ⟨-, -, request, hreturned⟩ := h.returned hresponse
    rw [Server.ServerState.running, hreturned]
  alive := h.alive

theorem Sound.broken (h : link.Sound own staged) (thread : Thread) :
    (link.broken thread).Sound own staged := by
  rw [Link.broken]
  split_ifs
  · exact ⟨h.stages, h.answers, h.free, h.alive⟩
  · exact h

/-- A response means what the identities of the clients say. -/
theorem Sound.means (h : link.Sound own staged) {thread : Thread} {response : Bytes}
    (hresponse : link.response own thread = some response) {sent : Bytes}
    (hsent : link.request own = some sent) : Means link.identities sent response := by
  obtain ⟨-, -, request, hreturned⟩ := h.returned hresponse
  have hmeans := h.answers.returned own request response hreturned
  rw [h.request, hreturned] at hsent
  cases hsent
  rwa [h.identities]

end Link

end MessageU.System
