import MessageU.System.Link
import MessageU.System.Threads

/-!
# The threads of a client at a running server

`Session` puts the two threads of a client and its connection together. A thread whose next call is
an exchange sends its request when the connection is free and goes on when the response has been
read; between the two the other thread and the server do anything, but the other thread cannot
exchange. An exchange may also throw: before its request is sent, before its response is there, or
when it has been read. In the second case nothing is exchanged any more. This is the assumption of
`Link` that responses are matched to their requests, not what the code does.

`Session.Linked` ties the two halves together: the exchange that is under way is the next call of
its thread, with the request that the connection is at. `step_cases` is all that the invariants of
sessions know about a step, and `threads_invariant` says that a session is a run of `Threads`.
-/

set_option autoImplicit false
set_option relaxedAutoImplicit false

namespace MessageU.System

open Library Client

/-- The threads of a client with their connection. -/
structure Session where
  threads : Threads
  link : Link
  /-- The responses that were read. -/
  read : List Bytes

/-- What can happen. -/
inductive SessionEvent
  /-- The user makes a choice of the menu. -/
  | choose (choice : ℕ) (surroundings : Surroundings)
  /-- The pull thread wakes up. -/
  | wake
  /-- A thread makes its next call, which is no exchange. -/
  | act (thread : Thread)
  /-- A thread sends the request of its exchange. -/
  | send (thread : Thread) (ambient : Server.Ambient)
  /-- A thread reads the response of its exchange and returns it or throws. -/
  | receive (thread : Thread) (outcome : Except CppError Unit)
  /-- The exchange of a thread throws without a response. If its request has been sent, no exchange
  is made any more, as is assumed. -/
  | fail (thread : Thread) (exception : CppError)
  /-- Something happens at the server. -/
  | serve (event : Server.Event)

namespace Session

/-- A client that has just connected. -/
def start (client : ClientState) : Session where
  threads := .start client
  link := .fresh
  read := []

/-- The context of the client. -/
abbrev ctx (session : Session) : ClientContext :=
  session.threads.ctx

/-- One event. -/
def step (limit : Option ℕ) (own : ℕ) (crypto : Crypto) (session : Session) : SessionEvent → Session
  | .choose choice surroundings =>
    { session with threads := session.threads.step crypto (.choose choice surroundings) }
  | .wake => { session with threads := session.threads.step crypto .wake }
  | .act thread =>
    match session.threads.nextCall thread with
    | some (.method _) =>
      { session with threads := session.threads.step crypto (.act thread (.ok [])) }
    | some (.sendAndReceive _) | none => session
  | .send thread ambient =>
    match session.threads.nextCall thread with
    | some (.sendAndReceive data) =>
      { session with link := session.link.send limit own thread data ambient }
    | some (.method _) | none => session
  | .receive thread outcome =>
    match session.link.response own thread with
    | some response =>
      { threads := session.threads.step crypto (.act thread (outcome.map fun _ ↦ response))
        link := session.link.release
        read := session.read ++ [response] }
    | none => session
  | .fail thread exception =>
    match session.threads.nextCall thread with
    | some (.sendAndReceive _) =>
      { session with
        threads := session.threads.step crypto (.act thread (.error exception))
        link := session.link.broken thread }
    | some (.method _) | none => session
  | .serve event => { session with link := session.link.serve limit own event }

/-- The connection is sound, and the exchange that is under way is the next call of its thread. -/
structure Linked (own : ℕ) (session : Session) : Prop where
  sound : ∃ staged, session.link.Sound own staged
  asking : ∀ thread, session.link.asking = some thread → session.link.connected = true →
    ∃ data resume, session.threads.rest thread = .request (.sendAndReceive data) resume ∧
      session.link.request own = some data

variable {limit : Option ℕ} {own : ℕ} {crypto : Crypto} {session : Session}

theorem linked_start (own : ℕ) (client : ClientState) : (start client).Linked own where
  sound := ⟨_, Link.sound_fresh own⟩
  asking := nofun

/-- An event leaves the session alone, begins a round, or makes a call of a thread; or a thread
sends its request, reads its response or fails to; or something happens at the server. -/
theorem step_cases {motive : Session → Prop} (h : session.Linked own) (limit : Option ℕ)
    (crypto : Crypto) (event : SessionEvent) (hsame : motive session)
    (hchoose : ∀ choice surroundings, event = .choose choice surroundings →
      session.threads.rest .main = .finished (.ok ()) →
      motive { session with
        threads := session.threads.launch .main
          (session.threads.prepared .main (surroundings.apply session.threads.shared.client))
          (mainTurn (surroundings.console.length + 1) choice) })
    (hwake : ∀ outcome, session.threads.rest .pull = .finished outcome →
      motive { session with
        threads := session.threads.launch .pull
          (session.threads.prepared .pull session.threads.shared.client) pullTurn })
    (hmethod : ∀ thread call resume, event = .act thread →
      session.threads.rest thread = .request (.method call) resume →
      motive { session with
        threads := session.threads.launch thread
          { session.threads.shared with
            client := (call.exec crypto session.threads.shared.client).1 }
          (resume (call.exec crypto session.threads.shared.client).2) })
    (hsend : ∀ thread data resume ambient, event = .send thread ambient →
      session.threads.rest thread = .request (.sendAndReceive data) resume →
      motive { session with link := session.link.send limit own thread data ambient })
    (hreceive : ∀ thread data resume response outcome, event = .receive thread outcome →
      session.threads.rest thread = .request (.sendAndReceive data) resume →
      session.link.response own thread = some response → session.link.request own = some data →
      motive
        { threads := session.threads.launch thread
            (serve crypto thread (outcome.map fun _ ↦ response) session.threads.shared
              (.sendAndReceive data)).1
            (resume (outcome.map fun _ ↦ response))
          link := session.link.release
          read := session.read ++ [response] })
    (hfail : ∀ thread data resume exception, event = .fail thread exception →
      session.threads.rest thread = .request (.sendAndReceive data) resume →
      motive { session with
        threads := session.threads.launch thread session.threads.shared (resume (.error exception))
        link := session.link.broken thread })
    (hserve : ∀ happening, event = .serve happening →
      motive { session with link := session.link.serve limit own happening }) :
    motive (session.step limit own crypto event) := by
  have hact : ∀ thread response, session.threads.step crypto (.act thread response) =
      session.threads.perform (serve crypto thread response) thread := fun _ _ ↦ rfl
  have hanswer : ∀ (thread : Thread) (response : Except CppError Bytes) (data : Bytes),
      (serve crypto thread response session.threads.shared (.sendAndReceive data)).2 =
        response := by
    intro thread response data
    cases response <;> rfl
  cases event with
  | choose choice surroundings =>
    simp only [step, Threads.step]
    cases hrest : session.threads.rest .main with
    | request call resume => exact hsame
    | finished outcome =>
      cases outcome with
      | ok value => exact hchoose choice surroundings rfl hrest
      | error exception => exact hsame
  | wake =>
    simp only [step, Threads.step]
    cases hrest : session.threads.rest .pull with
    | request call resume => exact hsame
    | finished outcome => exact hwake outcome hrest
  | act thread =>
    simp only [step, Threads.nextCall]
    cases hrest : session.threads.rest thread with
    | finished outcome => exact hsame
    | request call resume =>
      cases call with
      | sendAndReceive data => exact hsame
      | method call =>
        simp only [firstCall]
        rw [hact, Team.perform_of_request _ hrest]
        exact hmethod thread call resume rfl hrest
  | send thread ambient =>
    simp only [step, Threads.nextCall]
    cases hrest : session.threads.rest thread with
    | finished outcome => exact hsame
    | request call resume =>
      cases call with
      | method call => exact hsame
      | sendAndReceive data => exact hsend thread data resume ambient rfl hrest
  | receive thread outcome =>
    simp only [step]
    cases hresponse : session.link.response own thread with
    | none => exact hsame
    | some response =>
      obtain ⟨staged, hsound⟩ := h.sound
      obtain ⟨hasking, hconnected, -⟩ := hsound.returned hresponse
      obtain ⟨data, resume, hrest, hrequest⟩ := h.asking thread hasking hconnected
      have hmotive := hreceive thread data resume response outcome rfl hrest hresponse hrequest
      dsimp only
      rw [hact, Team.perform_of_request _ hrest, hanswer]
      exact hmotive
  | fail thread exception =>
    simp only [step, Threads.nextCall]
    cases hrest : session.threads.rest thread with
    | finished outcome => exact hsame
    | request call resume =>
      cases call with
      | method call => exact hsame
      | sendAndReceive data =>
        simp only [firstCall]
        rw [hact, Team.perform_of_request _ hrest]
        exact hfail thread data resume exception rfl hrest
  | serve event => exact hserve event rfl

/-- A thread that is at no exchange goes on. -/
theorem Linked.launch (h : session.Linked own) {thread : Thread} {shared : Shared}
    {program : Loop Unit}
    (hnone : ∀ data resume, session.threads.rest thread ≠ .request (.sendAndReceive data) resume) :
    Linked own { session with threads := session.threads.launch thread shared program } where
  sound := h.sound
  asking := fun other hasking hconnected ↦ by
    obtain ⟨data, resume, hrest, hrequest⟩ := h.asking other hasking hconnected
    refine ⟨data, resume, ?_, hrequest⟩
    have hne : other ≠ thread := by
      rintro rfl
      exact hnone data resume hrest
    exact (Team.launch_rest_of_ne hne shared program).trans hrest

theorem Linked.step (h : session.Linked own) (limit : Option ℕ) (crypto : Crypto)
    (event : SessionEvent) : (session.step limit own crypto event).Linked own := by
  obtain ⟨staged, hsound⟩ := h.sound
  refine step_cases (motive := Linked own) h limit crypto event h (fun _ _ _ hrest ↦ ?_)
    (fun _ hrest ↦ ?_) (fun thread call resume _ hrest ↦ ?_)
    (fun thread data resume ambient _ hrest ↦ ?_)
    (fun thread data resume response outcome _ _ hresponse _ ↦ ?_)
    (fun thread data resume exception _ hrest ↦ ?_) fun happening _ ↦ ?_
  · exact h.launch fun data resume hexchange ↦ by simp [hrest] at hexchange
  · exact h.launch fun data resume hexchange ↦ by simp [hrest] at hexchange
  · exact h.launch fun data resume hexchange ↦ by simp [hrest] at hexchange
  · rcases hsound.send limit thread data ambient with hsame | ⟨-, -, hasking, -, htaken, hafter⟩
    · rw [hsame]
      exact h
    · refine ⟨⟨_, hafter⟩, fun other hother _ ↦ ?_⟩
      rw [hasking] at hother
      obtain rfl : thread = other := Option.some.inj hother
      exact ⟨data, resume, hrest, by rw [hafter.request, htaken, requestAt_settle]⟩
  · exact ⟨⟨staged, hsound.release hresponse⟩, nofun⟩
  · refine ⟨⟨staged, hsound.broken thread⟩, fun other hasking hconnected ↦ ?_⟩
    by_cases hbreaks : session.link.asking = some thread
    · rw [Link.broken, if_pos hbreaks] at hconnected
      cases hconnected
    · rw [Link.broken, if_neg hbreaks] at hasking hconnected ⊢
      obtain ⟨sent, rest, hother, hrequest⟩ := h.asking other hasking hconnected
      have hne : other ≠ thread := by
        rintro rfl
        exact hbreaks hasking
      exact ⟨sent, rest, (Team.launch_rest_of_ne hne _ _).trans hother, hrequest⟩
  · rcases hsound.serve limit happening with hsame | ⟨hother, hasking, hconnected, hafter⟩
    · rw [hsame]
      exact h
    · refine ⟨⟨_, hafter⟩, fun thread hthread hstill ↦ ?_⟩
      rw [hasking] at hthread
      rw [hconnected] at hstill
      obtain ⟨data, resume, hrest, hrequest⟩ := h.asking thread hthread hstill
      refine ⟨data, resume, hrest, ?_⟩
      rw [hafter.request, requestAt_stagedStep limit happening hother, ← hsound.request]
      exact hrequest

/-- The response that a thread reads means what the identities say of its request. -/
theorem Linked.means (h : session.Linked own) {thread : Thread} {data response : Bytes}
    (hresponse : session.link.response own thread = some response)
    (hrequest : session.link.request own = some data) :
    Means session.link.identities data response := by
  obtain ⟨staged, hsound⟩ := h.sound
  exact hsound.means hresponse hrequest

/-- The threads of a session run as they do with any responses. -/
theorem threads_step {P : Threads → Prop}
    (hstep : ∀ threads event, P threads → P (threads.step crypto event))
    (h : P session.threads) (event : SessionEvent) :
    P (session.step limit own crypto event).threads := by
  cases event with
  | choose choice surroundings => exact hstep _ (.choose choice surroundings) h
  | wake => exact hstep _ .wake h
  | act thread =>
    simp only [step]
    split
    · exact hstep _ (.act thread (.ok [])) h
    · exact h
    · exact h
  | send thread ambient =>
    simp only [step]
    split <;> exact h
  | receive thread outcome =>
    simp only [step]
    split
    · exact hstep _ (.act thread (outcome.map fun _ ↦ _)) h
    · exact h
  | fail thread exception =>
    simp only [step]
    split
    · exact hstep _ (.act thread (.error exception)) h
    · exact h
    · exact h
  | serve event => exact h

end Session

end MessageU.System
