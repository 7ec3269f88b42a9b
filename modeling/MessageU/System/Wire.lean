import MessageU.System.Session

/-!
# Exchanges that are left in the middle

`sendAndReceive` closes nothing when it throws. An exchange that throws in the middle of its
request, or behind it when its response has not been read whole, leaves the connection in the
middle, and what is exchanged behind it need not match any more: a request runs into what is left of
an earlier one, and what is read as a response may be bytes that somebody else has put into a
message. A `Session` has no such exchanges. Here they come on top of it. The connection may be left
in the middle of a request (`tear`) or behind it (the `fail` of a session), and then any request may
come to the server (`stray`) and any bytes may be returned to a thread (`misread`).

`Matched` says that responses are matched to their requests: no exchange is made on a connection
that was left in the middle. A matched run is a run of sessions. `whole` takes away that a
connection was left in the middle of a request, and behind it a matched step is a step of `Session`
or none (`whole_wireStep`).
-/

set_option autoImplicit false
set_option relaxedAutoImplicit false

namespace MessageU.System

open Library Client

/-- What can happen on a connection that may be left in the middle. -/
inductive WireEvent
  | session (event : SessionEvent)
  /-- The exchange of a thread throws when a part of its request has been written. -/
  | tear (thread : Thread) (exception : CppError)
  /-- Bytes that were written behind an exchange that was left in the middle make a request. -/
  | stray (request : Bytes) (ambient : Server.Ambient)
  /-- Behind an exchange that was left in the middle a thread is returned what bytes there are, or
  its exchange throws. -/
  | misread (thread : Thread) (outcome : Except CppError Bytes)

namespace Session

/-- One event. -/
def wireStep (limit : Option ℕ) (own : ℕ) (crypto : Crypto) (session : Session) :
    WireEvent → Session
  | .session event => session.step limit own crypto event
  | .tear thread exception =>
    match session.threads.nextCall thread with
    | some (.sendAndReceive _) =>
      if session.link.asking = none ∧ session.link.connected = true then
        { session with
          threads := session.threads.step crypto (.act thread (.error exception))
          link := { session.link with connected := false } }
      else session
    | some (.method _) | none => session
  | .stray request ambient =>
    if session.link.connected = true then session
    else
      { session with link := { session.link with
          server := session.link.server.step limit (.arrive own request ambient) } }
  | .misread thread outcome =>
    match session.threads.nextCall thread with
    | some (.sendAndReceive _) =>
      if session.link.connected = true then session
      else { session with threads := session.threads.step crypto (.act thread outcome) }
    | some (.method _) | none => session

/-- Responses are matched to their requests: nothing is exchanged on a connection that was left in
the middle. -/
def Matched (_ : Session) : WireEvent → Prop
  | .session _ | .tear .. => True
  | .stray .. | .misread .. => False

instance (session : Session) : DecidablePred session.Matched
  | .session _ | .tear .. => isTrue trivial
  | .stray .. | .misread .. => isFalse id

/-- The connection was left in the middle of a request. -/
def Torn (session : Session) : Prop :=
  session.link.asking = none ∧ session.link.connected = false

/-- The session as if no connection had been left in the middle of a request. -/
def whole (session : Session) : Session :=
  if session.link.asking = none then
    { session with link := { session.link with connected := true } }
  else session

variable {limit : Option ℕ} {own : ℕ} {crypto : Crypto} {session : Session}

@[simp] theorem whole_threads (session : Session) : session.whole.threads = session.threads := by
  rw [whole]
  split_ifs <;> rfl

@[simp] theorem whole_server (session : Session) :
    session.whole.link.server = session.link.server := by
  rw [whole]
  split_ifs <;> rfl

theorem whole_of_not_torn (h : ¬session.Torn) : session.whole = session := by
  rw [whole]
  split_ifs with hasking
  · have hconnected : session.link.connected = true := by simpa using mt (And.intro hasking) h
    rw [← hconnected]
  · rfl

theorem Torn.whole (h : session.Torn) :
    session.whole = { session with link := { session.link with connected := true } } :=
  if_pos h.1

/-- An event of a session leaves no connection in the middle of a request. -/
theorem not_torn_step (h : ¬session.Torn) (event : SessionEvent) :
    ¬(session.step limit own crypto event).Torn := by
  cases event with
  | choose choice surroundings => exact h
  | wake => exact h
  | act thread =>
    simp only [step]
    split <;> exact h
  | send thread ambient =>
    simp only [step]
    split
    · rw [Torn, Link.send]
      split_ifs with hfree
      · simp
      · exact h
    · exact h
    · exact h
  | receive thread outcome =>
    simp only [step]
    split
    · rename_i response hresponse
      rw [Link.response] at hresponse
      split_ifs at hresponse with hasking
      simp [Torn, Link.release, hasking.2]
    · exact h
  | fail thread exception =>
    simp only [step]
    split
    · rw [Torn, Link.broken]
      split_ifs with hasking
      · simp [hasking]
      · exact h
    · exact h
    · exact h
  | serve event =>
    simp only [step, Torn, Link.serve]
    cases event with
    | arrive connection request ambient =>
      dsimp only
      split_ifs <;> exact h
    | call connection fault => exact h

/-- On a connection that was left in the middle of a request nothing is exchanged, and else the
threads and the server go on. -/
theorem Torn.step (h : session.Torn) (limit : Option ℕ) (own : ℕ) (crypto : Crypto)
    (event : SessionEvent) :
    (session.step limit own crypto event).whole = session.whole ∨
      (session.step limit own crypto event).whole =
        session.whole.step limit own crypto event := by
  have hwhole := h.whole
  obtain ⟨hasking, hconnected⟩ := h
  rw [hwhole]
  cases event with
  | choose choice surroundings => exact .inr (if_pos hasking)
  | wake => exact .inr (if_pos hasking)
  | act thread =>
    right
    simp only [Session.step]
    split <;> exact if_pos hasking
  | send thread ambient =>
    have hsame : ∀ data, session.link.send limit own thread data ambient = session.link :=
      fun data ↦ if_neg fun hfree ↦ by simp [hconnected] at hfree
    left
    simp only [Session.step, hsame]
    split <;> exact hwhole
  | receive thread outcome =>
    left
    have hnone : session.link.response own thread = none :=
      if_neg fun hread ↦ by simp [hconnected] at hread
    simp only [Session.step, hnone]
    exact hwhole
  | fail thread exception =>
    have hbroken : ∀ link : Link, link.asking = none → link.broken thread = link :=
      fun link hnone ↦ if_neg (by simp [hnone])
    have hfree := hbroken session.link hasking
    have hfreeWhole := hbroken { session.link with connected := true } hasking
    right
    simp only [Session.step, hfree, hfreeWhole]
    split <;> exact if_pos hasking
  | serve event =>
    right
    simp only [Session.step, Link.serve]
    cases event with
    | arrive connection request ambient =>
      dsimp only
      split_ifs <;> exact if_pos hasking
    | call connection fault => exact if_pos hasking

/-- A matched step is a step of `Session` on a connection that was not left in the middle of a
request, or none. An exchange that throws in the middle of its request has not been made. -/
theorem whole_wireStep (limit : Option ℕ) (own : ℕ) (crypto : Crypto) {event : WireEvent}
    (h : session.Matched event) :
    (session.wireStep limit own crypto event).whole = session.whole ∨
      ∃ happened, (session.wireStep limit own crypto event).whole =
          session.whole.step limit own crypto happened ∧
        (event = .session happened ∨ ∃ thread exception, happened = .fail thread exception) := by
  cases event with
  | session event =>
    by_cases htorn : session.Torn
    · rcases htorn.step limit own crypto event with hsame | hstep
      · exact .inl hsame
      · exact .inr ⟨event, hstep, .inl rfl⟩
    · refine .inr ⟨event, ?_, .inl rfl⟩
      rw [whole_of_not_torn htorn]
      exact whole_of_not_torn (not_torn_step htorn event)
  | tear thread exception =>
    simp only [wireStep]
    split
    · rename_i data hcall
      split_ifs with hfree
      · have hwhole : session.whole = session :=
          whole_of_not_torn fun htorn ↦ by simp [hfree.2, Torn] at htorn
        have hbroken : session.link.broken thread = session.link := if_neg (by simp [hfree.1])
        refine .inr ⟨.fail thread exception, ?_, .inr ⟨thread, exception, rfl⟩⟩
        simp only [hwhole, step, hcall, hbroken]
        refine (if_pos hfree.1).trans ?_
        rw [← hfree.2]
      · exact .inl rfl
    · exact .inl rfl
    · exact .inl rfl
  | stray request ambient => exact h.elim
  | misread thread outcome => exact h.elim

/-- What a step of `Session` keeps, a matched step keeps of the session as if no connection had been
left in the middle of a request. -/
theorem whole_keeps {P : Session → Prop} {event : WireEvent} (hmatched : session.Matched event)
    (h : P session.whole)
    (hstep : ∀ happened, (event = .session happened ∨
        ∃ thread exception, happened = .fail thread exception) →
      P (session.whole.step limit own crypto happened)) :
    P (session.wireStep limit own crypto event).whole := by
  rcases whole_wireStep limit own crypto hmatched with
    hsame | ⟨happened, hafter, hcause⟩
  · rw [hsame]
    exact h
  · rw [hafter]
    exact hstep happened hcause

/-- A guard on what is no exchange left in the middle. -/
def OnSession (guard : Session → SessionEvent → Prop) (session : Session) : WireEvent → Prop
  | .session event => guard session event
  | .tear .. | .stray .. | .misread .. => True

instance (guard : Session → SessionEvent → Prop) (session : Session)
    [DecidablePred (guard session)] : DecidablePred (OnSession guard session)
  | .session event => inferInstanceAs (Decidable (guard session event))
  | .tear .. | .stray .. | .misread .. => isTrue trivial

end Session

end MessageU.System
