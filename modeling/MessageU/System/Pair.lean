import MessageU.Client.Batches
import MessageU.Library.Replicas
import MessageU.System.Inbox
import MessageU.System.Threads

/-!
# Two clients at a running server

Two clients and the server, and whoever else is connected to it. Each of the two ends a round, with
the processing of its response, before it begins the next one, so that it is one thread: `Party` is
a client with what is left of its round. Nobody else sees what a client does between two exchanges,
so a party makes these calls at once (`advance`) and stops at its next exchange, whose request it
sends and whose response it receives. Meanwhile the other client and the server do anything.

A round of a party that stops at an exchange is at its request or behind it, and `Party.Stage` says
what it has done before: an action of the menu, or nothing, when it pulls. `step_cases` is all that
the invariants of two clients know about a step.

No exchange of the two throws in a `World`, and no connection breaks. In the code both can happen,
and the pull thread goes on behind an exchange that throws, although the messages of a response that
is not read are lost. What is said of two clients here is said of the runs without such exchanges.
-/

set_option autoImplicit false
set_option relaxedAutoImplicit false

namespace MessageU.System

open Library Client Interaction

/-! ### Up to the next exchange -/

/-- Make the calls of a part of a loop up to its next exchange. -/
def advance (crypto : Crypto) : Loop Unit → ClientState → ClientState × Loop Unit
  | .finished outcome, state => (state, .finished outcome)
  | .request (.method call) resume, state =>
    advance crypto (resume (call.exec crypto state).2) (call.exec crypto state).1
  | .request (.sendAndReceive data) resume, state => (state, .request (.sendAndReceive data) resume)

section Advance

variable {crypto : Crypto} {α : Type}

/-- A function of the client makes all its calls. -/
theorem advance_here_attempt (program : Program α) (next : Except CppError α → Loop Unit)
    (state : ClientState) :
    advance crypto ((here program).attempt next) state =
      advance crypto (next (program.exec crypto state).2) (program.exec crypto state).1 := by
  induction program generalizing state with
  | finished outcome => rfl
  | request call resume ih => exact ih (call.exec crypto state).2 (call.exec crypto state).1

theorem advance_here_bind (program : Program α) (next : α → Loop Unit) (state : ClientState) :
    advance crypto (here program >>= next) state =
      advance crypto (proceed next (program.exec crypto state).2) (program.exec crypto state).1 :=
  advance_here_attempt program (proceed next) state

theorem advance_here (program : Program Unit) (state : ClientState) :
    advance crypto (here program) state =
      ((program.exec crypto state).1, .finished (program.exec crypto state).2) := by
  induction program generalizing state with
  | finished outcome => rfl
  | request call resume ih => exact ih (call.exec crypto state).2 (call.exec crypto state).1

/-- What is left of a round of the main thread behind its action. -/
def behindAction : Except CppError Bytes → Loop Unit
  | .error exception => .finished (.error exception)
  | .ok data =>
    if data = [] then pure ()
    else do
      let buffer ← exchange data
      here (responseClientMain buffer)

/-- What is left of a round of the pull thread at its exchange. -/
def behindPull (request : Bytes) : Loop Unit :=
  Interaction.rescue (do
    let buffer ← exchange request
    here (ask (.print (.text "Pulling waiting messages automatically:\n")))
    here (responseClientMain buffer)) fun _ ↦ pure ()

/-- A round of the main thread makes its action. -/
theorem advance_mainTurn (rounds choice : ℕ) (state : ClientState) :
    advance crypto (mainTurn rounds choice) state =
      (((handleMenuChoice rounds choice).exec crypto state).1,
        behindAction ((handleMenuChoice rounds choice).exec crypto state).2) := by
  rw [mainTurn, advance_here_bind]
  cases ((handleMenuChoice rounds choice).exec crypto state).2 with
  | error exception => rfl
  | ok data =>
    rw [proceed_ok, behindAction]
    split_ifs <;> rfl

/-- A round of the pull thread looks whether the client is registered. -/
theorem advance_pullTurn {state : ClientState} (hregistered : state.ctx.hasClientID = true) :
    advance crypto pullTurn state = (state, behindPull (pullRequest state.ctx)) := by
  rw [pullTurn, advance_here_bind]
  change advance crypto (if !state.ctx.hasClientID then _ else _) state = _
  rw [hregistered]
  rfl

end Advance

/-! ### A party -/

/-- A round that has got its response. -/
structure Round where
  /-- The choice of the menu, or none for a round of the pull thread. -/
  choice : Option ℕ
  /-- The client when the round began. -/
  began : ClientState
  /-- The client when it read the response. -/
  before : ClientState
  response : Bytes
  after : ClientState

/-- The client when it begins to process a response. -/
def readingBy (choice : Option ℕ) (client : ClientState) : ClientState :=
  match choice with
  | some _ => client
  | none =>
    { client with output := client.output ++ [.text "Pulling waiting messages automatically:\n"] }

/-- The client when the round began to process its response. -/
def Round.reading (round : Round) : ClientState :=
  readingBy round.choice round.before

/-- A client that makes one round after the other. -/
structure Party where
  client : ClientState
  /-- What is left of the round, which begins with an exchange or is nothing. -/
  rest : Loop Unit
  /-- The choice of the round, if it is one of the main thread. -/
  choice : Option ℕ
  /-- The client when the round began. -/
  began : ClientState
  /-- The request of the exchange has been sent. -/
  asking : Bool
  /-- The rounds that have got their response. -/
  rounds : List Round

namespace Party

/-- A client that has not begun a round. -/
def idle (client : ClientState) : Party where
  client := client
  rest := .finished (.ok ())
  choice := none
  began := client
  asking := false
  rounds := []

/-- The round is over, and not with an exception. -/
def ready (party : Party) : Bool :=
  match party.rest with
  | .finished (.ok _) => true
  | .finished (.error _) | .request _ _ => false

/-- The request that the party is at. -/
def exchanging (party : Party) : Option Bytes :=
  match party.rest with
  | .request (.sendAndReceive data) _ => some data
  | .request (.method _) _ | .finished _ => none

variable (crypto : Crypto) (party : Party)

/-- Begin a round. -/
def launch (choice : Option ℕ) (client : ClientState) (program : Loop Unit) : Party :=
  { party with
    client := (advance crypto program client).1
    rest := (advance crypto program client).2
    choice := choice
    began := client
    asking := false }

/-- Go on with a response. -/
def receive (response : Bytes) : Party :=
  match party.rest with
  | .request (.sendAndReceive _) resume =>
    let result := advance crypto (resume (.ok response)) party.client
    { party with
      client := result.1
      rest := result.2
      asking := false
      rounds := party.rounds ++ [⟨party.choice, party.began, party.client, response, result.1⟩] }
  | .request (.method _) _ | .finished _ => party

/-- What a party has come to. -/
inductive Stage : Prop
  /-- The round is over. -/
  | closed (outcome : Except CppError Unit) (hrest : party.rest = .finished outcome)
    (hasking : party.asking = false)
  /-- The action has made a request. -/
  | main (choice : ℕ) (data : Bytes) (hnonempty : data ≠ [])
    (hrest : party.rest = behindAction (.ok data)) (hchoice : party.choice = some choice)
    (hacted : Acted crypto party.began choice party.client.ctx (.ok data))
  /-- The pull thread is at its request. -/
  | pull (hrest : party.rest = behindPull (pullRequest party.client.ctx))
    (hchoice : party.choice = none)

/-- The party when it has processed a response. -/
def answered (response : Bytes) (outcome : Except CppError Unit) : Party :=
  let after := ((responseClientMain response).exec crypto (readingBy party.choice party.client)).1
  { party with
    client := after
    rest := .finished outcome
    asking := false
    rounds := party.rounds ++ [⟨party.choice, party.began, party.client, response, after⟩] }

variable {crypto party}

theorem exchanging_behindAction {data : Bytes} (hnonempty : data ≠ [])
    (h : party.rest = behindAction (.ok data)) : party.exchanging = some data := by
  rw [exchanging, h, behindAction, if_neg hnonempty]
  rfl

theorem exchanging_behindPull {request : Bytes} (h : party.rest = behindPull request) :
    party.exchanging = some request := by
  rw [exchanging, h]
  rfl

/-- A party that is ready is not at an exchange. -/
theorem Stage.of_ready (h : party.Stage crypto) (hready : party.ready = true) :
    party.rest = .finished (.ok ()) ∧ party.asking = false := by
  have hrest : party.rest = .finished (.ok ()) := by
    rw [ready] at hready
    split at hready
    · assumption
    · cases hready
    · cases hready
  cases h with
  | closed outcome _ hasking => exact ⟨hrest, hasking⟩
  | main choice data hnonempty hmain =>
    rw [hrest, behindAction, if_neg hnonempty] at hmain
    cases hmain
  | pull hpull =>
    rw [hrest] at hpull
    cases hpull

/-- A party that sends its request is at it still. -/
theorem Stage.send (h : party.Stage crypto) (hexchanging : party.exchanging ≠ none) :
    Stage crypto { party with asking := true } := by
  cases h with
  | closed outcome hrest =>
    rw [exchanging, hrest] at hexchanging
    exact absurd rfl hexchanging
  | main choice data hnonempty hrest hchoice hacted =>
    exact .main choice data hnonempty hrest hchoice hacted
  | pull hrest hchoice => exact .pull hrest hchoice

/-- What follows the exchange of a pull ends the round, whatever the processing comes to. -/
theorem advance_behindPull (response : Bytes) (client : ClientState) :
    advance crypto (Interaction.rescue (do
        here (ask (.print (.text "Pulling waiting messages automatically:\n")))
        here (responseClientMain response)) fun _ ↦ pure ()) client =
      (((responseClientMain response).exec crypto (readingBy none client)).1,
        .finished (.ok ())) := by
  change advance crypto ((here (responseClientMain response)).attempt _) (readingBy none client) = _
  rw [advance_here_attempt]
  cases ((responseClientMain response).exec crypto (readingBy none client)).2 <;> rfl

theorem receive_eq {data response : Bytes} {resume : Except CppError Bytes → Loop Unit}
    {outcome : Except CppError Unit} (hrest : party.rest = .request (.sendAndReceive data) resume)
    (hadvance : advance crypto (resume (.ok response)) party.client =
      (((responseClientMain response).exec crypto (readingBy party.choice party.client)).1,
        .finished outcome)) :
    party.receive crypto response = party.answered crypto response outcome := by
  rw [receive, hrest]
  dsimp only
  rw [hadvance, answered]

/-- A party that gets its response processes it, and its round is over. -/
theorem Stage.receive (h : party.Stage crypto) (hexchanging : party.exchanging ≠ none)
    (response : Bytes) :
    ∃ outcome, party.receive crypto response = party.answered crypto response outcome := by
  cases h with
  | closed outcome hrest =>
    rw [exchanging, hrest] at hexchanging
    exact absurd rfl hexchanging
  | main choice data hnonempty hrest hchoice =>
    rw [behindAction, if_neg hnonempty] at hrest
    refine ⟨((responseClientMain response).exec crypto party.client).2, receive_eq hrest ?_⟩
    rw [hchoice]
    exact advance_here (responseClientMain response) party.client
  | pull hrest hchoice =>
    refine ⟨.ok (), receive_eq hrest ?_⟩
    rw [hchoice]
    exact advance_behindPull response party.client

end Party

/-! ### Two parties and the server -/

/-- Two clients with different IDs, each on a connection of its own. -/
structure Pair where
  own : Side → ℕ
  id : Side → ClientId
  privateKey : Side → Bytes
  own_injective : Function.Injective own
  id_injective : Function.Injective id

/-- The two clients and the server, as long as no exchange of the two throws. -/
structure World (Rest : Type) where
  server : Server.ServerState Rest
  party : Side → Party

/-- What can happen. An exchange that throws, which the code has as well, is not among it. -/
inductive WorldEvent
  /-- The user of a client makes a choice of the menu. -/
  | choose (side : Side) (choice : ℕ) (surroundings : Surroundings)
  /-- The pull thread of a client wakes up. -/
  | wake (side : Side)
  /-- A client sends the request of its exchange. -/
  | send (side : Side) (ambient : Server.Ambient)
  /-- A client reads the response of its exchange. -/
  | receive (side : Side)
  /-- Something happens at the server. -/
  | serve (event : Server.Event)

namespace World

variable {Rest : Type}

/-- A party goes on. -/
def put (world : World Rest) (side : Side) (party : Party) : World Rest :=
  { world with party := Function.update world.party side party }

/-- The response that a party can read. -/
def response (world : World Rest) (pair : Pair) (side : Side) : Option Bytes :=
  if (world.party side).asking then
    match world.server.connections (pair.own side) with
    | .returned _ response => some response
    | .idle | .busy _ _ | .stopped => none
  else none

/-- One event. `serve` is what an event of the server does. Requests come to the connections of the
two clients from the clients alone. -/
def step (serve : Server.ServerState Rest → Server.Event → Server.ServerState Rest) (pair : Pair)
    (crypto : Crypto) (world : World Rest) : WorldEvent → World Rest
  | .choose side choice surroundings =>
    if (world.party side).ready then
      world.put side ((world.party side).launch crypto (some choice)
        (surroundings.apply (world.party side).client)
        (mainTurn (surroundings.console.length + 1) choice))
    else world
  | .wake side =>
    if (world.party side).ready then
      world.put side ((world.party side).launch crypto none (world.party side).client pullTurn)
    else world
  | .send side ambient =>
    match (world.party side).exchanging, (world.party side).asking with
    | some data, false =>
      { world.put side { world.party side with asking := true } with
        server := serve world.server (.arrive (pair.own side) data ambient) }
    | some _, true | none, _ => world
  | .receive side =>
    match world.response pair side with
    | some response => world.put side ((world.party side).receive crypto response)
    | none => world
  | .serve event =>
    match event with
    | .arrive connection _ _ =>
      if connection = pair.own .first ∨ connection = pair.own .second then world
      else { world with server := serve world.server event }
    | .call _ _ => { world with server := serve world.server event }

/-- The world with the stages of the server replaced by the remaining programs. -/
def unstage (world : World Server.Staged) : World Server.Handler where
  server := world.server.unstage
  party := world.party

theorem response_unstage (world : World Server.Staged) (pair : Pair) (side : Side) :
    world.unstage.response pair side = world.response pair side := by
  have hconnection : world.unstage.server.connections (pair.own side) =
      (world.server.connections (pair.own side)).unstage := rfl
  have hasking : (world.unstage.party side).asking = (world.party side).asking := rfl
  rw [response, response, hconnection, hasking]
  cases world.server.connections (pair.own side) <;> rfl

/-- Every event does to the programs of the server what it does to its stages. -/
theorem step_unstage (limit : Option ℕ) (pair : Pair) (crypto : Crypto)
    (world : World Server.Staged) (event : WorldEvent) :
    world.unstage.step (Server.ServerState.step limit) pair crypto event =
      (world.step (Server.ServerState.stagedStep limit) pair crypto event).unstage := by
  have hserve : ∀ happening, Server.ServerState.step limit world.unstage.server happening =
      (world.server.stagedStep limit happening).unstage :=
    Server.ServerState.step_unstage limit world.server
  cases event with
  | choose side choice surroundings =>
    simp only [step]
    change (if (world.party side).ready then _ else _) = _
    split_ifs <;> rfl
  | wake side =>
    simp only [step]
    change (if (world.party side).ready then _ else _) = _
    split_ifs <;> rfl
  | send side ambient =>
    simp only [step, hserve]
    change (match (world.party side).exchanging, (world.party side).asking with
      | some data, false => _
      | some _, true | none, _ => _) = _
    cases (world.party side).exchanging with
    | none => rfl
    | some data => cases (world.party side).asking <;> rfl
  | receive side =>
    simp only [step, response_unstage]
    cases world.response pair side <;> rfl
  | serve happening =>
    simp only [step]
    cases happening with
    | arrive connection request ambient =>
      dsimp only
      split_ifs
      · rfl
      · rw [hserve]
        rfl
    | call connection fault =>
      dsimp only
      rw [hserve]
      rfl

end World

end MessageU.System
