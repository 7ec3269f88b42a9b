import MessageU.Client.Main
import MessageU.Library.EventRun
import MessageU.System.SharedConnection

/-!
# The two threads of a client

The main thread and the pull thread of a client as a `Team` over the state of the client. An event
is the beginning of a round, with what the user types and what is drawn at random in it, or the next
call of a thread. A call is one step, since the methods of the context hold a mutex, and so is an
exchange with the server, since `sendAndReceive` holds one from the request to its response. The
response of an exchange is part of the event, so that a run is any interleaving with any responses.

The main thread begins a round only when its last one has returned: an exception ends its loop. The
pull thread catches every exception of its round. When the user leaves the loop the threads begin no
more rounds.
-/

set_option autoImplicit false
set_option relaxedAutoImplicit false

namespace MessageU.System

open Library Client

/-! ### The state of the threads -/

/-- What the surroundings of the main thread hold ready for a round: the lines of the console, what
is drawn at random, and what happens when the file is opened and written. -/
structure Surroundings where
  console : List Bytes
  entropy : Entropy
  opens : Except CppError Bool
  writes : Bool

/-- The client in surroundings. -/
def Surroundings.apply (surroundings : Surroundings) (client : ClientState) : ClientState :=
  { client with
    console := surroundings.console
    entropy := surroundings.entropy
    disk := { client.disk with opens := surroundings.opens, writes := surroundings.writes } }

/-- What the threads share, with the request that each has exchanged in its round and its
response. -/
structure Shared where
  client : ClientState
  exchanged : Thread → Option (Bytes × Bytes)

/-- The threads of a client. -/
abbrev Threads := Team Thread LoopCalls CppError Unit Shared

/-- A client whose threads have not begun a round. Its cache has no entry yet. -/
def Threads.start (client : ClientState) : Threads where
  shared := ⟨{ client with ctx := { client.ctx with friends := ∅ } }, fun _ ↦ none⟩
  rest := fun _ ↦ .finished (.ok ())

/-- What a call of a thread does. `response` is what an exchange returns or throws. -/
def serve (crypto : Crypto) (thread : Thread) (response : Except CppError Bytes) (shared : Shared) :
    (call : LoopCall) → Shared × Except CppError call.Result
  | .method call =>
    ({ shared with client := (call.exec crypto shared.client).1 },
      (call.exec crypto shared.client).2)
  | .sendAndReceive data =>
    match response with
    | .ok buffer =>
      ({ shared with exchanged := Function.update shared.exchanged thread (some (data, buffer)) },
        .ok buffer)
    | .error exception => (shared, .error exception)

/-- What can happen. -/
inductive ThreadEvent
  /-- The user makes a choice of the menu. -/
  | choose (choice : ℕ) (surroundings : Surroundings)
  /-- The pull thread wakes up. -/
  | wake
  /-- A thread makes its next call. -/
  | act (thread : Thread) (response : Except CppError Bytes)

namespace Threads

/-- What the threads share when a round begins. -/
def prepared (threads : Threads) (thread : Thread) (client : ClientState) : Shared where
  client := client
  exchanged := Function.update threads.shared.exchanged thread none

theorem prepared_exchanged (threads : Threads) (thread : Thread) (client : ClientState) :
    (threads.prepared thread client).exchanged thread = none :=
  Function.update_self ..

/-- One event. -/
def step (crypto : Crypto) (threads : Threads) : ThreadEvent → Threads
  | .choose choice surroundings =>
    match threads.rest .main with
    | .finished (.ok _) =>
      threads.launch .main (threads.prepared .main (surroundings.apply threads.shared.client))
        (mainTurn (surroundings.console.length + 1) choice)
    | .finished (.error _) | .request _ _ => threads
  | .wake =>
    match threads.rest .pull with
    | .finished _ => threads.launch .pull (threads.prepared .pull threads.shared.client) pullTurn
    | .request _ _ => threads
  | .act thread response => threads.perform (serve crypto thread response) thread

/-- The call that a thread is about to make. -/
def nextCall (threads : Threads) (thread : Thread) : Option LoopCall :=
  firstCall (threads.rest thread)

/-- The context of the client. -/
abbrev ctx (threads : Threads) : ClientContext :=
  threads.shared.client.ctx

/-- A thread that is about to make a call. -/
theorem exists_of_nextCall {threads : Threads} {thread : Thread} {call : LoopCall}
    (h : threads.nextCall thread = some call) :
    ∃ resume, threads.rest thread = .request call resume := by
  unfold nextCall firstCall at h
  cases hrest : threads.rest thread with
  | finished outcome => simp [hrest] at h
  | request next resume =>
    rw [hrest] at h
    cases h
    exact ⟨resume, rfl⟩

/-- An event leaves the threads alone, begins a round, or makes a call. -/
theorem step_cases {motive : Threads → Prop} (crypto : Crypto) (threads : Threads)
    (event : ThreadEvent) (hsame : motive threads)
    (hchoose : ∀ choice surroundings, event = .choose choice surroundings →
      threads.rest .main = .finished (.ok ()) →
      motive (threads.launch .main (threads.prepared .main
        (surroundings.apply threads.shared.client))
        (mainTurn (surroundings.console.length + 1) choice)))
    (hwake : event = .wake → ∀ outcome, threads.rest .pull = .finished outcome →
      motive (threads.launch .pull (threads.prepared .pull threads.shared.client) pullTurn))
    (hact : ∀ thread response, event = .act thread response →
      motive (threads.perform (serve crypto thread response) thread)) :
    motive (threads.step crypto event) := by
  cases event with
  | choose choice surroundings =>
    simp only [step]
    cases hrest : threads.rest .main with
    | request call resume => exact hsame
    | finished outcome =>
      cases outcome with
      | ok value => exact hchoose choice surroundings rfl hrest
      | error exception => exact hsame
  | wake =>
    simp only [step]
    cases hrest : threads.rest .pull with
    | request call resume => exact hsame
    | finished outcome => exact hwake rfl outcome hrest
  | act thread response => exact hact thread response rfl

end Threads

/-! ### Guarantees of the functions of the client -/

section Functions

variable {σ α : Type} {setting : Setting LoopCalls CppError σ}

/-- The setting of a loop as the setting of the functions that it calls. -/
def methods (setting : Setting LoopCalls CppError σ) : Setting Calls CppError σ where
  rely := setting.rely
  allowed state call := setting.allowed state (.method call)
  step state call answer after := setting.step state (.method call) answer after

theorem tolerant_methods (h : setting.Tolerant) : (methods setting).Tolerant where
  refl := h.refl
  trans := h.trans

/-- What a function guarantees, it guarantees when a loop calls it. -/
theorem guarantees_here {post : Except CppError α → σ → Prop} {program : Program α} {state : σ}
    (h : program.Guarantees (methods setting) post state) :
    (here program).Guarantees setting post state := by
  induction program generalizing state with
  | finished outcome => exact h
  | request call resume ih =>
    intro seen hseen
    obtain ⟨hallowed, hresume⟩ := h seen hseen
    exact ⟨hallowed, fun answer after hstep ↦ ih answer (hresume answer after hstep)⟩

/-- In a setting a call does to the client what it does alone. `see` is the client in a state, and
`put` replaces it. -/
def Executes (crypto : Crypto) (setting : Setting LoopCalls CppError σ) (see : σ → ClientState)
    (put : σ → ClientState → σ) : Prop :=
  ∀ state (call : ClientCall) answer after, setting.step state (.method call) answer after →
    answer = (call.exec crypto (see state)).2 ∧ after = put state (call.exec crypto (see state)).1

/-- A call and what follows it, in the state that the call is made in. -/
theorem guarantees_method {crypto : Crypto} {see : σ → ClientState} {put : σ → ClientState → σ}
    (hexecutes : Executes crypto setting see put) {post : Except CppError α → σ → Prop} {state : σ}
    {call : ClientCall} {next : call.Result → Program α}
    (h : ∀ seen, setting.rely state seen → setting.allowed seen (.method call) ∧
      (Interaction.proceed next (call.exec crypto (see seen)).2).Guarantees (methods setting) post
        (put seen (call.exec crypto (see seen)).1)) :
    (ask call >>= next).Guarantees (methods setting) post state := by
  refine fun seen hseen ↦ ⟨(h seen hseen).1, fun answer after hstep ↦ ?_⟩
  obtain ⟨rfl, rfl⟩ := hexecutes seen call answer after hstep
  exact (h seen hseen).2

/-- A function that learns. Assumes: a setting that allows such calls. -/
theorem guarantees_learning (hlearns : ∀ state (call : ClientCall), call.Learns →
      setting.allowed state (.method call)) {program : Program α}
    (hprogram : program.Within ClientCall.Learns) (state : σ) :
    (here program).Guarantees setting (fun _ _ ↦ True) state := by
  let fact (_ : σ) : Prop := True
  have hfact : fact state := trivial
  exact guarantees_here (Interaction.guarantees_of_within (fun _ _ _ _ ↦ trivial)
    (fun call seen hkind _ ↦ hlearns seen call hkind) (fun _ _ _ _ _ _ _ ↦ trivial)
    (fun _ _ _ ↦ trivial) hprogram hfact)

/-- A round of the pull thread. Assumes: a setting that allows the calls that learn and a pull, and
in which the response to a pull grants no client ID. -/
theorem guarantees_pulling (hsetting : setting.Tolerant)
    (hlearns : ∀ state (call : ClientCall), call.Learns → setting.allowed state (.method call))
    (hpull : ∀ state id,
      let data := createBuffer id requestWaitingMessages []
      setting.allowed state (.sendAndReceive data) ∧ ∀ response after,
        setting.step state (.sendAndReceive data) (.ok response) after →
          codeOf response ≠ responseRegisterCode) (state : σ) :
    pullTurn.Guarantees setting (fun _ _ ↦ True) state := by
  have hcall : ∀ (call : ClientCall) (state : σ), call.Learns →
      (here (ask call)).Guarantees setting (fun _ _ ↦ True) state :=
    fun _ state h ↦ guarantees_learning hlearns (within_call h) state
  refine (hcall .hasClientID _ trivial).bind hsetting (fun _ _ _ _ _ ↦ trivial)
    fun registered after _ ↦ ?_
  split_ifs
  · exact fun _ _ ↦ trivial
  refine Interaction.Guarantees.attempt hsetting
    (show Interaction.Guarantees _ (fun _ _ ↦ True) _ after from ?_)
    fun outcome later _ ↦ ?_
  · refine (hcall .getClientID _ trivial).bind hsetting (fun _ _ _ _ _ ↦ trivial) fun id _ _ ↦ ?_
    refine fun seen _ ↦ ⟨(hpull seen id).1, fun answer final hexchanged ↦ ?_⟩
    cases answer with
    | error exception => exact fun _ _ ↦ trivial
    | ok response =>
      show (here (ask (.print _)) >>= fun _ ↦ here (responseClientMain response)).Guarantees _ _ _
      refine (hcall (.print _) _ trivial).bind hsetting (fun _ _ _ _ _ ↦ trivial) fun _ _ _ ↦ ?_
      exact guarantees_learning hlearns
        (within_responseClientMain ((hpull seen id).2 response final hexchanged)) _
  · cases outcome <;> exact fun _ _ ↦ trivial

/-- The code of a pull. -/
theorem codeOf_pull (id : ClientId) :
    Server.codeOf (createBuffer id requestWaitingMessages []) = requestWaitingMessages := by
  rw [createBuffer_eq, Server.codeOf_requestFrame id.property (by simp)]

end Functions

end MessageU.System
