import MessageU.Client.Menu
import MessageU.Library.Progress
import MessageU.System.Threads

/-!
# The life of the client process

`main` and `pullWaitingMessagesLoop` around the rounds of their loops. `main` owns the context, the
connection and the flag `stopFlag`, and hands references to the pull thread. It leaves its loop when
the user chooses to exit or an action has thrown, raises the flag, waits for the pull thread and
returns. The pull thread looks at the flag in front of every second of its pause and behind the
pause, but not during a round.

The threads of a `Process` are `Threads`, so that what holds of every run of these holds of them
(`exists_threadEvents`). In every run `main` returns only when nothing of the pull thread is left
(`main_outlives_threads`); once the flag is raised there is at most one exchange more, and `main`
comes to its end as long as the threads go on and the exchange is answered (`exit_completes`). The
pull thread sleeps for a minute before each of its exchanges (`pulls_spaced`).
-/

set_option autoImplicit false
set_option relaxedAutoImplicit false

namespace MessageU.System

open Library Client Interaction

/-! ### The state of the process -/

/-- Where `main` is. -/
inductive MainPoint
  /-- In its loop: in front of the menu if its thread has nothing left to do, else in an action. -/
  | loop
  /-- In `pullThread.join()`, with what has ended the loop. -/
  | joining (outcome : Except CppError Unit)
  /-- Behind its return. An exception has been reported as a fatal error. -/
  | returned (outcome : Except CppError Unit)
  /-- In `std::terminate`: an exception has left the function of the pull thread. -/
  | terminated
  deriving DecidableEq

/-- Where `pullWaitingMessagesLoop` is. -/
inductive PullPoint
  /-- In front of the condition of the outer loop. -/
  | head
  /-- In the pause, in front of the look at the flag that comes after so many seconds. -/
  | pausing (seconds : ℕ)
  /-- In a round. -/
  | turn
  /-- Behind its return. -/
  | ended
  deriving DecidableEq

/-- The seconds of a pause. -/
@[simp] abbrev pauseSeconds : ℕ := 60

/-- The process of a client. -/
structure Process where
  threads : Threads
  main : MainPoint
  pull : PullPoint
  stopFlag : Bool
  /-- What `main` prints itself. -/
  printed : List Output

/-- What can happen. -/
inductive ProcessEvent
  /-- The user answers the menu. -/
  | input (surroundings : Surroundings)
  /-- A thread makes its next call. -/
  | act (thread : Thread) (response : Except CppError Bytes)
  /-- `main` goes on behind an action that has thrown, or from the join. -/
  | main
  /-- The pull thread looks at the flag and goes on, or comes back from a round. -/
  | pull

/-- The exit status. -/
def exitStatus : Except CppError Unit → ℕ
  | .ok _ => 0
  | .error _ => 1

/-- What is printed on an exit. -/
def exiting : Output :=
  .text "Exiting client...\n"

namespace Process

/-- The process when its two threads run. -/
def start (client : ClientState) : Process where
  threads := .start client
  main := .loop
  pull := .head
  stopFlag := false
  printed := []

/-! ### Its steps -/

/-- The menu reads the lines of the console up to a choice. Without one it goes on asking. -/
def answerMenu (crypto : Crypto) (process : Process) (surroundings : Surroundings) : Process :=
  match process.main, process.threads.rest .main with
  | .loop, .finished (.ok _) =>
    let asked : ClientState := { surroundings.apply process.threads.shared.client with
      output := [] }
    let answered := (clientMenuMain (surroundings.console.length + 1)).exec crypto asked
    match answered.2 with
    | .error _ => process
    | .ok choice =>
      if choice = exitChoice then
        { process with
          main := .joining (.ok ())
          stopFlag := true
          printed := process.printed ++ answered.1.output ++ [exiting] }
      else
        { process with
          threads := process.threads.step crypto
            (.choose choice { surroundings with console := answered.1.console })
          printed := process.printed ++ answered.1.output }
  | _, _ => process

/-- `main` catches what an action has thrown, and returns from the join when the pull thread has
ended. A loop on the console that goes on asking does not throw. -/
def mainGoesOn (process : Process) : Process :=
  match process.main with
  | .loop =>
    match process.threads.rest .main with
    | .finished (.error .outOfFuel) | .finished (.ok _) | .request _ _ => process
    | .finished (.error exception) =>
      { process with main := .joining (.error exception), stopFlag := true }
  | .joining outcome =>
    if process.pull = .ended then { process with main := .returned outcome } else process
  | .returned _ | .terminated => process

/-- The pull thread up to its next look at the flag, its next round or its end. -/
def pullGoesOn (crypto : Crypto) (process : Process) : Process :=
  match process.pull with
  | .head => { process with pull := if process.stopFlag then .ended else .pausing 0 }
  | .pausing seconds =>
    if process.stopFlag then { process with pull := .ended }
    else if seconds < pauseSeconds then { process with pull := .pausing (seconds + 1) }
    else { process with threads := process.threads.step crypto .wake, pull := .turn }
  | .turn =>
    match process.threads.rest .pull with
    | .request _ _ => process
    | .finished (.ok _) => { process with pull := .head }
    | .finished (.error _) => { process with main := .terminated }
  | .ended => process

/-- One event. -/
def step (crypto : Crypto) (process : Process) : ProcessEvent → Process
  | .input surroundings => process.answerMenu crypto surroundings
  | .act thread response =>
    { process with threads := process.threads.step crypto (.act thread response) }
  | .main => process.mainGoesOn
  | .pull => process.pullGoesOn crypto

variable {process : Process}

theorem answerMenu_cases {motive : Process → Prop} (crypto : Crypto) (process : Process)
    (surroundings : Surroundings) (hsame : motive process)
    (hexit : ∀ printed, process.main = .loop → process.threads.rest .main = .finished (.ok ()) →
      motive { process with
        main := .joining (.ok ()), stopFlag := true, printed := printed ++ [exiting] })
    (hchoose : ∀ choice surroundings printed, process.main = .loop →
      motive { process with
        threads := process.threads.step crypto (.choose choice surroundings),
        printed := printed }) :
    motive (process.answerMenu crypto surroundings) := by
  unfold answerMenu
  split
  · rename_i hmain hrest
    dsimp only
    split
    · exact hsame
    · split_ifs
      · exact hexit _ hmain hrest
      · exact hchoose _ _ _ hmain
  · exact hsame

theorem mainGoesOn_cases {motive : Process → Prop} (process : Process) (hsame : motive process)
    (hcaught : ∀ exception, process.main = .loop →
      process.threads.rest .main = .finished (.error exception) →
        motive { process with main := .joining (.error exception), stopFlag := true })
    (hjoined : ∀ outcome, process.main = .joining outcome → process.pull = .ended →
      motive { process with main := .returned outcome }) :
    motive process.mainGoesOn := by
  unfold mainGoesOn
  split
  · rename_i hmain
    split
    · exact hsame
    · exact hsame
    · exact hsame
    · rename_i exception _ hrest
      exact hcaught exception hmain hrest
  · rename_i outcome hmain
    split_ifs with hended
    · exact hjoined outcome hmain hended
    · exact hsame
  · exact hsame
  · exact hsame

theorem pullGoesOn_cases {motive : Process → Prop} (crypto : Crypto) (process : Process)
    (hsame : motive process)
    (hstop : process.pull ≠ .turn → process.stopFlag = true →
      motive { process with pull := .ended })
    (hpause : process.pull = .head → process.stopFlag = false →
      motive { process with pull := .pausing 0 })
    (hsleep : ∀ seconds, process.pull = .pausing seconds → process.stopFlag = false →
      seconds < pauseSeconds → motive { process with pull := .pausing (seconds + 1) })
    (hwake : ∀ seconds, process.pull = .pausing seconds → process.stopFlag = false →
      pauseSeconds ≤ seconds →
        motive { process with threads := process.threads.step crypto .wake, pull := .turn })
    (hback : process.pull = .turn → process.threads.rest .pull = .finished (.ok ()) →
      motive { process with pull := .head })
    (hthrown : ∀ exception, process.pull = .turn →
      process.threads.rest .pull = .finished (.error exception) →
        motive { process with main := .terminated }) :
    motive (process.pullGoesOn crypto) := by
  unfold pullGoesOn
  split
  · rename_i hpull
    split_ifs with hstopped
    · exact hstop (by rw [hpull]; simp) hstopped
    · exact hpause hpull (by simpa using hstopped)
  · rename_i seconds hpull
    split_ifs with hstopped hseconds
    · exact hstop (by rw [hpull]; simp) hstopped
    · exact hsleep seconds hpull (by simpa using hstopped) hseconds
    · exact hwake seconds hpull (by simpa using hstopped) (Nat.le_of_not_lt hseconds)
  · rename_i hpull
    split
    · exact hsame
    · rename_i hrest
      exact hback hpull hrest
    · rename_i exception hrest
      exact hthrown exception hpull hrest
  · exact hsame

/-- The threads of a process run as `Threads` do. -/
theorem exists_threadEvents (crypto : Crypto) (process : Process) (events : List ProcessEvent) :
    ∃ happened, (runEvents (step crypto) process events).threads =
      runEvents (Threads.step crypto) process.threads happened := by
  induction events generalizing process with
  | nil => exact ⟨[], rfl⟩
  | cons event rest ih =>
    have hstep : ∃ happened, (process.step crypto event).threads =
        runEvents (Threads.step crypto) process.threads happened := by
      cases event with
      | input surroundings =>
        exact answerMenu_cases (motive := fun after ↦ ∃ happened, after.threads =
          runEvents (Threads.step crypto) process.threads happened) crypto process surroundings
          ⟨[], rfl⟩ (fun _ _ _ ↦ ⟨[], rfl⟩) fun choice surroundings _ _ ↦
            ⟨[.choose choice surroundings], rfl⟩
      | act thread response => exact ⟨[.act thread response], rfl⟩
      | main =>
        exact mainGoesOn_cases (motive := fun after ↦ ∃ happened, after.threads =
          runEvents (Threads.step crypto) process.threads happened) process ⟨[], rfl⟩
          (fun _ _ _ ↦ ⟨[], rfl⟩) fun _ _ _ ↦ ⟨[], rfl⟩
      | pull =>
        exact pullGoesOn_cases (motive := fun after ↦ ∃ happened, after.threads =
          runEvents (Threads.step crypto) process.threads happened) crypto process ⟨[], rfl⟩
          (fun _ _ ↦ ⟨[], rfl⟩) (fun _ _ ↦ ⟨[], rfl⟩) (fun _ _ _ _ ↦ ⟨[], rfl⟩)
          (fun _ _ _ _ ↦ ⟨[.wake], rfl⟩) (fun _ _ ↦ ⟨[], rfl⟩) fun _ _ _ ↦ ⟨[], rfl⟩
    obtain ⟨first, hfirst⟩ := hstep
    obtain ⟨later, hlater⟩ := ih (process.step crypto event)
    exact ⟨first ++ later, by rw [runEvents_cons, hlater, hfirst, runEvents_append]⟩

end Process

/-! ### The programs of the threads -/

/-- The calls that are exchanges with the server. -/
def isExchange : LoopCall → Bool
  | .sendAndReceive _ => true
  | .method _ => false

/-- Whether the client has an ID is always answered. -/
def Knows (_ : Unit) : (call : LoopCall) → Except CppError call.Result → Unit → Prop
  | .method .hasClientID, answer, _ => ∃ registered, answer = .ok registered
  | .method _, _, _ | .sendAndReceive _, _, _ => True

/-- Every exception of a round of the pull thread is caught. -/
def Caught (program : Loop Unit) : Prop :=
  program.Ensures Knows (fun outcome _ ↦ outcome = .ok ()) ()

theorem caught_pullTurn : Caught pullTurn := by
  rintro answer ⟨⟩ ⟨registered, rfl⟩
  show Caught (if !registered then pure () else _)
  split_ifs
  · rfl
  · refine Ensures.attempt (ensures_true _ ()) fun outcome after _ ↦ ?_
    cases outcome <;> rfl

/-- A function of the client makes no exchange of its own. -/
theorem atMost_here {α : Type} (program : Program α) : (here program).AtMost isExchange 0 := by
  refine Within.atMost ?_
  induction program with
  | finished outcome => trivial
  | request call resume ih => exact ⟨rfl, ih⟩

theorem atMost_pullTurn : pullTurn.AtMost isExchange 1 := by
  refine (atMost_here (ask .hasClientID)).bind 0 1 fun registered ↦ ?_
  split_ifs
  · trivial
  refine AtMost.attempt 1 0 ?_ fun outcome ↦ ?_
  · refine (atMost_here (ask .getClientID)).bind 0 1 fun id ↦ ?_
    refine ⟨le_rfl, fun answer ↦ ?_⟩
    cases answer with
    | error exception => trivial
    | ok buffer =>
      exact (atMost_here (ask (.print _))).bind 0 0 fun _ ↦ atMost_here (responseClientMain buffer)
  · cases outcome <;> trivial

namespace Threads

variable {threads : Threads}

/-- A call moves the thread that makes it, and no other. -/
theorem rest_act (crypto : Crypto) (threads : Threads) (thread : Thread)
    (response : Except CppError Bytes) (other : Thread) :
    (threads.step crypto (.act thread response)).rest other = threads.rest other ∧
        (other = thread → threads.nextCall thread = none) ∨
      other = thread ∧ ∃ call resume answer, threads.rest thread = .request call resume ∧
        Knows () call answer () ∧
          (threads.step crypto (.act thread response)).rest thread = resume answer := by
  by_cases hother : other = thread
  · cases hrest : threads.rest thread with
    | finished outcome =>
      exact .inl ⟨by rw [step, Team.perform_of_finished _ hrest], fun _ ↦ by
        rw [nextCall, hrest, firstCall]⟩
    | request call resume =>
      refine .inr ⟨hother, call, resume, (serve crypto thread response threads.shared call).2,
        rfl, ?_,
        by rw [step, Team.perform_of_request _ hrest, Team.launch_rest_self]⟩
      cases call with
      | sendAndReceive data => trivial
      | method call => cases call <;> first | trivial | exact ⟨_, rfl⟩
  · refine .inl ⟨?_, fun h ↦ absurd h hother⟩
    cases hrest : threads.rest thread with
    | finished outcome => rw [step, Team.perform_of_finished _ hrest]
    | request call resume =>
      rw [step, Team.perform_of_request _ hrest, Team.launch_rest_of_ne hother]

/-- A call answers the operation of its thread. -/
theorem rest_act_self (crypto : Crypto) {thread : Thread} (response : Except CppError Bytes)
    {call : LoopCall} {resume : Except CppError call.Result → Loop Unit}
    (hrest : threads.rest thread = .request call resume) :
    ∃ answer, (threads.step crypto (.act thread response)).rest thread = resume answer :=
  ⟨_, by rw [step, Team.perform_of_request _ hrest, Team.launch_rest_self]⟩

/-- A choice leaves the pull thread alone. -/
theorem rest_choose (crypto : Crypto) (threads : Threads) (choice : ℕ)
    (surroundings : Surroundings) :
    (threads.step crypto (.choose choice surroundings)).rest .pull = threads.rest .pull := by
  rw [step]
  split
  · exact Team.launch_rest_of_ne (by simp) ..
  · rfl
  · rfl

/-- A pull thread with nothing left to do begins a round, and leaves the main thread alone. -/
theorem rest_wake (crypto : Crypto) {outcome : Except CppError Unit}
    (hrest : threads.rest .pull = .finished outcome) :
    (threads.step crypto .wake).rest .pull = pullTurn ∧
      (threads.step crypto .wake).rest .main = threads.rest .main := by
  rw [step, hrest]
  exact ⟨Team.launch_rest_self .., Team.launch_rest_of_ne (by simp) ..⟩

end Threads

/-! ### What holds in every run -/

namespace Process

/-- What holds of a process that has been started. -/
structure Sound (process : Process) : Prop where
  alive : process.main ≠ .terminated
  stopped : process.stopFlag = true ↔ process.main ≠ .loop
  left : ∀ outcome, process.main = .joining outcome ∨ process.main = .returned outcome →
    process.threads.rest .main = .finished outcome ∧
      (outcome = .ok () → process.printed.getLast? = some exiting)
  joined : ∀ outcome, process.main = .returned outcome → process.pull = .ended
  resting : process.pull ≠ .turn → ∃ outcome, process.threads.rest .pull = .finished outcome
  caught : Caught (process.threads.rest .pull)
  single : (process.threads.rest .pull).AtMost isExchange 1

theorem sound_start (client : ClientState) : (start client).Sound where
  alive := by simp [start]
  stopped := by simp [start]
  left := fun outcome h ↦ by simp [start] at h
  joined := fun outcome h ↦ by cases h
  resting := fun _ ↦ ⟨_, rfl⟩
  caught := rfl
  single := trivial

variable {process : Process} {crypto : Crypto}

theorem Sound.loop_of_not_stopped (h : process.Sound) (hflag : process.stopFlag = false) :
    process.main = .loop := by
  by_contra hmain
  rw [h.stopped.mpr hmain] at hflag
  cases hflag

theorem Sound.act (h : process.Sound) (crypto : Crypto) (thread : Thread)
    (response : Except CppError Bytes) :
    Sound { process with threads := process.threads.step crypto (.act thread response) } := by
  have hsame : ∀ other outcome, process.threads.rest other = .finished outcome →
      (process.threads.step crypto (.act thread response)).rest other = .finished outcome := by
    intro other outcome hrest
    rcases Threads.rest_act crypto process.threads thread response other with
      ⟨heq, -⟩ | ⟨rfl, call, resume, answer, hrequest, -⟩
    · rw [heq, hrest]
    · rw [hrest] at hrequest
      cases hrequest
  refine ⟨h.alive, h.stopped, fun outcome hmain ↦ ?_, h.joined, fun hpull ↦ ?_, ?_, ?_⟩
  · exact (h.left outcome hmain).imp_left (hsame .main outcome)
  · exact (h.resting hpull).imp fun outcome ↦ hsame .pull outcome
  · show Caught ((process.threads.step crypto (.act thread response)).rest .pull)
    rcases Threads.rest_act crypto process.threads thread response .pull with
      ⟨heq, -⟩ | ⟨rfl, call, resume, answer, hrequest, hknows, hresumed⟩
    · rw [heq]
      exact h.caught
    · have hcaught := h.caught
      rw [hrequest] at hcaught
      rw [hresumed]
      exact hcaught answer () hknows
  · show ((process.threads.step crypto (.act thread response)).rest .pull).AtMost isExchange 1
    rcases Threads.rest_act crypto process.threads thread response .pull with
      ⟨heq, -⟩ | ⟨rfl, call, resume, answer, hrequest, -, hresumed⟩
    · rw [heq]
      exact h.single
    · have hsingle := h.single
      rw [hrequest] at hsingle
      rw [hresumed]
      exact (hsingle.2 answer).mono (Nat.sub_le ..)

theorem Sound.step (h : process.Sound) (crypto : Crypto) (event : ProcessEvent) :
    (process.step crypto event).Sound := by
  cases event with
  | input surroundings =>
    refine answerMenu_cases crypto process surroundings h (fun printed hmain hrest ↦ ?_)
      fun choice surroundings printed hmain ↦ ?_
    · refine ⟨by simp, by simp, fun outcome hjoining ↦ ?_,
        fun outcome hreturned ↦ (by cases hreturned),
        h.resting, h.caught, h.single⟩
      obtain rfl : Except.ok () = outcome := by simpa using hjoining
      exact ⟨hrest, fun _ ↦ List.getLast?_concat⟩
    · have hpull := Threads.rest_choose crypto process.threads choice surroundings
      refine ⟨h.alive, h.stopped, fun outcome hleft ↦ ?_, h.joined, fun hturn ↦ ?_, ?_, ?_⟩
      · rw [hmain] at hleft
        simp at hleft
      · rw [hpull]
        exact h.resting hturn
      · rw [hpull]
        exact h.caught
      · rw [hpull]
        exact h.single
  | act thread response => exact h.act crypto thread response
  | main =>
    refine mainGoesOn_cases process h (fun exception hmain hrest ↦ ?_) fun outcome hmain hended ↦ ?_
    · refine ⟨by simp, by simp, fun outcome hjoining ↦ ?_,
        fun outcome hreturned ↦ (by cases hreturned),
        h.resting, h.caught, h.single⟩
      obtain rfl : Except.error exception = outcome := by simpa using hjoining
      exact ⟨hrest, fun hok ↦ by cases hok⟩
    · refine ⟨by simp, ?_, fun other hreturned ↦ ?_, fun _ _ ↦ hended, h.resting, h.caught,
        h.single⟩
      · simp [h.stopped, hmain]
      · obtain rfl : outcome = other := by simpa using hreturned
        exact h.left outcome (.inl hmain)
  | pull =>
    refine pullGoesOn_cases crypto process h (fun hturn _ ↦ ?_) (fun hhead hflag ↦ ?_)
      (fun seconds hpausing hflag _ ↦ ?_) (fun seconds hpausing hflag _ ↦ ?_) (fun hturn hrest ↦ ?_)
      fun exception hturn hrest ↦ ?_
    · exact ⟨h.alive, h.stopped, h.left, fun _ _ ↦ rfl, fun _ ↦ h.resting hturn, h.caught, h.single⟩
    · refine ⟨h.alive, h.stopped, h.left, fun outcome hreturned ↦ ?_,
        fun _ ↦ h.resting (by rw [hhead]; simp), h.caught, h.single⟩
      rw [h.loop_of_not_stopped hflag] at hreturned
      cases hreturned
    · refine ⟨h.alive, h.stopped, h.left, fun outcome hreturned ↦ ?_,
        fun _ ↦ h.resting (by rw [hpausing]; simp), h.caught, h.single⟩
      rw [h.loop_of_not_stopped hflag] at hreturned
      cases hreturned
    · have hmain := h.loop_of_not_stopped hflag
      obtain ⟨outcome, hrest⟩ := h.resting (by rw [hpausing]; simp)
      obtain ⟨hpull, -⟩ := Threads.rest_wake crypto hrest
      refine ⟨h.alive, h.stopped, fun outcome hleft ↦ ?_, fun outcome hreturned ↦ ?_,
        fun hturn ↦ absurd rfl hturn, ?_, ?_⟩
      · rw [hmain] at hleft
        simp at hleft
      · rw [hmain] at hreturned
        cases hreturned
      · rw [hpull]
        exact caught_pullTurn
      · rw [hpull]
        exact atMost_pullTurn
    · refine ⟨h.alive, h.stopped, h.left, fun outcome hreturned ↦ ?_, fun _ ↦ ⟨_, hrest⟩, h.caught,
        h.single⟩
      rw [h.joined outcome hreturned] at hturn
      cases hturn
    · have hcaught := h.caught
      rw [hrest] at hcaught
      cases hcaught

theorem sound_runEvents (crypto : Crypto) (client : ClientState) (events : List ProcessEvent) :
    (runEvents (Process.step crypto) (start client) events).Sound :=
  runEvents_invariant (fun _ event h ↦ h.step crypto event) (sound_start client) events

/-- A process whose `main` has returned does nothing any more. -/
theorem Sound.step_of_returned (h : process.Sound) {outcome : Except CppError Unit}
    (hreturned : process.main = .returned outcome) (event : ProcessEvent) :
    process.step crypto event = process := by
  have hended := h.joined outcome hreturned
  cases event with
  | input surroundings => simp [Process.step, answerMenu, hreturned]
  | main => simp [Process.step, mainGoesOn, hreturned]
  | pull => simp [Process.step, pullGoesOn, hended]
  | act thread response =>
    have hrest : ∃ last, process.threads.rest thread = .finished last := by
      cases thread with
      | main => exact ⟨outcome, (h.left outcome (.inr hreturned)).1⟩
      | pull => exact h.resting (by rw [hended]; simp)
    obtain ⟨last, hrest⟩ := hrest
    rw [Process.step, Threads.step, Team.perform_of_finished _ hrest]

/-- In every run, whatever the user types and the server answers: no exception leaves the pull
thread, the flag is raised when `main` leaves its loop and only then, and `main` returns what its
last action has thrown, or nothing after an exit of the user, when the pull thread has ended; from
then on nobody uses the context and the connection. -/
theorem main_outlives_threads (crypto : Crypto) (client : ClientState)
    (events : List ProcessEvent) :
    let process := runEvents (step crypto) (start client) events
    process.main ≠ .terminated ∧ (process.stopFlag = true ↔ process.main ≠ .loop) ∧
      ∀ outcome, process.main = .returned outcome →
        process.pull = .ended ∧ process.threads.rest .main = .finished outcome ∧
          (exitStatus outcome = 0 → process.printed.getLast? = some exiting) ∧
          (∀ thread, process.threads.nextCall thread = none) ∧
            ∀ more, runEvents (step crypto) process more = process := by
  intro process
  have h : process.Sound := sound_runEvents crypto client events
  refine ⟨h.alive, h.stopped, fun outcome hreturned ↦ ?_⟩
  obtain ⟨hrest, hexit⟩ := h.left outcome (.inr hreturned)
  have hended := h.joined outcome hreturned
  refine ⟨hended, hrest, fun hstatus ↦ hexit ?_, fun thread ↦ ?_, fun more ↦ ?_⟩
  · cases outcome with
    | ok value => rfl
    | error exception => cases hstatus
  · cases thread with
    | main => rw [Threads.nextCall, hrest, firstCall]
    | pull =>
      obtain ⟨last, hlast⟩ := h.resting (by rw [hended]; simp)
      rw [Threads.nextCall, hlast, firstCall]
  · exact runEvents_invariant (P := (· = process))
      (fun state event hstate ↦ by rw [hstate, h.step_of_returned hreturned]) rfl more

/-- The user chooses to exit at once. -/
def exitAtOnce : List ProcessEvent :=
  [.input ⟨[[48]], ⟨.zero symmetricKeySize, 0⟩, .ok true, true⟩, .pull, .main]

/-- `main` has returned, and nothing is left to do. -/
theorem main_outlives_threads_exit :
    let process := runEvents (step .tagged) (start freshClient) exitAtOnce
    process.pull = .ended ∧ (∀ thread, process.threads.nextCall thread = none) ∧
      ∀ more, runEvents (step .tagged) process more = process := by
  intro process
  obtain ⟨hended, -, -, hnone, hstays⟩ :=
    (main_outlives_threads .tagged freshClient exitAtOnce).2.2 (.ok ()) (by decide +kernel)
  exact ⟨hended, hnone, hstays⟩

/-! ### The exchanges -/

/-- Whether an event is an exchange of a thread. -/
def exchangedBy (thread : Thread) (process : Process) : ProcessEvent → ℕ
  | .act other _ =>
      if other = thread ∧ (process.threads.nextCall thread).any isExchange then 1 else 0
  | .input _ | .main | .pull => 0

/-- Whether it is an exchange of either. -/
def exchanges (process : Process) (event : ProcessEvent) : ℕ :=
  exchangedBy .main process event + exchangedBy .pull process event

/-- A thread with nothing left to do makes no exchange. -/
theorem exchangedBy_of_finished {thread : Thread} {outcome : Except CppError Unit}
    (hrest : process.threads.rest thread = .finished outcome) (event : ProcessEvent) :
    exchangedBy thread process event = 0 := by
  cases event with
  | act other response => simp [exchangedBy, Threads.nextCall, hrest, firstCall]
  | input surroundings => rfl
  | main => rfl
  | pull => rfl

/-- Whether an event is a second of the pause. -/
def slept (process : Process) : ProcessEvent → ℕ
  | .pull =>
    match process.pull with
    | .pausing seconds => if !process.stopFlag && seconds < pauseSeconds then 1 else 0
    | .head | .turn | .ended => 0
  | .input _ | .main | .act _ _ => 0

/-- The operations that the pull thread can still make pay for its next one. -/
theorem pays (crypto : Crypto) {event : ProcessEvent} {most : ℕ}
    (hwake : event = .pull → process.stopFlag = true ∨ process.pull = .turn)
    (hmost : (process.threads.rest .pull).AtMost isExchange most) :
    exchangedBy .pull process event ≤ most ∧
      ((process.step crypto event).threads.rest .pull).AtMost isExchange
        (most - exchangedBy .pull process event) := by
  cases event with
  | input surroundings =>
    refine answerMenu_cases (motive := fun after ↦
      0 ≤ most ∧ (after.threads.rest .pull).AtMost isExchange most)
      crypto process surroundings ⟨Nat.zero_le _, hmost⟩ (fun _ _ _ ↦ ⟨Nat.zero_le _, hmost⟩)
      fun choice surroundings _ _ ↦ ⟨Nat.zero_le _, ?_⟩
    show ((process.threads.step crypto (.choose choice surroundings)).rest .pull).AtMost
      isExchange most
    rw [Threads.rest_choose]
    exact hmost
  | main =>
    exact mainGoesOn_cases (motive := fun after ↦
      0 ≤ most ∧ (after.threads.rest .pull).AtMost isExchange most) process ⟨Nat.zero_le _, hmost⟩
      (fun _ _ _ ↦ ⟨Nat.zero_le _, hmost⟩) fun _ _ _ ↦ ⟨Nat.zero_le _, hmost⟩
  | pull =>
    refine pullGoesOn_cases (motive := fun after ↦
      0 ≤ most ∧ (after.threads.rest .pull).AtMost isExchange most) crypto process
      ⟨Nat.zero_le _, hmost⟩ (fun _ _ ↦ ⟨Nat.zero_le _, hmost⟩) (fun _ _ ↦ ⟨Nat.zero_le _, hmost⟩)
      (fun _ _ _ _ ↦ ⟨Nat.zero_le _, hmost⟩) (fun seconds hpausing hflag _ ↦ ?_)
      (fun _ _ ↦ ⟨Nat.zero_le _, hmost⟩) fun _ _ _ ↦ ⟨Nat.zero_le _, hmost⟩
    rcases hwake rfl with hstopped | hturn
    · rw [hstopped] at hflag
      cases hflag
    · rw [hpausing] at hturn
      cases hturn
  | act thread response =>
    rcases Threads.rest_act crypto process.threads thread response .pull with
      ⟨heq, hnone⟩ | ⟨rfl, call, resume, answer, hrequest, -, hresumed⟩
    · have hexchanged : exchangedBy .pull process (.act thread response) = 0 := by
        refine if_neg fun hexchange ↦ ?_
        obtain ⟨rfl, hany⟩ := hexchange
        rw [hnone rfl] at hany
        cases hany
      rw [hexchanged, Process.step, heq]
      exact ⟨Nat.zero_le _, hmost⟩
    · rw [hrequest] at hmost
      have hexchanged : exchangedBy .pull process (.act .pull response) =
        (isExchange call).toNat := by
        simp only [exchangedBy, Threads.nextCall, hrequest, firstCall, true_and, Option.any_some]
        cases isExchange call <;> rfl
      rw [hexchanged, Process.step, hresumed]
      exact ⟨hmost.1, hmost.2 answer⟩

/-! ### The end -/

/-- The threads go on again and again, and the calls of the pull thread come to their end: the
exchange with the server is answered, or throws. -/
structure Fair (schedule : ℕ → ProcessEvent) : Prop where
  main : Recurs fun n ↦ schedule n = .main
  pull : Recurs fun n ↦ schedule n = .pull
  returns : Recurs fun n ↦ ∃ response, schedule n = .act .pull response

/-- The process after so many events of a schedule. -/
def after (crypto : Crypto) (process : Process) (schedule : ℕ → ProcessEvent) (n : ℕ) : Process :=
  runEvents (step crypto) process ((List.range n).map schedule)

theorem after_succ (crypto : Crypto) (process : Process) (schedule : ℕ → ProcessEvent) (n : ℕ) :
    process.after crypto schedule (n + 1) =
      (process.after crypto schedule n).step crypto (schedule n) := by
  rw [after, after, List.range_succ, List.map_append, runEvents_append]
  rfl

/-- A process that has left its loop with an outcome. -/
structure Leaving (outcome : Except CppError Unit) (process : Process) : Prop where
  sound : process.Sound
  left : process.main = .joining outcome ∨ process.main = .returned outcome

variable {outcome : Except CppError Unit}

theorem Leaving.stopped (h : process.Leaving outcome) : process.stopFlag = true :=
  h.sound.stopped.mpr (by rcases h.left with hmain | hmain <;> simp [hmain])

theorem Leaving.step (h : process.Leaving outcome) (crypto : Crypto) (event : ProcessEvent) :
    (process.step crypto event).Leaving outcome := by
  refine ⟨h.sound.step crypto event, ?_⟩
  have hloop : process.main ≠ .loop := h.sound.stopped.mp h.stopped
  cases event with
  | input surroundings =>
    exact answerMenu_cases (motive := fun after ↦ after.main = .joining outcome ∨
      after.main = .returned outcome) crypto process surroundings h.left
      (fun _ hmain _ ↦ absurd hmain hloop) fun _ _ _ hmain ↦ absurd hmain hloop
  | act thread response => exact h.left
  | main =>
    refine mainGoesOn_cases (motive := fun after ↦ after.main = .joining outcome ∨
      after.main = .returned outcome) process h.left (fun _ hmain _ ↦ absurd hmain hloop)
      fun other hmain _ ↦ ?_
    rcases h.left with hleft | hleft
    · rw [hleft] at hmain
      cases hmain
      exact .inr rfl
    · rw [hleft] at hmain
      cases hmain
  | pull =>
    refine pullGoesOn_cases (motive := fun after ↦ after.main = .joining outcome ∨
      after.main = .returned outcome) crypto process h.left (fun _ _ ↦ h.left) (fun _ _ ↦ h.left)
      (fun _ _ _ _ ↦ h.left) (fun _ _ _ _ ↦ h.left) (fun _ _ ↦ h.left) fun exception _ hrest ↦ ?_
    have hcaught := h.sound.caught
    rw [hrest] at hcaught
    cases hcaught

/-- Outside of a round the pull thread ends at its next look at the flag. -/
theorem Leaving.ends (h : process.Leaving outcome) (crypto : Crypto)
    (hturn : process.pull ≠ .turn) :
    (process.step crypto .pull).pull = .ended := by
  have hstopped := h.stopped
  cases hpull : process.pull with
  | head => simp [Process.step, pullGoesOn, hpull, hstopped]
  | pausing seconds => simp [Process.step, pullGoesOn, hpull, hstopped]
  | turn => exact absurd hpull hturn
  | ended => simp [Process.step, pullGoesOn, hpull]

/-- Only the pull thread moves itself. -/
theorem pull_step_of_ne (crypto : Crypto) (process : Process) {event : ProcessEvent}
    (hevent : event ≠ .pull) : (process.step crypto event).pull = process.pull := by
  cases event with
  | input surroundings =>
    exact answerMenu_cases (motive := fun after ↦ after.pull = process.pull) crypto
      process surroundings
      rfl (fun _ _ _ ↦ rfl) fun _ _ _ _ ↦ rfl
  | act thread response => rfl
  | main =>
    exact mainGoesOn_cases (motive := fun after ↦ after.pull = process.pull) process rfl
      (fun _ _ _ ↦ rfl) fun _ _ _ ↦ rfl
  | pull => exact absurd rfl hevent

/-- When the flag is raised the pull thread begins no round: its program stays or is answered. -/
theorem Leaving.rest_pull (h : process.Leaving outcome) (crypto : Crypto) (event : ProcessEvent) :
    (process.step crypto event).threads.rest .pull = process.threads.rest .pull ∨
      ∃ call resume answer, process.threads.rest .pull = .request call resume ∧
        (process.step crypto event).threads.rest .pull = resume answer := by
  cases event with
  | input surroundings =>
    exact .inl (answerMenu_cases (motive := fun after ↦ after.threads.rest .pull =
      process.threads.rest .pull) crypto process surroundings rfl (fun _ _ _ ↦ rfl)
      fun choice surroundings _ _ ↦ Threads.rest_choose crypto process.threads choice surroundings)
  | act thread response =>
    rcases Threads.rest_act crypto process.threads thread response .pull with
      ⟨heq, -⟩ | ⟨rfl, call, resume, answer, hrequest, -, hresumed⟩
    · exact .inl heq
    · exact .inr ⟨call, resume, answer, hrequest, hresumed⟩
  | main =>
    exact .inl (mainGoesOn_cases (motive := fun after ↦ after.threads.rest .pull =
      process.threads.rest .pull) process rfl (fun _ _ _ ↦ rfl) fun _ _ _ ↦ rfl)
  | pull =>
    refine .inl (pullGoesOn_cases (motive := fun after ↦ after.threads.rest .pull =
      process.threads.rest .pull) crypto process rfl (fun _ _ ↦ rfl) (fun _ _ ↦ rfl)
      (fun _ _ _ _ ↦ rfl) (fun seconds _ hflag _ ↦ ?_) (fun _ _ ↦ rfl) fun _ _ _ ↦ rfl)
    rw [h.stopped] at hflag
    cases hflag

theorem Leaving.after (h : process.Leaving outcome) (crypto : Crypto)
    (schedule : ℕ → ProcessEvent) (n : ℕ) : (process.after crypto schedule n).Leaving outcome := by
  induction n with
  | zero => exact h
  | succ n ih =>
    rw [after_succ]
    exact ih.step crypto _

section Schedule

variable {schedule : ℕ → ProcessEvent}

/-- The calls of the last round are answered until none is left. -/
theorem Leaving.round_ends (h : process.Leaving outcome) (crypto : Crypto) (hfair : Fair schedule) :
    ∃ n last, (process.after crypto schedule n).threads.rest .pull = .finished last := by
  have hmoves : ∀ n call resume,
      (process.after crypto schedule n).threads.rest .pull = .request call resume →
        (process.after crypto schedule (n + 1)).threads.rest .pull =
            (process.after crypto schedule n).threads.rest .pull ∨
          ∃ answer, (process.after crypto schedule (n + 1)).threads.rest .pull = resume answer := by
    intro n call resume hrequest
    rw [after_succ]
    refine ((h.after crypto schedule n).rest_pull crypto (schedule n)).imp_right ?_
    rintro ⟨other, next, answer, hother, hresumed⟩
    rw [hrequest] at hother
    cases hother
    exact ⟨answer, hresumed⟩
  obtain ⟨n, -, last, hlast⟩ := finishes
    (fun n ↦ (process.after crypto schedule n).threads.rest .pull) hfair.returns 0
    (fun n _ call resume hrequest ↦ hmoves n call resume hrequest)
    fun n _ call resume hrequest hreturns ↦ by
      obtain ⟨response, hevent⟩ := hreturns
      obtain ⟨answer, hanswer⟩ := Threads.rest_act_self crypto response hrequest
      refine ⟨answer, ?_⟩
      rw [← hanswer, after_succ, hevent]
      rfl
  exact ⟨n, last, hlast⟩

/-- The pull thread comes back from its last round. -/
theorem Leaving.comes_back (h : process.Leaving outcome) (crypto : Crypto) (hfair : Fair schedule) :
    ∃ n, (process.after crypto schedule n).pull ≠ .turn := by
  obtain ⟨done, last, hdone⟩ := h.round_ends crypto hfair
  by_cases hturn : (process.after crypto schedule done).pull = .turn
  · have hback : ∀ n, (process.after crypto schedule n).pull = .turn →
        (process.after crypto schedule n).threads.rest .pull = .finished last →
          schedule n = .pull → (process.after crypto schedule (n + 1)).pull ≠ .turn := by
      intro n hturn hrest hevent
      rw [after_succ, hevent, Process.step, pullGoesOn, hturn]
      have hcaught := (h.after crypto schedule n).sound.caught
      rw [hrest] at hcaught ⊢
      cases hcaught
      simp
    have hstays : ∀ n, done ≤ n → (process.after crypto schedule n).pull = .turn ∧
          (process.after crypto schedule n).threads.rest .pull = .finished last →
        ((process.after crypto schedule (n + 1)).pull = .turn ∧
          (process.after crypto schedule (n + 1)).threads.rest .pull = .finished last) ∨
            (process.after crypto schedule (n + 1)).pull ≠ .turn := by
      rintro n - ⟨hturn, hrest⟩
      by_cases hevent : schedule n = .pull
      · exact .inr (hback n hturn hrest hevent)
      · left
        rw [after_succ]
        refine ⟨(pull_step_of_ne crypto _ hevent).trans hturn, ?_⟩
        rcases (h.after crypto schedule n).rest_pull crypto (schedule n) with
          heq | ⟨call, resume, answer, hrequest, -⟩
        · exact heq.trans hrest
        · rw [hrest] at hrequest
          cases hrequest
    obtain ⟨n, -, hn⟩ := hfair.pull.leads
      (fun n ↦ (process.after crypto schedule n).pull = .turn ∧
        (process.after crypto schedule n).threads.rest .pull = .finished last)
      (fun n ↦ (process.after crypto schedule n).pull ≠ .turn) done hstays
      (fun n _ hholds ↦ hback n hholds.1 hholds.2) ⟨hturn, hdone⟩
    exact ⟨n, hn⟩
  · exact ⟨done, hturn⟩

/-- The pull thread ends. -/
theorem Leaving.pull_ends (h : process.Leaving outcome) (crypto : Crypto) (hfair : Fair schedule) :
    ∃ n, (process.after crypto schedule n).pull = .ended := by
  obtain ⟨back, hback⟩ := h.comes_back crypto hfair
  have hends : ∀ n, back ≤ n → (process.after crypto schedule n).pull ≠ .turn →
      schedule n = .pull → (process.after crypto schedule (n + 1)).pull = .ended := by
    intro n _ hturn hevent
    rw [after_succ, hevent]
    exact (h.after crypto schedule n).ends crypto hturn
  have hstays : ∀ n, back ≤ n → (process.after crypto schedule n).pull ≠ .turn →
      (process.after crypto schedule (n + 1)).pull ≠ .turn ∨
        (process.after crypto schedule (n + 1)).pull = .ended := by
    intro n hn hturn
    by_cases hevent : schedule n = .pull
    · exact .inr (hends n hn hturn hevent)
    · rw [after_succ, pull_step_of_ne crypto _ hevent]
      exact .inl hturn
  obtain ⟨n, -, hn⟩ := hfair.pull.leads (fun n ↦ (process.after crypto schedule n).pull ≠ .turn)
    (fun n ↦ (process.after crypto schedule n).pull = .ended) back hstays hends hback
  exact ⟨n, hn⟩

/-- `main` returns. -/
theorem Leaving.returns (h : process.Leaving outcome) (crypto : Crypto) (hfair : Fair schedule) :
    ∃ n, (process.after crypto schedule n).main = .returned outcome := by
  obtain ⟨last, hlast⟩ := h.pull_ends crypto hfair
  have hreturns : ∀ n, last ≤ n → (process.after crypto schedule n).pull = .ended →
      schedule n = .main → (process.after crypto schedule (n + 1)).main = .returned outcome := by
    intro n _ hended hevent
    rw [after_succ, hevent, Process.step, mainGoesOn]
    rcases (h.after crypto schedule n).left with hmain | hmain
    · rw [hmain]
      dsimp only
      rw [if_pos hended]
    · rw [hmain]
      exact hmain
  have hstays : ∀ n, last ≤ n → (process.after crypto schedule n).pull = .ended →
      (process.after crypto schedule (n + 1)).pull = .ended ∨
        (process.after crypto schedule (n + 1)).main = .returned outcome := by
    intro n _ hended
    left
    rw [after_succ]
    by_cases hevent : schedule n = .pull
    · rw [hevent]
      exact (h.after crypto schedule n).ends crypto (by rw [hended]; simp)
    · exact (pull_step_of_ne crypto _ hevent).trans hended
  obtain ⟨n, -, hn⟩ := hfair.main.leads (fun n ↦ (process.after crypto schedule n).pull = .ended)
    (fun n ↦ (process.after crypto schedule n).main = .returned outcome) last hstays hreturns hlast
  exact ⟨n, hn⟩

end Schedule

/-- When the flag is raised, whatever happens then, there is at most one exchange more, that of the
round in which the pull thread is; and if the threads go on and the exchange is answered, the pull
thread ends and `main` returns what has ended its loop. -/
theorem exit_completes (crypto : Crypto) (client : ClientState) (events : List ProcessEvent) :
    let process := runEvents (step crypto) (start client) events
    process.stopFlag = true → (∀ more, sumAlong (step crypto) exchanges process more ≤ 1) ∧
      ∃ outcome, process.threads.rest .main = .finished outcome ∧
        ∀ schedule, Fair schedule → ∃ n, (process.after crypto schedule n).pull = .ended ∧
          (process.after crypto schedule n).main = .returned outcome := by
  intro process hstopped
  have hsound : process.Sound := sound_runEvents crypto client events
  obtain ⟨outcome, hleft⟩ : ∃ outcome, process.main = .joining outcome ∨
      process.main = .returned outcome := by
    have hloop := hsound.stopped.mp hstopped
    have halive := hsound.alive
    cases hmain : process.main with
    | loop => exact absurd hmain hloop
    | joining outcome => exact ⟨outcome, .inl rfl⟩
    | returned outcome => exact ⟨outcome, .inr rfl⟩
    | terminated => exact absurd hmain halive
  have h : process.Leaving outcome := ⟨hsound, hleft⟩
  refine ⟨fun more ↦ ?_, outcome, (hsound.left outcome hleft).1, fun schedule hfair ↦ ?_⟩
  swap
  · obtain ⟨n, hreturned⟩ := h.returns crypto hfair
    exact ⟨n, (h.after crypto schedule n).sound.joined outcome hreturned, hreturned⟩
  refine sumAlong_le_of_spent (fun process balance ↦ process.Leaving outcome ∧
    (process.threads.rest .pull).AtMost isExchange balance)
      (fun process event balance haccount ↦ ?_)
    ⟨h, hsound.single⟩ more
  have hmain : exchangedBy .main process event = 0 :=
    exchangedBy_of_finished (haccount.1.sound.left outcome haccount.1.left).1 event
  obtain ⟨hle, hleft⟩ := pays crypto (fun _ ↦ .inl haccount.1.stopped) haccount.2
  rw [Process.exchanges, hmain, Nat.zero_add]
  exact ⟨hle, haccount.1.step crypto event, hleft⟩

/-- A client that has registered. -/
def settled : ClientState :=
  { freshClient with
    ctx := { ClientContext.empty with
      clientID := .ofBytes clientIdSize (List.replicate clientIdSize 7) } }

/-- The user chooses to exit when the pull thread is about to ask for the waiting messages. -/
def exitDuringPull : List ProcessEvent :=
  List.replicate (pauseSeconds + 2) .pull ++ List.replicate 2 (.act .pull (.ok [])) ++
    [.input ⟨[[48]], ⟨.zero symmetricKeySize, 0⟩, .ok true, true⟩]

/-- The threads take turns, and every exchange fails. -/
def takingTurns (n : ℕ) : ProcessEvent :=
  if n % 3 = 0 then .main else if n % 3 = 1 then .pull else .act .pull (.error .cryptoError)

theorem fair_takingTurns : Fair takingTurns where
  main n := ⟨3 * n, by omega, if_pos (by omega)⟩
  pull n := ⟨3 * n + 1, by omega, (if_neg (by omega)).trans (if_pos (by omega))⟩
  returns n := ⟨3 * n + 2, by omega, _, (if_neg (by omega)).trans (if_neg (by omega))⟩

/-- The exchange is made, and `main` returns. -/
theorem exit_completes_during_pull :
    let process := runEvents (step .tagged) (start settled) exitDuringPull
    (∃ data, process.threads.nextCall .pull = some (.sendAndReceive data)) ∧
      (∀ more, sumAlong (step .tagged) exchanges process more ≤ 1) ∧
        ∃ outcome n, (process.after .tagged takingTurns n).pull = .ended ∧
          (process.after .tagged takingTurns n).main = .returned outcome := by
  intro process
  obtain ⟨hexchanges, outcome, -, hreturns⟩ :=
    exit_completes .tagged settled exitDuringPull (by decide +kernel)
  refine ⟨⟨_, rfl⟩, hexchanges, outcome, hreturns takingTurns fair_takingTurns⟩

/-! ### The pause -/

/-- What the pull thread has slept in front of its next exchange. -/
structure Saved (process : Process) (seconds : ℕ) : Prop where
  paused : ∀ waited, process.pull = .pausing waited → waited ≤ seconds
  paid : process.pull = .turn →
    ∃ most, (process.threads.rest .pull).AtMost isExchange most ∧ pauseSeconds * most ≤ seconds

/-- The pull thread sleeps and begins a round. -/
theorem Saved.pull {seconds : ℕ} (h : process.Saved seconds) (hsound : process.Sound)
    (crypto : Crypto) : ∃ left, (process.step crypto .pull).Saved left ∧
      left ≤ seconds + slept process .pull := by
  have hsame : ∀ after : Process, (∀ waited, after.pull = .pausing waited → waited = 0) →
      after.pull ≠ .turn → ∃ left, after.Saved left ∧ left ≤ seconds + slept process .pull :=
    fun after hpaused hturn ↦ ⟨seconds, ⟨fun waited hwaited ↦ by rw [hpaused waited hwaited]; simp,
      fun h ↦ absurd h hturn⟩, Nat.le_add_right ..⟩
  refine pullGoesOn_cases (motive := fun after ↦ ∃ left, after.Saved left ∧
    left ≤ seconds + slept process .pull) crypto process ⟨seconds, h, Nat.le_add_right ..⟩
    (fun _ _ ↦ hsame _ (by simp) (by simp)) (fun _ _ ↦ hsame _ (by simp) (by simp))
    (fun waited hpausing hflag hless ↦ ?_) (fun waited hpausing hflag hover ↦ ?_)
    (fun _ _ ↦ hsame _ (by simp) (by simp)) fun _ hturn _ ↦ ?_
  · have hslept : slept process .pull = 1 := by
      simp only [slept, hpausing, hflag]
      exact if_pos (by simpa using hless)
    refine ⟨seconds + 1, ⟨fun other hother ↦ ?_, fun hturn ↦ by cases hturn⟩, by rw [hslept]⟩
    cases hother
    exact Nat.succ_le_succ (h.paused waited hpausing)
  · obtain ⟨outcome, hrest⟩ := hsound.resting (by rw [hpausing]; simp)
    refine ⟨seconds, ⟨fun other hother ↦ (by cases hother), fun _ ↦ ⟨1, ?_, ?_⟩⟩,
      Nat.le_add_right ..⟩
    · rw [(Threads.rest_wake crypto hrest).1]
      exact atMost_pullTurn
    · exact hover.trans (h.paused waited hpausing)
  · exact ⟨seconds, ⟨h.paused, h.paid⟩, Nat.le_add_right ..⟩

/-- What it has slept pays for its exchanges. -/
theorem Saved.step {seconds : ℕ} (h : process.Saved seconds) (hsound : process.Sound)
    (crypto : Crypto) (event : ProcessEvent) : ∃ left, (process.step crypto event).Saved left ∧
      pauseSeconds * exchangedBy .pull process event + left ≤ seconds + slept process event := by
  by_cases hevent : event = .pull
  · subst hevent
    obtain ⟨left, hleft, hle⟩ := h.pull hsound crypto
    exact ⟨left, hleft, by simpa [exchangedBy] using hle⟩
  have hpull := pull_step_of_ne crypto process hevent
  by_cases hturn : process.pull = .turn
  · obtain ⟨most, hmost, hpaid⟩ := h.paid hturn
    obtain ⟨hle, hleft⟩ := pays crypto (fun h ↦ absurd h hevent) hmost
    refine ⟨seconds - pauseSeconds * exchangedBy .pull process event, ⟨fun waited hwaited ↦ ?_,
      fun _ ↦ ⟨_, hleft, ?_⟩⟩, ?_⟩
    · rw [hpull, hturn] at hwaited
      cases hwaited
    · rw [Nat.mul_sub]
      exact Nat.sub_le_sub_right hpaid _
    · have hcost := (Nat.mul_le_mul_left pauseSeconds hle).trans hpaid
      omega
  · obtain ⟨outcome, hrest⟩ := hsound.resting hturn
    refine ⟨seconds, ⟨fun waited hwaited ↦ h.paused waited (hpull ▸ hwaited),
      fun hturned ↦ absurd (hpull.symm.trans hturned) hturn⟩, ?_⟩
    rw [exchangedBy_of_finished hrest]
    omega

/-- The pull thread sleeps for a minute before each of its exchanges. -/
theorem pulls_spaced (crypto : Crypto) (client : ClientState) (events : List ProcessEvent) :
    pauseSeconds * sumAlong (step crypto) (exchangedBy .pull) (start client) events ≤
      sumAlong (step crypto) slept (start client) events := by
  have hstart : (start client).Saved 0 :=
    ⟨fun waited hwaited ↦ (by cases hwaited), fun hturn ↦ (by cases hturn)⟩
  rw [← sumAlong_mul, ← Nat.zero_add (sumAlong _ slept _ _)]
  refine sumAlong_le slept (fun process seconds ↦ process.Sound ∧ process.Saved seconds)
    (fun process event seconds haccount ↦ ?_) ⟨sound_start client, hstart⟩ events
  obtain ⟨left, hleft, hcost⟩ := haccount.2.step haccount.1 crypto event
  exact ⟨left, ⟨haccount.1.step crypto event, hleft⟩, hcost⟩

end Process

end MessageU.System
