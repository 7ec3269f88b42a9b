import MessageU.Client.Online
import MessageU.Library.Rounds
import MessageU.Library.Text

/-!
# The menu and the loops on the console

`ClientMenu.cpp` and the loop of `main`. The client reads from the console in four loops: the menu
and the prompt for a name ask again until a line is accepted, a message is read up to an empty line,
and `main` comes back to the menu after every action. Each is given a number of rounds and is
measured by the lines that are left and the reads that are made (`console`).

`Prompts` is what the menu and the prompt for a name have in common: such a loop ends when some line
is accepted and is endless when none is (`Prompts.stops_iff`), since a `std::getline` that fails
leaves an empty line. The loop over the lines of a message ends always, because it asks whether
`std::getline` failed (`ends_readMessage`).

A pass of the loop of `main` therefore ends exactly from an `Answerable` state, and takes a line at
least. So the loop of `main` stops exactly if it comes to the menu in no other state
(`console_loops_stop_iff`).
-/

set_option autoImplicit false
set_option relaxedAutoImplicit false

namespace MessageU.Client

open Library Interaction

/-! ### The menu -/

@[simp] abbrev exitChoice : ℕ := 0

/-- `INPUT_ERROR`. -/
@[simp] abbrev inputError : ℕ := 65535

/-- The menu that is printed. -/
def menu : String :=
  "MessageU client at your service. \n\n110) Register\n120) Request for clients list\n" ++
    "130) Request for public key\n140) Request for waiting messages\n150) Send a text message\n" ++
    "151) Send a request for symmetric key\n152) Send your symmetric key\n0) Exit client\n?\n"

/-- `isNumber`: blanks, digits and blanks, with something that is no blank. -/
def isNumber (s : Bytes) : Bool :=
  let trimmed := s.dropWhile isspace
  if trimmed = [] then false else (trimmed.dropWhile isdigit).dropWhile isspace = []

/-- `std::strtoul(s, nullptr, 10)`, of a text without a sign: `ULONG_MAX` for a number that is
larger. -/
def strtoul (s : Bytes) : ℕ :=
  min (decimal ((s.dropWhile isspace).takeWhile isdigit)) (2 ^ 32 - 1)

/-- `isValidMenuOption`. -/
def isValidMenuOption (num : ℕ) : Bool :=
  num ∈ [registerChoice, clientsListChoice, publicKeyChoice, waitingMessagesChoice, sendTextChoice,
    requestSymmetricKeyChoice, sendSymmetricKeyChoice, exitChoice]

/-- `getUserInput`. At the end of the input `std::getline` leaves an empty line. -/
def getUserInput : Program ℕ := do
  let line ← ask .getline
  let input := line.getD []
  if !isNumber input then pure inputError
  else
    let value := strtoul input
    if 65535 < value then pure inputError else pure (value % 2 ^ 16)

/-- The loop of `clientMenuMain`. -/
def clientMenuMain : (rounds : ℕ) → Program ℕ
  | 0 => throwing .outOfFuel
  | rounds + 1 => do
    ask (.print (.text menu))
    let input ← getUserInput
    if input = inputError || !isValidMenuOption input then do
      ask (.print (.text "Invalid input, please try again.\n"))
      clientMenuMain rounds
    else pure input

/-! ### The loop of main -/

/-- One pass of the loop of `main`, and whether it goes on. The end of the pull thread on an exit is
not part of it. -/
def mainPass (rounds : ℕ) : Loop Bool := do
  let input ← here (clientMenuMain rounds)
  if input = exitChoice then do
    here (ask (.print (.text "Exiting client...\n")))
    pure false
  else do
    mainTurn rounds input
    pure true

/-- The loop of `main`. Assumes: `rounds` for the loops of a pass. -/
def mainLoop (rounds : ℕ) : (passes : ℕ) → Loop Unit
  | 0 => .finished (.error .outOfFuel)
  | passes + 1 => do
    let again ← mainPass rounds
    if again then mainLoop rounds passes else pure ()

/-! ### The console -/

/-- The lines that the console still holds. -/
abbrev Online.lines (state : Online) : ℕ :=
  state.client.console.length

/-- The loops on the console are measured by the lines that are left and the reads that were
made. -/
def console (crypto : Crypto) (network : Network) :
    Meter (S := LoopCalls) (LoopCall.exec crypto network) where
  left := Online.lines
  reads := Online.reads
  exhausted := .outOfFuel
  left_le state call := by
    cases call with
    | sendAndReceive data => exact le_rfl
    | method call => cases call <;> first | exact le_rfl | exact (List.tail_sublist _).length_le
  reads_le state call := by
    cases call with
    | sendAndReceive data => exact le_rfl
    | method call => exact Nat.le_add_right _ _

section Meter

variable {α : Type} {crypto : Crypto} {network : Network} {loop : ℕ → Loop α} {start final : Online}

/-- A loop that comes to one end, in the words of the client. -/
theorem settles_iff {outcome : Except CppError α} :
    Settles (console crypto network) loop start final outcome ↔
      ∀ rounds, start.lines < rounds → (loop rounds).exec crypto network start = (final, outcome) :=
  Iff.rfl

/-- A loop without end, in the words of the client. -/
theorem endless_iff :
    Endless (console crypto network) loop start ↔
      ∀ rounds, start.lines < rounds →
        ((loop rounds).exec crypto network start).2 = .error .outOfFuel ∧
          start.reads + rounds ≤ ((loop rounds).exec crypto network start).1.reads :=
  Iff.rfl

/-- A round less is enough for a line less. -/
theorem lines_lt_of_cons {line : Bytes} {lines : List Bytes} {rounds : ℕ}
    (hstart : start.client.console = line :: lines) (hfinal : final.client.console = lines)
    (hrounds : start.lines < rounds + 1) : final.lines < rounds := by
  rw [Online.lines, hstart, List.length_cons] at hrounds
  rw [Online.lines, hfinal]
  exact Nat.lt_of_succ_lt_succ hrounds

end Meter

/-! ### Prompts -/

/-- The value that a prompt accepts and the lines behind it. -/
def firstAccepted {α : Type} (accept : Bytes → Option α) : List Bytes → Option (α × List Bytes)
  | [] => none
  | line :: rest =>
    match accept line with
    | some value => some (value, rest)
    | none => firstAccepted accept rest

/-- A loop that reads a line in each round and asks again until one is accepted. -/
structure Prompts {α : Type} (crypto : Crypto) (network : Network) (loop : ℕ → Loop α)
    (accept : Bytes → Option α) : Prop where
  /-- The empty line that is left at the end of the input is not accepted. -/
  blank : accept [] = none
  zero : ∀ state, (loop 0).exec crypto network state = (state, .error .outOfFuel)
  succ : ∀ state : Online, ∃ next : Online, next.client.ctx = state.client.ctx ∧
    next.client.console = state.client.console.tail ∧ next.reads = state.reads + 1 ∧
    ∀ rounds, (loop (rounds + 1)).exec crypto network state =
      match accept (state.client.console.head?.getD []) with
      | some value => (next, .ok value)
      | none => (loop rounds).exec crypto network next

section Prompts

variable {α : Type} {crypto : Crypto} {network : Network} {loop : ℕ → Loop α}
  {accept : Bytes → Option α}

/-- A prompt returns the value of the first line that it accepts. -/
theorem Prompts.settles (h : Prompts crypto network loop accept) {state : Online} {value : α}
    {rest : List Bytes} (haccepted : firstAccepted accept state.client.console =
      some (value, rest)) :
    ∃ final : Online, final.client.ctx = state.client.ctx ∧ final.client.console = rest ∧
      Settles (console crypto network) loop state final (.ok value) := by
  obtain ⟨console, hconsole⟩ : ∃ console, state.client.console = console := ⟨_, rfl⟩
  rw [hconsole] at haccepted
  induction console generalizing state with
  | nil => cases haccepted
  | cons line lines ih =>
    obtain ⟨next, hctx, htail, -, hround⟩ := h.succ state
    rw [hconsole] at htail hround
    simp only [List.head?_cons, Option.getD_some, List.tail_cons] at htail hround
    rw [firstAccepted] at haccepted
    cases hline : accept line with
    | some found =>
      rw [hline] at haccepted hround
      cases haccepted
      refine ⟨next, hctx, htail, fun rounds hrounds ↦ ?_⟩
      obtain ⟨fewer, rfl⟩ := Nat.exists_eq_succ_of_ne_zero (Nat.ne_zero_of_lt hrounds)
      exact hround fewer
    | none =>
      rw [hline] at haccepted hround
      obtain ⟨final, hfinal, hrest, hsettles⟩ := ih haccepted htail
      refine ⟨final, hfinal.trans hctx, hrest, fun rounds hrounds ↦ ?_⟩
      obtain ⟨fewer, rfl⟩ := Nat.exists_eq_succ_of_ne_zero (Nat.ne_zero_of_lt hrounds)
      exact (hround fewer).trans (hsettles fewer (lines_lt_of_cons hconsole htail hrounds))

/-- A prompt that accepts none of the lines asks in every round. -/
theorem Prompts.endless (h : Prompts crypto network loop accept) {state : Online}
    (hnone : firstAccepted accept state.client.console = none) :
    Endless (console crypto network) loop state := by
  suffices hall : ∀ rounds, ((loop rounds).exec crypto network state).2 = .error .outOfFuel ∧
      state.reads + rounds ≤ ((loop rounds).exec crypto network state).1.reads from
    fun rounds _ ↦ hall rounds
  intro rounds
  induction rounds generalizing state with
  | zero =>
    rw [h.zero]
    exact ⟨rfl, le_rfl⟩
  | succ rounds ih =>
    obtain ⟨next, -, htail, hreads, hround⟩ := h.succ state
    have hrefused : accept (state.client.console.head?.getD []) = none ∧
        firstAccepted accept state.client.console.tail = none := by
      cases hconsole : state.client.console with
      | nil => exact ⟨h.blank, rfl⟩
      | cons line lines =>
        rw [hconsole, firstAccepted] at hnone
        cases hline : accept line with
        | some value => simp [hline] at hnone
        | none => exact ⟨hline, by simpa [hline] using hnone⟩
    rw [← htail] at hrefused
    obtain ⟨houtcome, hmore⟩ := ih hrefused.2
    rw [hround, hrefused.1]
    dsimp only
    rw [hreads] at hmore
    exact ⟨houtcome, by omega⟩

/-- A prompt stops exactly if it accepts some line. -/
theorem Prompts.stops_iff (h : Prompts crypto network loop accept) {state : Online} :
    Stops (console crypto network) loop state ↔
      (firstAccepted accept state.client.console).isSome := by
  rw [Option.isSome_iff_ne_none]
  constructor
  · exact fun hstops hnone ↦ (h.endless hnone).not_stops hstops
  · intro hsome
    obtain ⟨⟨value, rest⟩, haccepted⟩ := Option.ne_none_iff_exists'.mp hsome
    obtain ⟨final, -, -, hsettles⟩ := h.settles haccepted
    exact Ends.stops ⟨final, _, hsettles⟩

end Prompts

/-! ### The loops on the console -/

/-- What `getUserInput` makes of a line. -/
def inputOf (line : Bytes) : ℕ :=
  if isNumber line = true ∧ strtoul line ≤ 65535 then strtoul line else inputError

/-- The choice that a line of the menu stands for. -/
def menuOption (line : Bytes) : Option ℕ :=
  if isValidMenuOption (inputOf line) = true then some (inputOf line) else none

theorem getUserInput_eq :
    getUserInput = ask .getline >>= fun line ↦ pure (inputOf (line.getD [])) := by
  refine congrArg (ask ClientCall.getline >>= ·) (funext fun line ↦ ?_)
  dsimp only [inputOf]
  by_cases hnumber : isNumber (line.getD []) = true
  · rw [if_neg (by simp [hnumber])]
    by_cases hlarge : 65535 < strtoul (line.getD [])
    · rw [if_pos hlarge, if_neg fun h ↦ not_lt.mpr h.2 hlarge]
    · have hsmall : strtoul (line.getD []) ≤ 65535 := not_lt.mp hlarge
      rw [if_neg hlarge, if_pos ⟨hnumber, hsmall⟩, Nat.mod_eq_of_lt (by omega)]
  · rw [if_pos (by simpa using hnumber), if_neg fun h ↦ hnumber h.1]

section Console

variable (crypto : Crypto) (network : Network)

/-- A client that has read a line and printed something. -/
def Online.readLine (state : Online) (output : List Output) : Online :=
  { state with
    client := { state.client with console := state.client.console.tail, output := output }
    reads := state.reads + 1 }

/-- The menu is a prompt for a choice. -/
theorem prompts_clientMenuMain :
    Prompts crypto network (fun rounds ↦ here (clientMenuMain rounds)) menuOption where
  blank := by decide
  zero _ := rfl
  succ state := by
    let line := state.client.console.head?.getD []
    let shown := state.client.output ++ [.text menu]
    have hround (rounds : ℕ) : (here (clientMenuMain (rounds + 1))).exec crypto network state =
        Loop.exec crypto network
          (here (if inputOf line = inputError || !isValidMenuOption (inputOf line)
          then do
            ask (.print (.text "Invalid input, please try again.\n"))
            clientMenuMain rounds
          else pure (inputOf line))) (state.readLine shown) := by
      rw [clientMenuMain, getUserInput_eq]
      rfl
    by_cases hvalid : isValidMenuOption (inputOf line) = true
    · have haccepted : menuOption line = some (inputOf line) := if_pos hvalid
      have hinput : inputOf line ≠ inputError := by
        intro herror
        rw [herror] at hvalid
        revert hvalid
        decide
      refine ⟨state.readLine shown, rfl, rfl, rfl, fun rounds ↦ ?_⟩
      rw [hround, haccepted, if_neg (by simp [hvalid, hinput])]
      rfl
    · have hrefused : menuOption line = none := if_neg hvalid
      refine ⟨state.readLine (shown ++ [.text "Invalid input, please try again.\n"]), rfl, rfl, rfl,
        fun rounds ↦ ?_⟩
      rw [hround, hrefused, if_pos (by simp [hvalid])]
      rfl

/-- The lines that `getValidUsername` returns. -/
def nameOption (line : Bytes) : Option Bytes :=
  if line = zeroName ∨ isValidUsername line = true then some line else none

theorem firstAccepted_nameOption (console : List Bytes) :
    firstAccepted nameOption console = acceptedName console := by
  induction console with
  | nil => rfl
  | cons line rest ih =>
    rw [firstAccepted, acceptedName, nameOption]
    split_ifs
    · rfl
    · exact ih

/-- `getValidUsername` is a prompt for a name. -/
theorem prompts_getValidUsername (prompt : String) :
    Prompts crypto network (fun rounds ↦ here (getValidUsername prompt rounds)) nameOption where
  blank := by decide
  zero _ := rfl
  succ state := by
    let line := state.client.console.head?.getD []
    let shown := state.client.output ++ [.text prompt]
    have hround (rounds : ℕ) :
        (here (getValidUsername prompt (rounds + 1))).exec crypto network state =
        Loop.exec crypto network (here (if line = zeroName then do
            ask (.print (.text "Name cannot be 0.\n"))
            pure zeroName
          else if !isValidUsername line then do
            ask (.print (.text "Name must be ASCII only and up to 254 characters.\n"))
            getValidUsername prompt rounds
          else pure line)) (state.readLine shown) := rfl
    by_cases hzero : line = zeroName
    · have haccepted : nameOption line = some line := if_pos (.inl hzero)
      refine ⟨state.readLine (shown ++ [.text "Name cannot be 0.\n"]), rfl, rfl, rfl,
        fun rounds ↦ ?_⟩
      rw [hround, haccepted, if_pos hzero, hzero]
      rfl
    by_cases hvalid : isValidUsername line = true
    · have haccepted : nameOption line = some line := if_pos (.inr hvalid)
      refine ⟨state.readLine shown, rfl, rfl, rfl, fun rounds ↦ ?_⟩
      rw [hround, haccepted, if_neg hzero, if_neg (by simp [hvalid])]
      rfl
    · have hrefused : nameOption line = none := if_neg fun h ↦ h.elim hzero hvalid
      refine ⟨state.readLine (shown ++
        [.text "Name must be ASCII only and up to 254 characters.\n"]), rfl, rfl, rfl,
        fun rounds ↦ ?_⟩
      rw [hround, hrefused, if_neg hzero, if_pos (by simpa using hvalid)]
      rfl

/-- A line that is read. -/
theorem exec_getline (state : Online) : (here (ask .getline)).exec crypto network state =
    (state.readLine state.client.output, .ok state.client.console.head?) :=
  rfl

/-- The loop over the lines of a message at the end of the input. -/
theorem exec_readMessage_end (msg : Bytes) {state : Online} (hconsole : state.client.console = [])
    (rounds : ℕ) : (here (readMessage (rounds + 1) msg)).exec crypto network state =
      (state.readLine state.client.output, .ok msg) := by
  have hline : state.client.console.head? = none := by rw [hconsole, List.head?_nil]
  simp only [readMessage, here_bind, Loop.exec_bind]
  rw [exec_getline, proceed_ok, hline]
  rfl

/-- The loop over the lines of a message at a line. -/
theorem exec_readMessage_line (msg : Bytes) {state : Online} {line : Bytes} {lines : List Bytes}
    (hconsole : state.client.console = line :: lines) (rounds : ℕ) :
    (here (readMessage (rounds + 1) msg)).exec crypto network state =
      Loop.exec crypto network
        (here (if line = [] then pure msg else readMessage rounds (msg ++ line ++ [10])))
        (state.readLine state.client.output) := by
  have hline : state.client.console.head? = some line := by rw [hconsole, List.head?_cons]
  simp only [readMessage, here_bind, Loop.exec_bind]
  rw [exec_getline, proceed_ok, hline]

/-- The loop over the lines of a message ends at an empty line or at the end of the input. -/
theorem ends_readMessage (msg : Bytes) (state : Online) :
    Ends (console crypto network) (fun rounds ↦ here (readMessage rounds msg)) state := by
  obtain ⟨console, hconsole⟩ : ∃ console, state.client.console = console := ⟨_, rfl⟩
  induction console generalizing state msg with
  | nil =>
    refine ⟨state.readLine state.client.output, .ok msg, fun rounds hrounds ↦ ?_⟩
    obtain ⟨fewer, rfl⟩ := Nat.exists_eq_succ_of_ne_zero (Nat.ne_zero_of_lt hrounds)
    exact exec_readMessage_end crypto network msg hconsole fewer
  | cons line lines ih =>
    have hround := exec_readMessage_line crypto network msg hconsole
    by_cases hline : line = []
    · refine ⟨state.readLine state.client.output, .ok msg, fun rounds hrounds ↦ ?_⟩
      obtain ⟨fewer, rfl⟩ := Nat.exists_eq_succ_of_ne_zero (Nat.ne_zero_of_lt hrounds)
      refine (hround fewer).trans ?_
      rw [if_pos hline]
      rfl
    · have hrest : (state.readLine state.client.output).client.console = lines := by
        show state.client.console.tail = lines
        rw [hconsole, List.tail_cons]
      obtain ⟨final, outcome, hsettles⟩ := ih (msg ++ line ++ [10]) _ hrest
      refine ⟨final, outcome, fun rounds hrounds ↦ ?_⟩
      obtain ⟨fewer, rfl⟩ := Nat.exists_eq_succ_of_ne_zero (Nat.ne_zero_of_lt hrounds)
      refine (hround fewer).trans ?_
      rw [if_neg hline]
      exact hsettles fewer (lines_lt_of_cons hconsole hrest hrounds)

end Console

/-! ### The actions -/

/-- An action asks for a name. -/
def Asks (ctx : ClientContext) (choice : ℕ) : Prop :=
  (choice = registerChoice ∧ ctx.hasClientID = false) ∨
    choice ∈ [publicKeyChoice, sendTextChoice, requestSymmetricKeyChoice, sendSymmetricKeyChoice]

section Actions

variable {α : Type} {crypto : Crypto} {network : Network} {state : Online}

/-- What follows a prompt for a name that is given. -/
theorem ends_prompted {prompt : String} {next : ℕ → Bytes → Program α}
    (hname : (acceptedName state.client.console).isSome)
    (hnext : ∀ name middle,
      Ends (console crypto network) (fun rounds ↦ here (next rounds name)) middle) :
    Ends (console crypto network)
      (fun rounds ↦ here (getValidUsername prompt rounds >>= next rounds)) state := by
  obtain ⟨⟨name, rest⟩, haccepted⟩ := Option.isSome_iff_exists.mp hname
  rw [← firstAccepted_nameOption] at haccepted
  obtain ⟨middle, -, -, hsettles⟩ :=
    (prompts_getValidUsername crypto network prompt).settles haccepted
  simp only [here_bind]
  exact hsettles.ends (hnext name middle)

/-- A prompt for a name that is not given. -/
theorem endless_prompted {prompt : String} {next : ℕ → Bytes → Program α}
    (hname : acceptedName state.client.console = none) :
    Endless (console crypto network)
      (fun rounds ↦ here (getValidUsername prompt rounds >>= next rounds)) state := by
  rw [← firstAccepted_nameOption] at hname
  simp only [here_bind]
  exact ((prompts_getValidUsername crypto network prompt).endless hname).bind

/-- A call and what follows it. -/
theorem ends_ask {call : ClientCall} {next : ℕ → call.Result → Program α}
    (hnext : ∀ value middle,
      Ends (console crypto network) (fun rounds ↦ here (next rounds value)) middle) :
    Ends (console crypto network) (fun rounds ↦ here (ask call >>= next rounds)) state := by
  simp only [here_bind]
  exact (ends_const _ _).bind hnext

/-- The question whether the client is registered. -/
theorem settles_hasClientID :
    Settles (console crypto network) (fun _ ↦ here (ask .hasClientID)) state state
      (.ok state.client.ctx.hasClientID) :=
  fun _ _ ↦ rfl

theorem ends_handleRegister
    (hname : state.client.ctx.hasClientID = false → (acceptedName state.client.console).isSome) :
    Ends (console crypto network) (fun rounds ↦ here (handleRegister rounds)) state := by
  simp only [handleRegister, here_bind (ask ClientCall.hasClientID)]
  refine settles_hasClientID.ends ?_
  cases hregistered : state.client.ctx.hasClientID with
  | true => exact ends_const _ _
  | false => exact ends_prompted (hname hregistered) fun name middle ↦ ends_const _ _

theorem ends_handleSendText (target : ClientId) (start : Online) :
    Ends (console crypto network) (fun rounds ↦ here (handleSendText rounds target)) start := by
  refine ends_ask fun _ middle ↦ ?_
  simp only [here_bind (readMessage _ _)]
  exact (ends_readMessage crypto network [] middle).bind fun msg final ↦ ends_const _ _

theorem ends_handleAllMessages {choice : ℕ} (hname : (acceptedName state.client.console).isSome) :
    Ends (console crypto network) (fun rounds ↦ here (handleAllMessages rounds choice)) state := by
  refine ends_prompted hname fun name middle ↦ ?_
  by_cases hzero : name = zeroName
  · simp only [if_pos hzero]
    exact ends_const _ _
  simp only [if_neg hzero]
  refine ends_ask fun found middle ↦ ?_
  cases found with
  | none => exact ends_const _ _
  | some target =>
    dsimp only
    by_cases htext : choice = sendTextChoice
    · simp only [if_pos htext, here_bind (handleSendText _ _)]
      exact (ends_handleSendText target middle).bind fun content final ↦ ends_const _ _
    · simp only [if_neg htext]
      exact ends_const _ _

/-- An action ends, unless it asks for a name that is not given. -/
theorem ends_handleMenuChoice {choice : ℕ}
    (hname : Asks state.client.ctx choice → (acceptedName state.client.console).isSome) :
    Ends (console crypto network) (fun rounds ↦ here (handleMenuChoice rounds choice)) state := by
  unfold handleMenuChoice
  split_ifs with hregister hlist hkey hwaiting htext hrequest hsend
  · exact ends_handleRegister fun hnone ↦ hname (.inl ⟨hregister, hnone⟩)
  · exact ends_const _ _
  · refine ends_prompted (hname (.inr (by simp [hkey]))) fun name middle ↦ ends_const _ _
  · exact ends_const _ _
  · exact ends_handleAllMessages (hname (.inr (by simp [htext])))
  · exact ends_handleAllMessages (hname (.inr (by simp [hrequest])))
  · exact ends_handleAllMessages (hname (.inr (by simp [hsend])))
  · exact ends_const _ _

/-- An action that asks for a name that is not given asks in every round. -/
theorem endless_handleMenuChoice {choice : ℕ} (hasks : Asks state.client.ctx choice)
    (hname : acceptedName state.client.console = none) :
    Endless (console crypto network)
      (fun rounds ↦ here (handleMenuChoice rounds choice)) state := by
  have hmessages (code : ℕ) : Endless (console crypto network)
      (fun rounds ↦ here (handleAllMessages rounds code)) state := endless_prompted hname
  simp only [Asks, List.mem_cons, List.not_mem_nil, or_false] at hasks
  rcases hasks with ⟨rfl, hnone⟩ | rfl | rfl | rfl | rfl
  · show Endless (console crypto network) (fun rounds ↦ here (handleRegister rounds)) state
    simp only [handleRegister, here_bind (ask ClientCall.hasClientID)]
    refine Endless.after settles_hasClientID ?_
    rw [hnone]
    exact endless_prompted hname
  · exact endless_prompted hname
  · exact hmessages sendTextChoice
  · exact hmessages requestSymmetricKeyChoice
  · exact hmessages sendSymmetricKeyChoice

end Actions

/-! ### The loop of main stops -/

/-- The console holds a line that the menu accepts, and if its action asks for a name, a name behind
it. -/
def Answerable (state : Online) : Prop :=
  ∃ choice rest, firstAccepted menuOption state.client.console = some (choice, rest) ∧
    (Asks state.client.ctx choice → (acceptedName rest).isSome)

/-- The loop of `main` comes from a state at the menu to another one. -/
inductive Reaches (crypto : Crypto) (network : Network) : Online → Online → Prop
  | refl (state : Online) : Reaches crypto network state state
  | pass {start middle final : Online}
    (hpass : (mainPass (start.lines + 1)).exec crypto network start = (middle, .ok true))
    (hrest : Reaches crypto network middle final) : Reaches crypto network start final

/-- A prompt takes a line at least. -/
theorem firstAccepted_length {α : Type} {accept : Bytes → Option α} {console rest : List Bytes}
    {value : α} (h : firstAccepted accept console = some (value, rest)) :
    rest.length < console.length := by
  induction console with
  | nil => cases h
  | cons line lines ih =>
    rw [firstAccepted] at h
    cases hline : accept line with
    | some found =>
      rw [hline] at h
      cases h
      exact Nat.lt_succ_self _
    | none =>
      rw [hline] at h
      exact (ih h).trans (Nat.lt_succ_self _)

section Main

variable {crypto : Crypto} {network : Network} {start final : Online}

/-- What follows the menu in a pass. -/
theorem ends_choice {choice : ℕ}
    (hname : Asks start.client.ctx choice → (acceptedName start.client.console).isSome) :
    Ends (console crypto network) (fun rounds ↦ if choice = exitChoice then do
        here (ask (.print (.text "Exiting client...\n")))
        pure false
      else do
        mainTurn rounds choice
        pure true : ℕ → Loop Bool) start := by
  by_cases hexit : choice = exitChoice
  · simp only [if_pos hexit]
    exact ends_const _ _
  · simp only [if_neg hexit]
    refine Ends.bind ?_ fun _ middle ↦ ends_const _ _
    exact (ends_handleMenuChoice hname).bind fun data middle ↦ ends_const _ _

/-- A pass from an answerable state ends, and takes a line at least. -/
theorem Answerable.settles (h : Answerable start) :
    ∃ final outcome, Settles (console crypto network) mainPass start final outcome ∧
      final.lines < start.lines := by
  obtain ⟨choice, rest, haccepted, hname⟩ := h
  obtain ⟨middle, hctx, hconsole, hmenu⟩ :=
    (prompts_clientMenuMain crypto network).settles haccepted
  rw [← hctx, ← hconsole] at hname
  obtain ⟨final, outcome, hchoice⟩ := ends_choice hname
  refine ⟨final, outcome, hmenu.bind hchoice, hchoice.moves.1.trans_lt ?_⟩
  show middle.lines < start.lines
  rw [Online.lines, hconsole]
  exact firstAccepted_length haccepted

/-- A pass from any other state asks without end. -/
theorem endless_mainPass (h : ¬Answerable start) :
    Endless (console crypto network) mainPass start := by
  have hprompts := prompts_clientMenuMain crypto network
  cases haccepted : firstAccepted menuOption start.client.console with
  | none => exact (hprompts.endless haccepted).bind
  | some found =>
    obtain ⟨choice, rest⟩ := found
    obtain ⟨middle, hctx, hconsole, hmenu⟩ := hprompts.settles haccepted
    obtain ⟨hasks, hname⟩ : Asks start.client.ctx choice ∧ acceptedName rest = none := by
      by_contra hsome
      refine h ⟨choice, rest, haccepted, fun hasks ↦ ?_⟩
      rw [Option.isSome_iff_ne_none]
      exact fun hnone ↦ hsome ⟨hasks, hnone⟩
    rw [← hctx] at hasks
    rw [← hconsole] at hname
    have hexit : choice ≠ exitChoice := by
      rintro rfl
      simp [Asks] at hasks
    refine Endless.after hmenu ?_
    simp only [if_neg hexit]
    exact (endless_handleMenuChoice hasks hname).bind.bind

/-- The loop of `main` stops if it comes to the menu in answerable states only. -/
theorem ends_mainLoop (h : ∀ state, Reaches crypto network start state → Answerable state) :
    ∃ final outcome, ∀ rounds passes, start.lines < rounds → start.lines < passes →
      (mainLoop rounds passes).exec crypto network start = (final, outcome) := by
  obtain ⟨bound, hbound⟩ : ∃ bound, start.lines < bound := ⟨_, Nat.lt_succ_self _⟩
  induction bound generalizing start with
  | zero => exact absurd hbound (Nat.not_lt_zero _)
  | succ bound ih =>
    obtain ⟨middle, outcome, hpass, hfewer⟩ := (h start (.refl start)).settles
    have hround (rounds passes : ℕ) (hrounds : start.lines < rounds) :
        (mainLoop rounds (passes + 1)).exec crypto network start =
          Loop.exec crypto network (proceed (fun again ↦
            if again then mainLoop rounds passes else pure ()) outcome) middle := by
      rw [mainLoop, Loop.exec_bind, settles_iff.mp hpass rounds hrounds]
    have hlast {again : Except CppError Bool} (hagain : again ≠ .ok true) :
        ∃ final outcome, ∀ rounds passes, Loop.exec crypto network (proceed (fun again ↦
          if again then mainLoop rounds passes else pure ()) again) middle = (final, outcome) := by
      cases again with
      | error exception => exact ⟨_, _, fun _ _ ↦ rfl⟩
      | ok value =>
        cases value with
        | true => exact absurd rfl hagain
        | false => exact ⟨_, _, fun _ _ ↦ rfl⟩
    by_cases hagain : outcome = .ok true
    · subst hagain
      have hpassed : (mainPass (start.lines + 1)).exec crypto network start = (middle, .ok true) :=
        hpass _ (Nat.lt_succ_self _)
      obtain ⟨final, last, hrest⟩ := ih (fun state hstate ↦ h state (.pass hpassed hstate))
        (by omega)
      refine ⟨final, last, fun rounds passes hrounds hpasses ↦ ?_⟩
      obtain ⟨fewer, rfl⟩ := Nat.exists_eq_succ_of_ne_zero (Nat.ne_zero_of_lt hpasses)
      rw [hround rounds fewer hrounds]
      exact hrest rounds fewer (by omega) (by omega)
    · obtain ⟨final, last, hend⟩ := hlast hagain
      refine ⟨final, last, fun rounds passes hrounds hpasses ↦ ?_⟩
      obtain ⟨fewer, rfl⟩ := Nat.exists_eq_succ_of_ne_zero (Nat.ne_zero_of_lt hpasses)
      rw [hround rounds fewer hrounds, hend]

/-- The loop of `main` goes on from every state that it comes to. -/
theorem Reaches.exec (h : Reaches crypto network start final) :
    final.lines ≤ start.lines ∧ ∃ count, ∀ rounds passes, start.lines < rounds →
      (mainLoop rounds (count + passes)).exec crypto network start =
        (mainLoop rounds passes).exec crypto network final := by
  induction h with
  | refl state => exact ⟨le_rfl, 0, fun rounds passes _ ↦ by rw [Nat.zero_add]⟩
  | @pass start middle final hpass hrest ih =>
    have hanswerable : Answerable start := by
      by_contra hnone
      have hendless : Endless (console crypto network) mainPass start := endless_mainPass hnone
      have houtcome := (endless_iff.mp hendless (start.lines + 1) (Nat.lt_succ_self _)).1
      rw [hpass] at houtcome
      cases houtcome
    obtain ⟨other, outcome, hsettles, hfewer⟩ := hanswerable.settles
    have hsame := (hsettles (start.lines + 1) (Nat.lt_succ_self _)).symm.trans hpass
    obtain ⟨rfl, rfl⟩ := Prod.mk.inj hsame
    obtain ⟨hlines, count, hcount⟩ := ih
    refine ⟨by omega, count + 1, fun rounds passes hrounds ↦ ?_⟩
    rw [Nat.add_right_comm, mainLoop, Loop.exec_bind,
      settles_iff.mp hsettles rounds hrounds, proceed_ok]
    exact hcount rounds passes (by omega)

/-- The loop of `main` does not stop if it comes to a state that is not answerable. -/
theorem not_stops_mainLoop (h : Reaches crypto network start final) (hnone : ¬Answerable final) :
    ¬Stops (console crypto network) (fun rounds ↦ mainLoop rounds rounds) start := by
  intro hstops
  obtain ⟨bound, hbound⟩ := hstops.reads
  obtain ⟨hlines, count, hcount⟩ := h.exec
  have hfew : ((mainLoop (count + (start.lines + bound + 1))
      (count + (start.lines + bound + 1))).exec crypto network start).1.reads ≤ bound :=
    hbound (count + (start.lines + bound + 1))
  rw [hcount _ _ (by omega)] at hfew
  have hpass : Endless (console crypto network)
      (fun rounds ↦ mainLoop rounds (start.lines + bound + 1)) final :=
    (endless_mainPass hnone).bind
  have hmany : final.reads + (count + (start.lines + bound + 1)) ≤ ((mainLoop
      (count + (start.lines + bound + 1)) (start.lines + bound + 1)).exec crypto network
        final).1.reads :=
    (endless_iff.mp hpass (count + (start.lines + bound + 1)) (by omega)).2
  omega

end Main

/-- When the loops on the console stop. The menu stops exactly if some line is a choice of the menu,
and the prompt for a name exactly if some line is a name that it accepts; the loop over the lines of
a message stops always. The loop of `main` stops exactly if it comes to the menu in answerable
states only. -/
theorem console_loops_stop_iff (crypto : Crypto) (network : Network) (start : Online) :
    (Stops (console crypto network) (fun rounds ↦ here (clientMenuMain rounds)) start ↔
        (firstAccepted menuOption start.client.console).isSome) ∧
      (∀ prompt,
        Stops (console crypto network) (fun rounds ↦ here (getValidUsername prompt rounds)) start ↔
          (acceptedName start.client.console).isSome) ∧
      Stops (console crypto network) (fun rounds ↦ here (readMessage rounds [])) start ∧
      (Stops (console crypto network) (fun rounds ↦ mainLoop rounds rounds) start ↔
        ∀ state, Reaches crypto network start state → Answerable state) := by
  refine ⟨(prompts_clientMenuMain crypto network).stops_iff, fun prompt ↦ ?_,
    (ends_readMessage crypto network [] start).stops, ?_⟩
  · rw [← firstAccepted_nameOption]
    exact (prompts_getValidUsername crypto network prompt).stops_iff
  · constructor
    · intro hstops state hreaches
      by_contra hnone
      exact not_stops_mainLoop hreaches hnone hstops
    · intro hanswerable
      obtain ⟨final, outcome, hend⟩ := ends_mainLoop hanswerable
      have hends : Ends (console crypto network) (fun rounds ↦ mainLoop rounds rounds) start :=
        ⟨final, outcome, fun rounds hrounds ↦ hend rounds rounds hrounds hrounds⟩
      exact hends.stops

/-- A client whose console has ended. -/
def silent : Online where
  client := freshClient
  sent := []
  reads := 0

/-- When the console has ended, the menu and the prompt for a name ask without end. -/
theorem ended_console_endless :
    ¬∀ (crypto : Crypto) (network : Network) (start : Online),
      Stops (console crypto network) (fun rounds ↦ here (clientMenuMain rounds)) start ∧
        (∀ prompt,
          Stops (console crypto network)
            (fun rounds ↦ here (getValidUsername prompt rounds)) start) ∧
        Stops (console crypto network) (fun rounds ↦ mainLoop rounds rounds) start := by
  intro h
  obtain ⟨hmenu, -, -⟩ := h .tagged refusing silent
  exact ((prompts_clientMenuMain .tagged refusing).endless rfl).not_stops hmenu

end MessageU.Client
