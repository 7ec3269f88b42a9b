import MessageU.Client.ServerInfo

/-!
# The start of the client

What `main` does before its threads run: `loadMyInfo`, which fills the context from `my.info.txt`,
and the constructor of `ClientConnection`, which reads `server.info.txt` and connects. A missing or
invalid `my.info.txt` is reported and leaves the context as it was constructed; everything else that
goes wrong throws, so that `main` reports a fatal error before there is a second thread.

`startUp_eq_ok_iff` says when the client comes to its menu and with which context.
-/

set_option autoImplicit false
set_option relaxedAutoImplicit false

namespace MessageU.Client

open Library

/-! ### What the client finds -/

/-- `MAX_PATH`. -/
@[simp] abbrev maxPath : ℕ := 260

/-- What `main` finds when it starts. -/
structure Installation where
  /-- What `GetModuleFileNameA` returns. -/
  pathLength : ℕ
  myInfo : Option Bytes
  serverInfo : Option Bytes
  /-- Resolving the address and connecting to it, or the text of what they throw. -/
  connect : Bytes → ℕ → Except String Unit

/-- What is printed at the start. -/
inductive StartOutput
  | line (output : Output)
  /-- `Welcome back ...` -/
  | welcomeBack (name : Bytes)
  /-- `Trying to connect to: <address>:<port>` -/
  | tryingToConnect (address : Bytes) (port : ℕ)

/-! ### The functions -/

/-- `getExecutableDirectory`. -/
def getExecutableDirectory (pathLength : ℕ) : Except CppError Unit :=
  if pathLength = 0 ∨ pathLength = maxPath then
    .error (.runtimeError "Failed to get executable path.")
  else .ok ()

/-- `loadMyInfo`, with `Base64Wrapper::decode` as a parameter. -/
def loadMyInfo (decode : Bytes → Except CppError Bytes) (installation : Installation)
    (ctx : ClientContext) : List StartOutput × Except CppError ClientContext :=
  match getExecutableDirectory installation.pathLength with
  | .error exception => ([], .error exception)
  | .ok _ =>
    match installation.myInfo with
    | none =>
      ([.line (.text "my.info file was not found, please register (110) before any use.\n")],
        .ok ctx)
    | some file =>
      let load := validateAndLoadMyInfo decode file ctx
      if load.accepted then (load.greeted.toList.map .welcomeBack, .ok load.ctx)
      else ([.line (.text "my.info is invalid, please use register (110).\n")], .ok load.ctx)

/-- `ClientConnection::ClientConnection`. -/
def clientConnection (installation : Installation) : List StartOutput × Except CppError Unit :=
  match getExecutableDirectory installation.pathLength with
  | .error exception => ([], .error exception)
  | .ok _ =>
    match loadServerInfo installation.serverInfo with
    | .error exception => ([], .error exception)
    | .ok (address, port, printed) =>
      if address = [] ∨ port = 0 then
        (printed.map .line, .error (.runtimeError "Failed to load server.info.txt."))
      else
        let trying := printed.map .line ++ [.tryingToConnect address port]
        match installation.connect address port with
        | .error what => (trying, .error (.runtimeError ("Failed to connect to server: " ++ what)))
        | .ok _ => (trying ++ [.line (.text "Connected to server\n")], .ok ())

/-- `main` up to the start of the pull thread: what is printed, and the context or a fatal error. -/
def startUp (decode : Bytes → Except CppError Bytes) (installation : Installation) :
    List StartOutput × Except CppError ClientContext :=
  let loaded := loadMyInfo decode installation .empty
  match loaded.2 with
  | .error exception => (loaded.1, .error exception)
  | .ok ctx =>
    let connected := clientConnection installation
    (loaded.1 ++ connected.1, connected.2.map fun _ ↦ ctx)

/-- The context that a file leaves. -/
def loadedContext (decode : Bytes → Except CppError Bytes) (myInfo : Option Bytes) :
    ClientContext :=
  match myInfo with
  | none => .empty
  | some file => (validateAndLoadMyInfo decode file .empty).ctx

/-! ### When it comes to the menu -/

section StartUp

variable {decode : Bytes → Except CppError Bytes} {installation : Installation}

/-- The path of the executable is known. -/
def Installation.Located (installation : Installation) : Prop :=
  installation.pathLength ≠ 0 ∧ installation.pathLength ≠ maxPath

/-- There is a server in `server.info.txt`, and it can be reached. -/
def Installation.Reachable (installation : Installation) : Prop :=
  ∃ file address port, installation.serverInfo = some file ∧ ServerInfoFile file address port ∧
    installation.connect address port = .ok ()

theorem getExecutableDirectory_cases (installation : Installation) :
    (installation.Located ∧ getExecutableDirectory installation.pathLength = .ok ()) ∨
      (¬installation.Located ∧ getExecutableDirectory installation.pathLength =
        .error (.runtimeError "Failed to get executable path.")) := by
  by_cases hlocated : installation.Located
  · exact .inl ⟨hlocated, if_neg (not_or.mpr hlocated)⟩
  · exact .inr ⟨hlocated, if_pos (by
      rw [Installation.Located, not_and_or, not_not, not_not] at hlocated
      exact hlocated)⟩

theorem loadMyInfo_snd (decode : Bytes → Except CppError Bytes)
    (hlocated : getExecutableDirectory installation.pathLength = .ok ()) :
    (loadMyInfo decode installation .empty).2 = .ok (loadedContext decode installation.myInfo) := by
  rw [loadMyInfo, hlocated]
  cases installation.myInfo with
  | none => rfl
  | some file =>
    dsimp only
    split_ifs <;> rfl

/-- A dotted quad is not empty, and a port not zero. -/
theorem ServerInfoFile.usable {file address : Bytes} {port : ℕ}
    (h : ServerInfoFile file address port) : ¬(address = [] ∨ port = 0) := by
  obtain ⟨⟨a, b, c, d, -, rfl⟩, text, hport, -⟩ := h
  have hrange := hport.range
  simp only [List.append_eq_nil_iff, reduceCtorEq, and_false, false_or]
  omega

/-- The file determines its address and its port. -/
theorem ServerInfoFile.load {file address : Bytes} {port : ℕ}
    (h : ServerInfoFile file address port) :
    loadServerInfo (some file) = .ok (address, port, []) := by
  obtain ⟨text, hport, hline⟩ := getline_of_file h
  rw [loadServerInfo, validate_accepts hline h.1 hport]
  rfl

/-- It connects exactly to a server that can be reached. -/
theorem clientConnection_eq_ok_iff
    (hlocated : getExecutableDirectory installation.pathLength = .ok ()) :
    (clientConnection installation).2 = .ok () ↔ installation.Reachable := by
  rw [clientConnection, hlocated]
  dsimp only
  cases hinfo : installation.serverInfo with
  | none =>
    constructor
    · intro hok
      cases hok
    · rintro ⟨file, address, port, hfile, -⟩
      rw [hinfo] at hfile
      cases hfile
  | some file =>
    constructor
    · intro hok
      rcases loadServerInfo_cases file with ⟨address, port, hfile, hload⟩ | hload
      · rw [hload] at hok
        dsimp only at hok
        rw [if_neg hfile.usable] at hok
        cases hconnect : installation.connect address port with
        | error what =>
          rw [hconnect] at hok
          cases hok
        | ok value => exact ⟨file, address, port, hinfo, hfile, hconnect⟩
      · rw [hload] at hok
        cases hok
    · rintro ⟨other, address, port, hother, hfile, hconnect⟩
      rw [hinfo] at hother
      cases hother
      rw [hfile.load]
      dsimp only
      rw [if_neg hfile.usable, hconnect]

/-- The client comes to its menu exactly if the path of the executable is known, `server.info.txt`
names a server and the server can be reached; its context is then the one of an accepted
`my.info.txt`, and the one of a new client without. Otherwise what was wrong is reported as a fatal
error. -/
theorem startUp_eq_ok_iff (decode : Bytes → Except CppError Bytes) (installation : Installation)
    (ctx : ClientContext) :
    (startUp decode installation).2 = .ok ctx ↔
      installation.Located ∧ installation.Reachable ∧
        ctx = loadedContext decode installation.myInfo := by
  rw [startUp]
  rcases getExecutableDirectory_cases installation with ⟨hlocated, hfound⟩ | ⟨hlost, hthrows⟩
  · dsimp only
    rw [loadMyInfo_snd decode hfound]
    dsimp only
    have hconnected := clientConnection_eq_ok_iff hfound
    cases hconnection : (clientConnection installation).2 with
    | error exception =>
      rw [hconnection] at hconnected
      constructor
      · intro hok
        cases hok
      · rintro ⟨-, hreachable, -⟩
        cases hconnected.mpr hreachable
    | ok value =>
      rw [hconnection] at hconnected
      constructor
      · intro hok
        exact ⟨hlocated, hconnected.mp rfl, (Except.ok.inj hok).symm⟩
      · rintro ⟨-, -, rfl⟩
        rfl
  · rw [loadMyInfo, hthrows]
    constructor
    · intro hok
      cases hok
    · rintro ⟨hlocated, -⟩
      exact absurd hlocated hlost

end StartUp

end MessageU.Client
