import MessageU.Client.Replies
import MessageU.System.Threads

/-!
# The names in the cache over a run

`responsePublicKey` and `handleSymmetricKeyMessage` look for an entry and, when there is none,
create one with an empty name. The creation is a call of its own. If the other thread names the
entry between the lookup and the creation, the name is lost (`learned_name_erased`).

`Undisturbed` excludes exactly this step. A program creates an entry with an empty name only
directly behind a lookup that has failed (`Checked`), so that in a run without such a step the entry
has no name when it happens (`NamesSound`), and a name that has been learned stays (`names_kept`).
-/

set_option autoImplicit false
set_option relaxedAutoImplicit false

namespace MessageU.System

open Library Client Interaction

/-! ### Names and the calls that write them -/

/-- The entry of an ID has a name. -/
def Named (ctx : ClientContext) (uuid : ClientId) : Prop :=
  ∃ entry, ctx.tryGetFriendCopy uuid = some entry ∧ entry.friendName ≠ []

/-- The IDs that have a name keep one. -/
def KeepsNames (before after : ClientContext) : Prop :=
  ∀ uuid, Named before uuid → Named after uuid

/-- Every entry of a client list has a name. -/
def NamesEntries (response : Bytes) : Prop :=
  codeOf response = responseClientListCode →
    ∀ count, headerSize + count * (clientIdSize + nameSize) < response.length →
      entryName response (headerSize + count * (clientIdSize + nameSize)) ≠ []

/-- The ID whose entry a call gives a name. -/
def naming : LoopCall → Option ClientId
  | .method (.setFriendBase uuid friendName) => if friendName = [] then none else some uuid
  | _ => none

/-- The ID whose entry a call leaves without a name. -/
def blanking : LoopCall → Option ClientId
  | .method (.setFriendBase uuid friendName) => if friendName = [] then some uuid else none
  | _ => none

/-- The other thread. -/
def Thread.other : Thread → Thread
  | .main => .pull
  | .pull => .main

/-- A response of the server names the entries of a client list. -/
def ListsNames (_ : Threads) : ThreadEvent → Prop
  | .act _ (.ok response) => NamesEntries response
  | .act _ (.error _) | .choose .. | .wake => True

/-- A thread does not name an entry while the other one, which has not found it, is about to create
it with an empty name. -/
def Undisturbed (threads : Threads) : ThreadEvent → Prop
  | .act thread _ =>
    (threads.nextCall thread).bind naming = none ∨
      (threads.nextCall thread).bind naming ≠ (threads.nextCall thread.other).bind blanking
  | .choose .. | .wake => True

instance (threads : Threads) : DecidablePred (Undisturbed threads)
  | .act .. => instDecidableOr
  | .choose .. | .wake => isTrue trivial

/-- A call keeps names unless it leaves an entry without one that had one. -/
theorem keepsNames_exec (crypto : Crypto) (state : ClientState) (call : ClientCall)
    (hblank : ∀ uuid, blanking (.method call) = some uuid → ¬Named state.ctx uuid) :
    KeepsNames state.ctx (call.exec crypto state).1.ctx := by
  rintro uuid ⟨entry, hentry, hname⟩
  cases call with
  | setFriendBase other friendName =>
    rw [Named]
    simp only [ClientCall.exec, ClientContext.tryGetFriendCopy_setFriendBase]
    split_ifs with hsame
    · subst hsame
      refine ⟨_, rfl, fun hempty ↦ hblank other ?_ ⟨entry, hentry, hname⟩⟩
      simp only [blanking]
      rw [if_pos hempty]
    · exact ⟨entry, hentry, hname⟩
  | setFriendPublicKey other pubKey =>
    rw [Named]
    simp only [ClientCall.exec, ClientContext.tryGetFriendCopy_setFriendPublicKey]
    split_ifs
    · exact ⟨_, Option.map_eq_some_iff.mpr ⟨entry, hentry, rfl⟩, hname⟩
    · exact ⟨entry, hentry, hname⟩
  | setFriendSymmetricKey other symKey =>
    rw [Named]
    simp only [ClientCall.exec, ClientContext.tryGetFriendCopy_setFriendSymmetricKey]
    split_ifs
    · exact ⟨_, Option.map_eq_some_iff.mpr ⟨entry, hentry, rfl⟩, hname⟩
    · exact ⟨entry, hentry, hname⟩
  | _ => exact ⟨entry, hentry, hname⟩

/-- A call that gives no name leaves an entry without a name. -/
theorem not_named_exec (crypto : Crypto) (state : ClientState) (call : ClientCall) {uuid : ClientId}
    (hnaming : naming (.method call) ≠ some uuid) (hnot : ¬Named state.ctx uuid) :
    ¬Named (call.exec crypto state).1.ctx uuid := by
  rintro ⟨entry, hentry, hname⟩
  cases call with
  | setFriendBase other friendName =>
    simp only [ClientCall.exec, ClientContext.tryGetFriendCopy_setFriendBase] at hentry
    split_ifs at hentry with hsame
    · subst hsame
      refine hnaming (if_neg fun hempty ↦ hname ?_)
      rw [← Option.some.inj hentry]
      exact hempty
    · exact hnot ⟨entry, hentry, hname⟩
  | setFriendPublicKey other pubKey =>
    simp only [ClientCall.exec, ClientContext.tryGetFriendCopy_setFriendPublicKey] at hentry
    split_ifs at hentry
    · obtain ⟨earlier, hearlier, rfl⟩ := Option.map_eq_some_iff.mp hentry
      exact hnot ⟨earlier, hearlier, hname⟩
    · exact hnot ⟨entry, hentry, hname⟩
  | setFriendSymmetricKey other symKey =>
    simp only [ClientCall.exec, ClientContext.tryGetFriendCopy_setFriendSymmetricKey] at hentry
    split_ifs at hentry
    · obtain ⟨earlier, hearlier, rfl⟩ := Option.map_eq_some_iff.mp hentry
      exact hnot ⟨earlier, hearlier, hname⟩
    · exact hnot ⟨entry, hentry, hname⟩
  | _ => exact hnot ⟨entry, hentry, hname⟩

/-! ### Entries are created behind a failed lookup -/

/-- The ID that the answer of a call says has no entry. -/
def missing : (call : LoopCall) → Except CppError call.Result → Option ClientId
  | .method (.tryGetFriendCopy uuid), .ok none => some uuid
  | _, _ => none

/-- An exchange is answered with names, if it is answered with a client list. -/
def Expected : (call : LoopCall) → Except CppError call.Result → Prop
  | .sendAndReceive _, .ok response => NamesEntries response
  | _, _ => True

/-- A program leaves an entry without a name only directly behind a lookup that has not found it. -/
def Checked {α : Type} : Option ClientId → Loop α → Prop
  | _, .finished _ => True
  | absent, .request call resume =>
    (∀ uuid, blanking call = some uuid → absent = some uuid) ∧
      ∀ answer, Expected call answer → Checked (missing call answer) (resume answer)

section Checked

variable {α β : Type}

/-- A program that is right without a lookup is right behind one. -/
theorem Checked.behind {program : Loop α} (h : Checked none program) (absent : Option ClientId) :
    Checked absent program := by
  cases program with
  | finished outcome => trivial
  | request call resume =>
    refine ⟨fun uuid huuid ↦ ?_, h.2⟩
    have hnone := h.1 uuid huuid
    cases hnone

theorem Checked.attempt {absent : Option ClientId} {program : Loop α}
    {next : Except CppError α → Loop β} (h : Checked absent program)
    (hnext : ∀ outcome, Checked none (next outcome)) : Checked absent (program.attempt next) := by
  induction program generalizing absent with
  | finished outcome => exact (hnext outcome).behind absent
  | request call resume ih =>
    exact ⟨h.1, fun answer hanswer ↦ ih answer (h.2 answer hanswer)⟩

/-- A sequence of two programs. -/
theorem Checked.bind {absent : Option ClientId} {program : Loop α} {next : α → Loop β}
    (h : Checked absent program) (hnext : ∀ value, Checked none (next value)) :
    Checked absent (program >>= next) := by
  refine h.attempt fun outcome ↦ ?_
  cases outcome with
  | ok value => exact hnext value
  | error exception => trivial

/-- A function that leaves no entry without a name. -/
theorem checked_of_within {program : Program α}
    (h : program.Within fun call ↦ blanking (.method call) = none) (absent : Option ClientId) :
    Checked absent (here program) := by
  induction program generalizing absent with
  | finished outcome => trivial
  | request call resume ih =>
    refine ⟨fun uuid huuid ↦ ?_, fun answer _ ↦ ih answer (h.2 answer) _⟩
    rw [h.1] at huuid
    cases huuid

theorem keepsFriends_blanking {call : ClientCall} (h : call.KeepsFriends) :
    blanking (.method call) = none := by
  cases call <;> first | exact h.elim | rfl

/-- A function that leaves the cache alone. -/
theorem checked_of_keepsFriends {program : Program α} (h : program.Within ClientCall.KeepsFriends) :
    Checked none (here program) :=
  checked_of_within (h.mono fun _ ↦ keepsFriends_blanking) none

/-- A function that reads. -/
theorem checked_of_reads {program : Program α} (h : program.Within ClientCall.Reads) :
    Checked none (here program) :=
  checked_of_keepsFriends (h.mono fun _ ↦ ClientCall.Reads.keepsFriends)

/-- A function that looks at the context and prints. -/
theorem checked_of_looks {program : Program α} (h : program.Within ClientCall.Looks) :
    Checked none (here program) :=
  checked_of_reads (h.mono fun _ ↦ ClientCall.Looks.reads)

/-- A function that sets a key of an entry. -/
theorem checked_call {call : ClientCall} (h : blanking (.method call) = none) :
    Checked none (here (ask call)) :=
  checked_of_within (within_call h) none

theorem checked_ensureFriend (id : ClientId) : Checked none (here (ensureFriend id)) := by
  refine ⟨nofun, fun answer _ ↦ ?_⟩
  cases answer with
  | error exception => trivial
  | ok entry =>
    cases entry with
    | none =>
      refine ⟨fun uuid huuid ↦ ?_, fun _ _ ↦ trivial⟩
      exact huuid
    | some entry => trivial

theorem checked_handleSymmetricKeyMessage (fromId : ClientId) (content rsaPriv : Bytes) :
    Checked none (here (handleSymmetricKeyMessage fromId content rsaPriv)) := by
  rw [handleSymmetricKeyMessage, Interaction.rescue, here, expand_attempt]
  refine Checked.attempt ?_ fun outcome ↦ ?_
  · change Checked none (here (_ >>= _))
    rw [here_bind]
    refine (checked_call rfl).bind fun symKeyBin ↦ ?_
    split_ifs
    · rw [here_bind]
      refine (checked_ensureFriend fromId).bind fun _ ↦ ?_
      rw [here_bind]
      exact (checked_call rfl).bind fun _ ↦ checked_call rfl
    · exact checked_call rfl
  · cases outcome with
    | ok value => trivial
    | error exception => exact checked_call rfl

theorem checked_handleRecord (fromId : ClientId) (msgType : ℕ) (content rsaPriv : Bytes) :
    Checked none (here (handleRecord fromId msgType content rsaPriv)) := by
  rw [handleRecord, here_bind]
  refine (checked_call rfl).bind fun entry ↦ ?_
  rw [here_bind]
  refine (checked_call rfl).bind fun _ ↦ ?_
  rw [here_bind]
  refine (checked_call rfl).bind fun _ ↦ ?_
  split_ifs
  · rw [here_bind]
    exact (checked_call rfl).bind fun _ ↦ checked_call rfl
  · rw [here_bind]
    exact (checked_handleSymmetricKeyMessage fromId content rsaPriv).bind fun _ ↦ checked_call rfl
  · rw [here_bind]
    exact (checked_of_looks (within_handleTextMessage fromId content)).bind fun _ ↦ checked_call rfl
  · rw [here_bind]
    exact (checked_call rfl).bind fun _ ↦ checked_call rfl

theorem checked_waitingLoop (data rsaPriv : Bytes) (rounds offset : ℕ) :
    Checked none (here (waitingLoop data rsaPriv rounds offset)) := by
  induction rounds generalizing offset with
  | zero => trivial
  | succ rounds ih =>
    rw [waitingLoop]
    split_ifs
    · trivial
    · rw [here_bind]
      refine (checked_of_reads (within_finished _)).bind fun fromId ↦ ?_
      rw [here_bind]
      refine (checked_of_reads (within_finished _)).bind fun size ↦ ?_
      split_ifs
      · trivial
      · rw [here_bind]
        exact (checked_handleRecord fromId _ _ rsaPriv).bind fun _ ↦ ih _
    · trivial

theorem checked_responsePublicKey (data : Bytes) :
    Checked none (here (responsePublicKey data)) := by
  unfold responsePublicKey
  split_ifs
  · rw [here_bind]
    refine (checked_of_reads (within_finished _)).bind fun uuid ↦ ?_
    rw [here_bind]
    refine (checked_ensureFriend uuid).bind fun _ ↦ ?_
    rw [here_bind]
    refine (checked_call rfl).bind fun _ ↦ ?_
    rw [here_bind]
    exact (checked_call rfl).bind fun _ ↦ checked_call rfl
  · trivial

theorem checked_responseWaitingMessages (data : Bytes) :
    Checked none (here (responseWaitingMessages data)) := by
  unfold responseWaitingMessages
  split_ifs
  · exact checked_call rfl
  · rw [here_bind]
    refine (checked_call rfl).bind fun privateKey ↦ ?_
    rw [here_bind]
    exact (checked_call rfl).bind fun _ ↦ checked_waitingLoop data privateKey _ _

/-- Assumes: the response names the entries of a client list. -/
theorem checked_responseClientMain {data : Bytes} (hnames : NamesEntries data) :
    Checked none (here (responseClientMain data)) := by
  unfold responseClientMain
  split_ifs with hshort hregister hlist
  · trivial
  · exact checked_of_keepsFriends (within_responseRegister data)
  · refine checked_of_within (within_responseClientList
      (fun _ ↦ rfl) fun uuid count hmore ↦ ?_) none
    exact if_neg (hnames hlist count hmore)
  · exact checked_responsePublicKey data
  · exact checked_of_looks (within_responseMessageSent data)
  · exact checked_responseWaitingMessages data
  · exact checked_call rfl
  · exact checked_call rfl

theorem checked_handleSendSymmetricKey (target : ClientId) :
    Checked none (here (handleSendSymmetricKey target)) := by
  refine checked_of_within (within_ask.mpr ⟨rfl, fun entry ↦ ?_⟩) none
  cases entry.bind Friend.publicKey with
  | none => exact within_ask.mpr ⟨rfl, fun _ ↦ within_pure _⟩
  | some publicKey =>
    refine within_ask.mpr ⟨rfl, fun symKey ↦ within_ask.mpr ⟨rfl, fun _ ↦ ?_⟩⟩
    exact within_ask.mpr ⟨rfl, fun _ ↦ within_call rfl⟩

theorem checked_handleAllMessages (rounds choice : ℕ) :
    Checked none (here (handleAllMessages rounds choice)) := by
  have hcontent : ∀ payload content, Checked none (here (if content = [] then pure []
      else sendContent payload content : Program Bytes)) := by
    intro payload content
    split_ifs
    · trivial
    · exact checked_of_reads (within_sendContent payload content)
  rw [handleAllMessages, here_bind]
  refine (checked_of_reads (within_getValidUsername _ rounds)).bind fun name ↦ ?_
  by_cases hzero : name = zeroName
  · rw [if_pos hzero]
    trivial
  rw [if_neg hzero, here_bind]
  refine (checked_call rfl).bind fun found ↦ ?_
  cases found with
  | none =>
    dsimp only
    rw [here_bind]
    exact (checked_call rfl).bind fun _ ↦ trivial
  | some target =>
    dsimp only
    split_ifs
    · rw [here_bind]
      exact (checked_of_reads (within_handleSendText rounds target)).bind (hcontent _)
    · exact checked_of_reads (within_sendContent _ _)
    · rw [here_bind]
      exact (checked_handleSendSymmetricKey target).bind (hcontent _)
    · exact checked_of_reads (within_sendContent _ _)

theorem checked_handleMenuChoice (rounds choice : ℕ) :
    Checked none (here (handleMenuChoice rounds choice)) := by
  unfold handleMenuChoice
  split_ifs
  · exact checked_of_keepsFriends (within_handleRegister rounds)
  · exact checked_of_reads within_handleClientList
  · exact checked_of_reads (within_handlePublicKey rounds)
  · exact checked_of_reads within_handleWaitingMessages
  · exact checked_handleAllMessages rounds _
  · exact checked_handleAllMessages rounds _
  · exact checked_handleAllMessages rounds _
  · trivial

theorem checked_mainTurn (rounds choice : ℕ) : Checked none (mainTurn rounds choice) := by
  refine (checked_handleMenuChoice rounds choice).bind fun data ↦ ?_
  split_ifs
  · trivial
  · refine ⟨nofun, fun answer hanswer ↦ ?_⟩
    cases answer with
    | error exception => trivial
    | ok buffer => exact checked_responseClientMain hanswer

theorem checked_pullTurn : Checked none pullTurn := by
  refine (checked_call rfl).bind fun registered ↦ ?_
  split_ifs
  · trivial
  refine Checked.attempt ?_ fun outcome ↦ ?_
  · refine (checked_call rfl).bind fun id ↦ ⟨nofun, fun answer hanswer ↦ ?_⟩
    cases answer with
    | error exception => trivial
    | ok buffer =>
      change Checked none (here (ask (.print _)) >>= fun _ ↦ here (responseClientMain buffer))
      exact (checked_call rfl).bind fun _ ↦ checked_responseClientMain hanswer
  · cases outcome <;> trivial

end Checked

/-! ### Runs of the two threads -/

/-- What holds at every moment of a run without a disturbed creation. -/
structure NamesSound (threads : Threads) : Prop where
  checked : ∀ thread, ∃ absent, Checked absent (threads.rest thread)
  pending : ∀ thread uuid, (threads.nextCall thread).bind blanking = some uuid →
    ¬Named threads.ctx uuid

theorem namesSound_start (client : ClientState) : NamesSound (.start client) where
  checked := fun _ ↦ ⟨none, trivial⟩
  pending := fun _ _ h ↦ by cases h

/-- A program at its first call. Assumes: a lookup that the program relies on has found no name. -/
theorem not_named_of_checked {absent : Option ClientId} {program : Loop Unit} {ctx : ClientContext}
    (hprogram : Checked absent program) (habsent : ∀ uuid, absent = some uuid → ¬Named ctx uuid)
    {uuid : ClientId} (hblank : (firstCall program).bind blanking = some uuid) :
    ¬Named ctx uuid := by
  cases program with
  | finished outcome => cases hblank
  | request call resume => exact habsent uuid (hprogram.1 uuid hblank)

/-- A thread goes on with a program, in a state where what the other one is about to leave without a
name has none. -/
theorem NamesSound.launch {threads : Threads} (h : NamesSound threads) {thread : Thread}
    {shared : Shared} {absent : Option ClientId} {program : Loop Unit}
    (hprogram : Checked absent program)
    (habsent : ∀ uuid, absent = some uuid → ¬Named shared.client.ctx uuid)
    (hother : ∀ uuid, (threads.nextCall thread.other).bind blanking = some uuid →
      ¬Named shared.client.ctx uuid) :
    NamesSound (threads.launch thread shared program) where
  checked := by
    intro other
    by_cases hsame : other = thread
    · subst hsame
      exact ⟨absent, by rw [Team.launch_rest_self]; exact hprogram⟩
    · obtain ⟨otherAbsent, hchecked⟩ := h.checked other
      exact ⟨otherAbsent, by rw [Team.launch_rest_of_ne hsame]; exact hchecked⟩
  pending := by
    intro other uuid hblank
    rw [Threads.nextCall] at hblank
    by_cases hsame : other = thread
    · subst hsame
      rw [Team.launch_rest_self] at hblank
      exact not_named_of_checked hprogram habsent hblank
    · rw [Team.launch_rest_of_ne hsame] at hblank
      refine hother uuid ?_
      have hthread : thread.other = other := by
        cases thread <;> cases other <;> first | rfl | exact absurd rfl hsame
      rwa [hthread]

/-- Only a lookup says that there is no entry. -/
theorem not_named_of_missing (crypto : Crypto) (thread : Thread) (response : Except CppError Bytes)
    (shared : Shared) (call : LoopCall) {uuid : ClientId}
    (h : missing call (serve crypto thread response shared call).2 = some uuid) :
    ¬Named (serve crypto thread response shared call).1.client.ctx uuid := by
  rintro ⟨entry, hentry, -⟩
  cases call with
  | sendAndReceive data => cases h
  | method call =>
    cases call with
    | tryGetFriendCopy looked =>
      cases hlookup : shared.client.ctx.tryGetFriendCopy looked with
      | some found =>
        simp only [serve, ClientCall.exec, hlookup] at h
        cases h
      | none =>
        simp only [serve, ClientCall.exec, hlookup] at h hentry
        cases h
        rw [hlookup] at hentry
        cases hentry
    | _ => cases h

/-- An exchange is answered as the event says. -/
theorem expected_serve (crypto : Crypto) {threads : Threads} {thread : Thread}
    {response : Except CppError Bytes} (hlists : ListsNames threads (.act thread response))
    (call : LoopCall) : Expected call (serve crypto thread response threads.shared call).2 := by
  cases call with
  | method call => trivial
  | sendAndReceive data =>
    cases response with
    | ok buffer => exact hlists
    | error exception => trivial

/-- A call of a thread keeps the names, and what the threads know of them. -/
theorem NamesSound.act {crypto : Crypto} {threads : Threads} (h : NamesSound threads)
    {thread : Thread} {response : Except CppError Bytes}
    (hlists : ListsNames threads (.act thread response))
    (hundisturbed : Undisturbed threads (.act thread response)) :
    KeepsNames threads.ctx
      (threads.perform (serve crypto thread response) thread).shared.client.ctx ∧
      NamesSound (threads.perform (serve crypto thread response) thread) := by
  cases hrest : threads.rest thread with
  | finished outcome =>
    rw [Team.perform_of_finished _ hrest]
    exact ⟨fun _ ↦ id, h⟩
  | request call resume =>
    have hnext : threads.nextCall thread = some call := by
      rw [Threads.nextCall, hrest, firstCall]
    obtain ⟨absent, hchecked⟩ := h.checked thread
    rw [hrest] at hchecked
    have hresume := hchecked.2 _ (expected_serve crypto hlists call)
    rw [Team.perform_of_request _ hrest]
    refine ⟨?_, h.launch hresume (fun uuid ↦ not_named_of_missing crypto thread response _ call)
      fun uuid hblank ↦ ?_⟩
    · cases call with
      | sendAndReceive data => cases response <;> exact fun _ ↦ id
      | method call =>
        refine keepsNames_exec crypto threads.shared.client call fun uuid huuid ↦ ?_
        exact h.pending thread uuid (by rw [hnext]; exact huuid)
    · have hpending := h.pending thread.other uuid hblank
      cases call with
      | sendAndReceive data => cases response <;> exact hpending
      | method call =>
        refine not_named_exec crypto threads.shared.client call (fun hnaming ↦ ?_) hpending
        rw [Undisturbed, hnext, hblank, Option.bind_some, hnaming] at hundisturbed
        simp at hundisturbed

/-- An event keeps the names, and what the threads know of them. -/
theorem NamesSound.step {crypto : Crypto} {threads : Threads} (h : NamesSound threads)
    {event : ThreadEvent} (hlists : ListsNames threads event)
    (hundisturbed : Undisturbed threads event) :
    KeepsNames threads.ctx (threads.step crypto event).ctx ∧
      NamesSound (threads.step crypto event) := by
  refine Threads.step_cases
    (motive := fun after ↦ KeepsNames threads.ctx after.ctx ∧ NamesSound after)
    crypto threads event ⟨fun _ ↦ id, h⟩ (fun choice surroundings _ _ ↦ ?_) (fun _ _ _ ↦ ?_)
    fun thread response hevent ↦ ?_
  · exact ⟨fun _ ↦ id, h.launch (checked_mainTurn _ choice) nofun fun uuid ↦ h.pending _ uuid⟩
  · exact ⟨fun _ ↦ id, h.launch checked_pullTurn nofun fun uuid ↦ h.pending _ uuid⟩
  · subst hevent
    exact h.act hlists hundisturbed

/-- Learned names stay. Assumes: a run of the two threads in which every entry of a client list has
a name, and in which no thread names an entry while the other one is about to create it. -/
theorem names_kept (crypto : Crypto) (client : ClientState) (events more : List ThreadEvent)
    (hlists : Along (Threads.step crypto) ListsNames (.start client) (events ++ more))
    (hundisturbed : Along (Threads.step crypto) Undisturbed (.start client) (events ++ more)) :
    KeepsNames (runEvents (Threads.step crypto) (.start client) events).ctx
      (runEvents (Threads.step crypto) (.start client) (events ++ more)).ctx := by
  obtain ⟨hbefore, hafter⟩ := Along.append_iff.mp (hlists.and hundisturbed)
  have hsound : NamesSound (runEvents (Threads.step crypto) (.start client) events) :=
    hbefore.invariant (fun _ _ hguard h ↦ (h.step hguard.1 hguard.2).2) (namesSound_start client)
  have hkept : ∀ threads event, (ListsNames threads event ∧ Undisturbed threads event) →
      KeepsNames (runEvents (Threads.step crypto) (.start client) events).ctx threads.ctx ∧
        NamesSound threads → KeepsNames (runEvents (Threads.step crypto) (.start client) events).ctx
          (threads.step crypto event).ctx ∧ NamesSound (threads.step crypto event) := by
    intro threads event hguard h
    obtain ⟨hkeeps, hnext⟩ : KeepsNames threads.ctx (threads.step crypto event).ctx ∧ _ :=
      h.2.step hguard.1 hguard.2
    exact ⟨fun uuid hnamed ↦ hkeeps uuid (h.1 uuid hnamed), hnext⟩
  rw [runEvents_append]
  exact (hafter.invariant hkept ⟨fun _ ↦ id, hsound⟩).1

/-- A registered client with an empty cache. -/
def reader : ClientState where
  ctx :=
    { ClientContext.empty with
      clientID := .numbered 1
      privateKey := List.replicate 160 0 }
  console := []
  output := []
  entropy := ⟨.zero symmetricKeySize, 0⟩
  disk := ⟨.ok true, true, none⟩

/-- Another client. -/
def peer : ClientId :=
  .numbered 2

/-- A client list with the name of the other client. -/
def peerListed : Bytes :=
  (Reply.listed [(peer.val, [65])]).bytes

/-- A symmetric key of the other client. -/
def peerKey : Bytes :=
  (Reply.waiting [⟨1, peer.val, sendSymmetricKey, List.replicate 176 0⟩]).bytes

/-- So many calls of a thread, whose exchange has a response. -/
def calls (thread : Thread) (response : Bytes) (count : ℕ) : List ThreadEvent :=
  List.replicate count (.act thread (.ok response))

/-- The main thread takes a client list up to its entry. -/
def listing : List ThreadEvent :=
  .choose clientsListChoice ⟨[], ⟨.zero symmetricKeySize, 0⟩, .ok true, true⟩ ::
    calls .main peerListed 3

/-- The pull thread receives the key, looks for the sender and does not find it; the main thread
names the sender. -/
def racing : List ThreadEvent :=
  listing ++ .wake :: (calls .pull peerKey 11 ++ calls .main peerListed 1)

/-- The main thread names the sender before the pull thread receives the key. -/
def orderly : List ThreadEvent :=
  listing ++ calls .main peerListed 1 ++ .wake :: calls .pull peerKey 11

theorem namesEntries_peerListed : NamesEntries peerListed := by
  intro _ count hmore
  have hlength : peerListed.length = headerSize + (clientIdSize + nameSize) := by decide +kernel
  have hfirst : count = 0 := by
    rw [hlength] at hmore
    simp only [headerSize, clientIdSize, nameSize] at hmore
    omega
  subst hfirst
  decide +kernel

theorem namesEntries_peerKey : NamesEntries peerKey := by
  intro hcode
  have hother : codeOf peerKey = responseWaitingMessagesCode := by decide +kernel
  rw [hother] at hcode
  simp at hcode

/-- In these runs every entry of a client list has a name. -/
theorem listsNames_calls {events : List ThreadEvent}
    (h : ∀ event ∈ events, event ∈ racing ++ orderly ++ calls .pull peerKey 1) :
    Along (Threads.step .tagged) ListsNames (.start reader) events := by
  refine .of_forall fun event hevent threads ↦ ?_
  have hkinds := h event hevent
  simp only [racing, orderly, listing, calls, List.mem_append, List.mem_cons, List.mem_replicate]
    at hkinds
  have hcases : event = .act .main (.ok peerListed) ∨ event = .act .pull (.ok peerKey) ∨
      event = .wake ∨ ∃ choice surroundings, event = .choose choice surroundings := by
    rcases hkinds with (((h | h) | (h | h)) | h) | h <;> grind
  rcases hcases with rfl | rfl | rfl | ⟨choice, surroundings, rfl⟩
  · exact namesEntries_peerListed
  · exact namesEntries_peerKey
  · trivial
  · trivial

/-- A run in which a name is kept. -/
theorem names_kept_orderly :
    KeepsNames (runEvents (Threads.step .tagged) (.start reader) orderly).ctx
      (runEvents (Threads.step .tagged) (.start reader)
        (orderly ++ calls .pull peerKey 1)).ctx := by
  refine names_kept .tagged reader orderly (calls .pull peerKey 1) (listsNames_calls ?_)
    (by decide +kernel)
  intro event hevent
  rw [List.append_assoc]
  exact List.mem_append_right _ hevent

/-- A name that the main thread has learned is erased by the pull thread. -/
theorem learned_name_erased :
    ¬∀ events more, Along (Threads.step .tagged) ListsNames (.start reader) (events ++ more) →
      KeepsNames (runEvents (Threads.step .tagged) (.start reader) events).ctx
        (runEvents (Threads.step .tagged) (.start reader) (events ++ more)).ctx := by
  intro h
  have hlists : Along (Threads.step .tagged) ListsNames (.start reader)
      (racing ++ calls .pull peerKey 1) := by
    refine listsNames_calls fun event hevent ↦ ?_
    rcases List.mem_append.mp hevent with hracing | hpull
    · exact List.mem_append_left _ (List.mem_append_left _ hracing)
    · exact List.mem_append_right _ hpull
  have hlearned : ((runEvents (Threads.step .tagged) (.start reader) racing).ctx.tryGetFriendCopy
      peer).map Friend.friendName = some [65] := by decide +kernel
  have herased : ((runEvents (Threads.step .tagged) (.start reader)
      (racing ++ calls .pull peerKey 1)).ctx.tryGetFriendCopy peer).map Friend.friendName =
        some [] := by decide +kernel
  obtain ⟨entry, hentry, hname⟩ := Option.map_eq_some_iff.mp hlearned
  obtain ⟨later, hlater, hnamed⟩ := h racing _ hlists peer ⟨entry, hentry, by simp [hname]⟩
  rw [hlater] at herased
  exact hnamed (Option.some.inj herased)

end MessageU.System
