import MessageU.Client.Connection
import MessageU.Library.EventRun
import MessageU.Server.HandleClient

/-!
# Two threads on one connection

The main thread and the pull thread of a client share one `ClientConnection`. A call of
`sendAndReceive` holds `_connMutex` from its start to its end, normal or not, and the server answers
every complete request with one frame, in order. `Channel` is the connection: the bytes that are
under way in either direction, the call that holds the mutex, and logs of what was sent, answered
and returned. A call proceeds one operation at a time, and every operation may throw, after any part
of its bytes.

Between two calls no byte may be under way (`Quiet`). A call that throws behind its request and
before the last byte of its response breaks this: the next caller finds the rest of an old response
in front of its own, as in `late_failure_mismatches`. `Orderly` excludes exactly these steps, and in
a run without them every buffer that is returned is the response to the request of the same call
(`responses_matched`), by an invariant that follows a call from operation to operation (`Position`).
-/

set_option autoImplicit false
set_option relaxedAutoImplicit false

namespace MessageU.System

open Library Client

/-! ### The connection -/

/-- The threads of a client. -/
inductive Thread
  | main
  | pull
  deriving DecidableEq, Repr

/-- A request with the length that its header declares. -/
abbrev RequestFrame := { bytes : Bytes // Server.IsFrame bytes }

/-- A call of `sendAndReceive` that holds the mutex, with the number of requests that were sent
before it and what it still has to do. -/
structure Running where
  thread : Thread
  request : RequestFrame
  number : ℕ
  rest : Exchange Bytes

/-- A buffer that a call has returned. -/
structure Delivery where
  thread : Thread
  request : Bytes
  number : ℕ
  buffer : Bytes

/-- The connection. -/
structure Channel where
  /-- The bytes that the client has written and the server has not taken. -/
  upstream : Bytes
  /-- The bytes that the server has sent and the client has not read. -/
  downstream : Bytes
  /-- The call that holds `_connMutex`. -/
  holder : Option Running
  /-- An exception has ended the loop of the main thread. -/
  mainEnded : Bool
  /-- The requests that have been written whole. -/
  sent : List Bytes
  /-- The requests that the server has taken, with its responses. -/
  answered : List (Bytes × Bytes)
  /-- What the calls have returned. -/
  returned : List Delivery

/-- A connection that has just been made. -/
def Channel.connected : Channel where
  upstream := []
  downstream := []
  holder := none
  mainEnded := false
  sent := []
  answered := []
  returned := []

/-- How an operation comes out: it completes, or it throws after so many bytes. -/
inductive Outcome
  | completes
  | throws (bytes : ℕ)
  deriving DecidableEq, Repr

/-- What can happen. -/
inductive Event
  /-- A thread takes the mutex to send a request. -/
  | call (thread : Thread) (request : RequestFrame)
  /-- The call that holds the mutex makes its next operation. -/
  | proceed (outcome : Outcome)
  /-- The server takes a request and sends a response. -/
  | answer (response : ResponseFrame)

namespace Channel

/-- An operation of a call. A read that completes waits for all its bytes. -/
def perform (channel : Channel) :
    (call : ConnectionCall) → Outcome → Option (Channel × Except ConnectionError call.Result)
  | .write data, .completes =>
    some ({ channel with
      upstream := channel.upstream ++ data
      sent := channel.sent ++ [data] }, .ok ())
  | .write data, .throws bytes =>
    some ({ channel with
      upstream := channel.upstream ++ data.take bytes
      sent := if data.length ≤ bytes then channel.sent ++ [data] else channel.sent },
      .error .systemError)
  | .allocate _, .completes | .insert _, .completes => some (channel, .ok ())
  | .allocate _, .throws _ | .insert _, .throws _ => some (channel, .error .badAlloc)
  | .read size, .completes =>
    if size ≤ channel.downstream.length then
      some ({ channel with downstream := channel.downstream.drop size },
        .ok (channel.downstream.take size))
    else none
  | .read size, .throws bytes =>
    some ({ channel with downstream := channel.downstream.drop (min bytes size) },
      .error .systemError)

/-- A call goes on, or ends and releases the mutex. -/
def settle (channel : Channel) (running : Running) : Exchange Bytes → Channel
  | .finished (.ok buffer) =>
    { channel with
      holder := none
      returned := channel.returned ++
        [⟨running.thread, running.request.val, running.number, buffer⟩] }
  | .finished (.error _) =>
    { channel with
      holder := none
      mainEnded := channel.mainEnded || running.thread = .main }
  | .request call resume =>
    { channel with holder := some { running with rest := .request call resume } }

/-- The call that holds the mutex makes its next operation. -/
def advance (channel : Channel) (running : Running) (outcome : Outcome) : Exchange Bytes → Channel
  | .finished _ => channel
  | .request call resume =>
    match channel.perform call outcome with
    | none => channel
    | some (after, result) => after.settle running (resume result)

/-- One event. -/
def step (channel : Channel) : Event → Channel
  | .call thread request =>
    match channel.holder with
    | some _ => channel
    | none =>
      if thread = .main ∧ channel.mainEnded = true then channel
      else
        { channel with
          holder := some ⟨thread, request, channel.sent.length, sendAndReceive request.val⟩ }
  | .proceed outcome =>
    match channel.holder with
    | none => channel
    | some running => channel.advance running outcome running.rest
  | .answer response =>
    match Server.frameLength channel.upstream with
    | none => channel
    | some size =>
      { channel with
        upstream := channel.upstream.drop size
        downstream := channel.downstream ++ response.val
        answered := channel.answered ++ [(channel.upstream.take size, response.val)] }

/-- The operation that the call which holds the mutex is about to make. -/
def nextCall (channel : Channel) : Option ConnectionCall :=
  match channel.holder with
  | some ⟨_, _, _, .request call _⟩ => some call
  | _ => none

/-- An operation does not throw, or it throws before a byte of the request is written or after the
last byte of the response has been read. -/
def Orderly (channel : Channel) : Event → Prop
  | .proceed (.throws bytes) =>
    match channel.nextCall with
    | some (.write _) => bytes = 0
    | some (.allocate _) | some (.read _) => False
    | some (.insert _) | none => True
  | .proceed .completes | .call .. | .answer _ => True

/-! ### What follows a call -/

/-- No byte is under way and every request has been answered. -/
structure Quiet (channel : Channel) : Prop where
  upstream : channel.upstream = []
  downstream : channel.downstream = []
  sent : channel.sent = channel.answered.map Prod.fst

/-- What a call has still to do that waits for a header. -/
def headerReads : List (Exchange Bytes) :=
  [receiveResponse, onSocket (.read headerSize) >>= receivePayload]

/-- What a call has still to do that waits for the payload of a response. -/
def payloadReads (response : ResponseFrame) : List (Exchange Bytes) :=
  [receiveExact (declaredSize response.val) >>= returnBuffer (response.val.take headerSize),
    onSocket (.read (declaredSize response.val)) >>= returnBuffer (response.val.take headerSize)]

/-- Where a call is that holds the mutex. -/
inductive Position (channel : Channel) (running : Running) : Prop
  /-- It has sent nothing. -/
  | unsent (hrest : running.rest = sendAndReceive running.request.val) (hquiet : channel.Quiet)
    (hnumber : running.number = channel.sent.length)
  /-- It waits for the header and the server has not taken its request. -/
  | awaiting (hrest : running.rest ∈ headerReads)
    (hupstream : channel.upstream = running.request.val) (hdownstream : channel.downstream = [])
    (hsent : channel.sent = channel.answered.map Prod.fst ++ [running.request.val])
    (hnumber : running.number = channel.answered.length)
  /-- It waits for the header and the server has answered. -/
  | answered (response : ResponseFrame) (hrest : running.rest ∈ headerReads)
    (hupstream : channel.upstream = []) (hdownstream : channel.downstream = response.val)
    (hsent : channel.sent = channel.answered.map Prod.fst)
    (hlog : channel.answered[running.number]? = some (running.request.val, response.val))
  /-- It has read the header and waits for the payload. -/
  | reading (response : ResponseFrame) (hsize : 0 < declaredSize response.val)
    (hrest : running.rest ∈ payloadReads response)
    (hupstream : channel.upstream = [])
    (hdownstream : channel.downstream = response.val.drop headerSize)
    (hsent : channel.sent = channel.answered.map Prod.fst)
    (hlog : channel.answered[running.number]? = some (running.request.val, response.val))
  /-- It has read the whole response. -/
  | read (response : ResponseFrame)
    (hrest : running.rest =
      returnBuffer (response.val.take headerSize) (response.val.drop headerSize))
    (hquiet : channel.Quiet)
    (hlog : channel.answered[running.number]? = some (running.request.val, response.val))

/-- Every buffer that was returned is the response to the request of its call. -/
def ReturnsMatch (channel : Channel) : Prop :=
  ∀ delivery ∈ channel.returned,
    channel.answered[delivery.number]? = some (delivery.request, delivery.buffer)

/-- What holds at every moment of a run of orderly steps. -/
structure Matched (channel : Channel) : Prop where
  returned : channel.ReturnsMatch
  quiet : channel.holder = none → channel.Quiet
  position : ∀ running, channel.holder = some running → channel.Position running

section Steps

variable {channel : Channel} {running : Running}

theorem matched_connected : connected.Matched where
  returned := fun _ h ↦ absurd h List.not_mem_nil
  quiet := fun _ ↦ ⟨rfl, rfl, rfl⟩
  position := fun _ h ↦ by cases h

/-- A whole request in front of the server is taken whole. -/
theorem frameLength_request (frame : RequestFrame) :
    Server.frameLength frame.val = some frame.val.length := by
  obtain ⟨hheader, hlength⟩ := frame.property
  have hsize : Server.headerSize + Server.getPayloadSize (frame.val.take Server.headerSize) =
      frame.val.length := by
    rw [← Server.getPayloadSize_take hheader, List.take_length, ← hlength]
  rw [Server.frameLength, hsize, if_pos ⟨hheader, le_rfl⟩]

/-- A thread that takes the mutex has sent nothing. -/
theorem Matched.call (h : channel.Matched) (thread : Thread) (request : RequestFrame) :
    (channel.step (.call thread request)).Matched := by
  simp only [step]
  cases hholder : channel.holder with
  | some running => exact h
  | none =>
    dsimp only
    split_ifs with hended
    · exact h
    · refine ⟨h.returned, nofun, fun running hsome ↦ ?_⟩
      cases hsome
      obtain ⟨hupstream, hdownstream, hsent⟩ := h.quiet hholder
      exact .unsent rfl ⟨hupstream, hdownstream, hsent⟩ rfl

/-- The server takes nothing when no request waits. -/
theorem step_answer_of_nil (hupstream : channel.upstream = []) (response : ResponseFrame) :
    channel.step (.answer response) = channel := by
  have hnone : Server.frameLength [] = none := if_neg (by simp)
  simp only [step, hupstream, hnone]

/-- The server takes a request that waits. -/
theorem step_answer_of_frame {request : RequestFrame} (hupstream : channel.upstream = request.val)
    (response : ResponseFrame) :
    channel.step (.answer response) =
      { channel with
        upstream := []
        downstream := channel.downstream ++ response.val
        answered := channel.answered ++ [(request.val, response.val)] } := by
  simp only [step, hupstream, frameLength_request, List.take_length, List.drop_length]

/-- A log that grows keeps what it holds. -/
theorem getElem?_append_of_some {α : Type} {log : List α} {number : ℕ} {entry : α}
    (h : log[number]? = some entry) (more : List α) : (log ++ more)[number]? = some entry := by
  rw [List.getElem?_append_left (List.getElem?_eq_some_iff.mp h).1, h]

/-- A call that goes on from a position. -/
theorem Matched.held {after : Channel} (h : channel.Matched)
    (hreturned : after.returned = channel.returned)
    (hanswered : ∃ more, after.answered = channel.answered ++ more)
    (hholder : after.holder = some running) (hposition : after.Position running) :
    after.Matched where
  returned := by
    obtain ⟨more, hmore⟩ := hanswered
    intro delivery hdelivery
    rw [hreturned] at hdelivery
    rw [hmore]
    exact getElem?_append_of_some (h.returned delivery hdelivery) more
  quiet := fun hnone ↦ absurd (hholder.symm.trans hnone) (by simp)
  position := fun other hother ↦ by
    rw [← Option.some.inj (hholder.symm.trans hother)]
    exact hposition

/-- The server answers a request that waits for its response, and nothing else. -/
theorem Matched.answer (h : channel.Matched) (response : ResponseFrame) :
    (channel.step (.answer response)).Matched := by
  cases hholder : channel.holder with
  | none =>
    rw [step_answer_of_nil (h.quiet hholder).upstream]
    exact h
  | some running =>
    cases h.position running hholder with
    | awaiting hrest hupstream hdownstream hsent hnumber =>
      rw [step_answer_of_frame hupstream]
      refine h.held rfl ⟨_, rfl⟩ hholder (.answered response hrest rfl ?_ ?_ ?_)
      · rw [hdownstream, List.nil_append]
      · rw [hsent, List.map_append]
        rfl
      · rw [hnumber]
        exact List.getElem?_concat_length
    | unsent _ hquiet =>
      rw [step_answer_of_nil hquiet.upstream]
      exact h
    | answered _ _ hupstream =>
      rw [step_answer_of_nil hupstream]
      exact h
    | reading _ _ _ hupstream =>
      rw [step_answer_of_nil hupstream]
      exact h
    | read _ _ hquiet =>
      rw [step_answer_of_nil hquiet.upstream]
      exact h

/-- A call that still has an operation to make goes on. -/
theorem settle_request {rest : Exchange Bytes} {call : ConnectionCall}
    {resume : Except ConnectionError call.Result → Exchange Bytes}
    (hrest : rest = .request call resume) :
    channel.settle running rest =
      { channel with holder := some { running with rest := rest } } := by
  subst hrest
  rfl

/-- A read takes its bytes when they are there. -/
theorem advance_read (size : ℕ) (next : Bytes → Exchange Bytes) :
    channel.advance running .completes (onSocket (.read size) >>= next) =
      if size ≤ channel.downstream.length then
        { channel with downstream := channel.downstream.drop size }.settle running
          (next (channel.downstream.take size))
      else channel := by
  have hperform : channel.perform (.read size) .completes =
      if size ≤ channel.downstream.length then
        some ({ channel with downstream := channel.downstream.drop size },
          .ok (channel.downstream.take size))
      else none := rfl
  have hrest : onSocket (.read size) >>= next = .request (.read size) fun answer ↦
      (Interaction.finished answer).attempt (Interaction.proceed next) := rfl
  rw [hrest, advance, hperform]
  split_ifs <;> rfl

/-- The code behind the header of a response. -/
theorem receivePayload_header (response : ResponseFrame) :
    receivePayload (response.val.take headerSize) =
      receiveExact (declaredSize response.val) >>=
        returnBuffer (response.val.take headerSize) := by
  rw [receivePayload, getPayloadSize_header response.property.1]
  rfl

/-- A call that has read the header of its response waits for the payload, or has it when it is
empty. -/
theorem Matched.header {response : ResponseFrame} (h : channel.Matched)
    (hupstream : channel.upstream = [])
    (hsent : channel.sent = channel.answered.map Prod.fst)
    (hlog : channel.answered[running.number]? = some (running.request.val, response.val)) :
    ({ channel with downstream := response.val.drop headerSize }.settle running
      (receivePayload (response.val.take headerSize))).Matched := by
  have hkept : ∃ more, channel.answered = channel.answered ++ more := ⟨[], (List.append_nil _).symm⟩
  have hlength := response.length_drop
  rw [receivePayload_header]
  by_cases hzero : declaredSize response.val = 0
  · have hempty : response.val.drop headerSize = [] :=
      List.eq_nil_of_length_eq_zero (hlength.trans hzero)
    have hrest : receiveExact (declaredSize response.val) >>=
        returnBuffer (response.val.take headerSize) =
          returnBuffer (response.val.take headerSize) [] := by
      rw [hzero]
      rfl
    rw [hrest, hempty]
    refine h.held rfl hkept rfl (.read response ?_ ⟨hupstream, rfl, hsent⟩ hlog)
    rw [hempty]
    rfl
  · have hrest : receiveExact (declaredSize response.val) >>=
        returnBuffer (response.val.take headerSize) =
          (onSocket (.allocate (declaredSize response.val)) >>= fun _ ↦
            onSocket (.read (declaredSize response.val))) >>=
              returnBuffer (response.val.take headerSize) := by
      rw [receiveExact, if_neg hzero]
    rw [settle_request (hrest.trans rfl)]
    exact h.held rfl hkept rfl (.reading response (Nat.pos_of_ne_zero hzero) List.mem_cons_self
      hupstream rfl hsent hlog)

/-- A call that completes an operation goes on, or ends with the response to its request. -/
theorem Matched.completes (h : channel.Matched) (hholder : channel.holder = some running) :
    (channel.advance running .completes running.rest).Matched := by
  have hkept : ∃ more, channel.answered = channel.answered ++ more := ⟨[], (List.append_nil _).symm⟩
  cases h.position running hholder with
  | unsent hrest hquiet hnumber =>
    obtain ⟨hupstream, hdownstream, hsent⟩ := hquiet
    have hstep : channel.advance running .completes running.rest =
        { channel with
          upstream := channel.upstream ++ running.request.val
          sent := channel.sent ++ [running.request.val]
          holder := some { running with rest := receiveResponse } } := by
      rw [hrest]
      rfl
    rw [hstep]
    refine h.held rfl hkept rfl (.awaiting List.mem_cons_self ?_ hdownstream ?_ ?_)
    · rw [hupstream]
      rfl
    · rw [hsent]
    · rw [hnumber, hsent, List.length_map]
  | awaiting hrest hupstream hdownstream hsent hnumber =>
    rcases List.mem_pair.mp hrest with hallocate | hread
    · have hstep : channel.advance running .completes running.rest =
          { channel with
            holder := some
              { running with rest := onSocket (.read headerSize) >>= receivePayload } } := by
        rw [hallocate]
        rfl
      rw [hstep]
      exact h.held rfl hkept rfl
        (.awaiting (List.mem_pair.mpr (.inr rfl)) hupstream hdownstream hsent hnumber)
    · have hstep : channel.advance running .completes running.rest = channel := by
        rw [hread, advance_read, if_neg (by simp [hdownstream])]
      rw [hstep]
      exact h
  | answered response hrest hupstream hdownstream hsent hlog =>
    rcases List.mem_pair.mp hrest with hallocate | hread
    · have hstep : channel.advance running .completes running.rest =
          { channel with
            holder := some
              { running with rest := onSocket (.read headerSize) >>= receivePayload } } := by
        rw [hallocate]
        rfl
      rw [hstep]
      exact h.held rfl hkept rfl
        (.answered response (List.mem_pair.mpr (.inr rfl)) hupstream hdownstream hsent hlog)
    · rw [hread, advance_read, hdownstream, if_pos response.property.1]
      exact h.header hupstream hsent hlog
  | reading response hsize hrest hupstream hdownstream hsent hlog =>
    rcases List.mem_pair.mp hrest with hallocate | hread
    · have hstep : channel.advance running .completes running.rest =
          { channel with
            holder := some
              { running with
                rest := onSocket (.read (declaredSize response.val)) >>=
                  returnBuffer (response.val.take headerSize) } } := by
        rw [hallocate, receiveExact, if_neg hsize.ne']
        rfl
      rw [hstep]
      exact h.held rfl hkept rfl
        (.reading response hsize (List.mem_pair.mpr (.inr rfl)) hupstream hdownstream hsent hlog)
    · have hlength := response.length_drop
      rw [hread, advance_read, hdownstream, if_pos hlength.ge,
        List.drop_eq_nil_of_le hlength.le, List.take_of_length_le hlength.le]
      exact h.held rfl hkept rfl (.read response rfl ⟨hupstream, rfl, hsent⟩ hlog)
  | read response hrest hquiet hlog =>
    have hstep : channel.advance running .completes running.rest =
        { channel with
          holder := none
          returned := channel.returned ++ [⟨running.thread, running.request.val, running.number,
            response.val.take headerSize ++ response.val.drop headerSize⟩] } := by
      rw [hrest]
      rfl
    rw [hstep, List.take_append_drop]
    refine ⟨fun delivery hdelivery ↦ ?_, fun _ ↦ ⟨hquiet.upstream, hquiet.downstream, hquiet.sent⟩,
      nofun⟩
    rcases List.mem_append.mp hdelivery with hold | hnew
    · exact h.returned delivery hold
    · rw [List.mem_singleton.mp hnew]
      exact hlog

/-- The operation that a call is about to make. -/
theorem nextCall_of_rest {call : ConnectionCall}
    {resume : Except ConnectionError call.Result → Exchange Bytes}
    (hholder : channel.holder = some running) (hrest : running.rest = .request call resume) :
    channel.nextCall = some call := by
  obtain ⟨thread, request, number, rest⟩ := running
  subst hrest
  simp only [nextCall, hholder]

/-- A call that throws before its request or behind its response leaves no byte under way. -/
theorem Matched.throws (h : channel.Matched) (hholder : channel.holder = some running) {bytes : ℕ}
    (horderly : channel.Orderly (.proceed (.throws bytes))) :
    (channel.advance running (.throws bytes) running.rest).Matched := by
  have hended : ∀ after : Channel, after.holder = none → after.returned = channel.returned →
      after.answered = channel.answered → after.Quiet → after.Matched := by
    intro after hnone hreturned hanswered hquiet
    refine ⟨fun delivery hdelivery ↦ ?_, fun _ ↦ hquiet, fun other hother ↦ ?_⟩
    · rw [hanswered]
      exact h.returned delivery (hreturned ▸ hdelivery)
    · rw [hnone] at hother
      cases hother
  have hwaiting : ∀ {rest : Exchange Bytes}, rest ∈ headerReads → running.rest ≠ rest := by
    rintro rest hrest rfl
    rcases List.mem_pair.mp hrest with hallocate | hread
    · rw [Orderly, nextCall_of_rest hholder (hallocate.trans rfl)] at horderly
      exact horderly
    · rw [Orderly, nextCall_of_rest hholder (hread.trans rfl)] at horderly
      exact horderly
  cases h.position running hholder with
  | unsent hrest hquiet hnumber =>
    rw [Orderly, nextCall_of_rest hholder (hrest.trans rfl)] at horderly
    dsimp only at horderly
    subst horderly
    have hwrites : ¬running.request.val.length ≤ 0 := by
      have hheader := running.request.property.1
      simp only [Server.headerSize] at hheader
      omega
    rw [hrest]
    refine hended _ rfl rfl rfl ⟨?_, hquiet.downstream, ?_⟩
    · exact (List.append_nil _).trans hquiet.upstream
    · exact (if_neg hwrites).trans hquiet.sent
  | awaiting hrest => exact absurd rfl (hwaiting hrest)
  | answered response hrest => exact absurd rfl (hwaiting hrest)
  | reading response hsize hrest =>
    rcases List.mem_pair.mp hrest with hallocate | hread
    · rw [receiveExact, if_neg hsize.ne'] at hallocate
      rw [Orderly, nextCall_of_rest hholder (hallocate.trans rfl)] at horderly
      exact horderly.elim
    · rw [Orderly, nextCall_of_rest hholder (hread.trans rfl)] at horderly
      exact horderly.elim
  | read response hrest hquiet hlog =>
    rw [hrest]
    exact hended _ rfl rfl rfl ⟨hquiet.upstream, hquiet.downstream, hquiet.sent⟩

/-- An orderly step keeps calls and responses matched. -/
theorem Matched.step (h : channel.Matched) {event : Event} (horderly : channel.Orderly event) :
    (channel.step event).Matched := by
  cases event with
  | call thread request => exact h.call thread request
  | answer response => exact h.answer response
  | proceed outcome =>
    simp only [Channel.step]
    cases hholder : channel.holder with
    | none => exact h
    | some running =>
      cases outcome with
      | completes => exact h.completes hholder
      | throws bytes => exact h.throws hholder horderly

end Steps

/-- Every caller gets the response to its own request. In every run of two threads on one connection
whose steps are all orderly, every buffer that a call has returned is the response with which the
server answered the request of the same call. -/
theorem responses_matched {events : List Event} (hrun : Along step Orderly connected events) :
    (runEvents step connected events).ReturnsMatch :=
  (Along.invariant (fun _ _ horderly h ↦ h.step horderly) matched_connected hrun).returned

/-! ### Two runs -/

/-- A request without payload. -/
def bareRequest (code : ℕ) : RequestFrame :=
  ⟨Server.requestFrame (List.replicate clientIdSize 1) code [],
    (Server.validHeader_requestFrame List.length_replicate (by simp)).header,
    (Server.validHeader_requestFrame List.length_replicate (by simp)).size⟩

/-- A message that waits for the client. -/
def waitingText : Server.WaitingMessage where
  id := 1
  fromClient := 2 :: List.replicate 15 0
  type := 3
  content := [65]

/-- The response to a pull, with that message. -/
def pullResponse : ResponseFrame :=
  .build 2104 (Server.recordBytes waitingText) (by decide)

/-- The response to a request for the client list, which is empty. -/
def listResponse : ResponseFrame :=
  .build 2101 [] (by decide)

/-- The pull thread fails before it writes; then it pulls and the main thread asks for the client
list. -/
def orderlyRun : List Event :=
  [.call .pull (bareRequest 704), .proceed (.throws 0)] ++
    [.call .pull (bareRequest 704), .proceed .completes, .answer pullResponse] ++
    List.replicate 5 (.proceed .completes) ++
    [.call .main (bareRequest 701), .proceed .completes, .answer listResponse] ++
    List.replicate 3 (.proceed .completes)

/-- Both buffers that are returned in that run are the responses to their requests. -/
theorem responses_matched_orderlyRun :
    (runEvents step connected orderlyRun).ReturnsMatch ∧
      (runEvents step connected orderlyRun).returned.length = 2 :=
  ⟨responses_matched ⟨trivial, rfl, trivial, trivial, trivial, trivial, trivial, trivial, trivial,
    trivial, trivial, trivial, trivial, trivial, trivial, trivial, trivial⟩, rfl⟩

/-- The pull thread cannot allocate the payload of its response and throws; then the main thread
asks for the client list. -/
def lateFailure : List Event :=
  [.call .pull (bareRequest 704), .proceed .completes, .answer pullResponse, .proceed .completes,
    .proceed .completes, .proceed (.throws 0), .call .main (bareRequest 701), .proceed .completes,
    .answer listResponse] ++ List.replicate 3 (.proceed .completes)

/-- The main thread gets seven bytes of the message as the response to its request. -/
theorem late_failure_mismatches :
    ¬∀ events, (runEvents step connected events).ReturnsMatch := by
  intro h
  have hreturned : (runEvents step connected lateFailure).returned =
      [⟨.main, (bareRequest 701).val, 1, [2, 0, 0, 0, 0, 0, 0]⟩] := rfl
  have hanswered : (runEvents step connected lateFailure).answered[1]? =
      some ((bareRequest 701).val, listResponse.val) := rfl
  have hmatch := h lateFailure ⟨.main, (bareRequest 701).val, 1, [2, 0, 0, 0, 0, 0, 0]⟩
    (by rw [hreturned]; exact List.mem_singleton_self _)
  rw [hanswered] at hmatch
  have hbuffer : listResponse.val = [2, 0, 0, 0, 0, 0, 0] :=
    congrArg Prod.snd (Option.some.inj hmatch)
  exact absurd hbuffer (by decide)

end Channel

end MessageU.System
