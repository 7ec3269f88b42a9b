import MessageU.Library.Progress
import MessageU.Server.Sockets

/-!
# Every request is answered

A request that has come in is answered, whatever the other connections do and whichever method calls
fail. Its handler makes at most four calls (`Stage.rank`), each of which brings it nearer to its
response, and waits for no other handler; `sendall` then writes the response as the peer takes it.
`every_request_answered` says this of schedules that go on for ever, in which the handler is called
again and again and the peer takes bytes again and again.
-/

set_option autoImplicit false
set_option relaxedAutoImplicit false

namespace MessageU.Server.Sockets

open Library

/-- The sockets after so many events of a schedule. -/
def after (limit : Option ℕ) (sockets : Sockets) (schedule : ℕ → SocketEvent) (n : ℕ) : Sockets :=
  runEvents (step limit) sockets ((List.range n).map schedule)

theorem after_succ (limit : Option ℕ) (sockets : Sockets) (schedule : ℕ → SocketEvent) (n : ℕ) :
    sockets.after limit schedule (n + 1) =
      step limit (sockets.after limit schedule n) (schedule n) := by
  rw [after, after, List.range_succ, List.map_append, runEvents_append]
  rfl

/-- The peer takes some of the bytes that are being written. -/
def Takes (connection : ℕ) (sockets : Sockets) (event : SocketEvent) : Prop :=
  ∃ count, event = .write connection count ∧ ∀ answer written,
    sockets.loops connection = .sending answer written →
      0 < count ∧ written + count ≤ answer.response.length

/-- The connection does not break, its handler is called again and again, and its peer takes the
bytes of responses. -/
structure Served (limit : Option ℕ) (connection : ℕ) (sockets : Sockets)
    (schedule : ℕ → SocketEvent) : Prop where
  holds : ∀ n, schedule n ≠ .fail connection
  calls : Recurs fun n ↦ ∃ fault, schedule n = .call connection fault
  takes : Recurs fun n ↦ Takes connection (sockets.after limit schedule n) (schedule n)

/-- The handler of a request makes no more than so many calls before its response. -/
def Handling (connection : ℕ) (request : Bytes) (calls : ℕ) (sockets : Sockets) : Prop :=
  sockets.loops connection = .handling ∧ ∃ (staged : ServerState Staged) (ambient : Ambient)
    (stage : Stage), sockets.server = staged.unstage ∧
      staged.connections connection = .busy request (ambient, stage) ∧ stage.rank ≤ calls

/-- The response to a request is being written, with no more than so many bytes to go. -/
def Sending (connection : ℕ) (request : Bytes) (bytes : ℕ) (sockets : Sockets) : Prop :=
  ∃ response written, sockets.loops connection = .sending ⟨connection, request, response⟩ written ∧
    response.length ≤ written + bytes

/-- The responses that were written to a connection in full. -/
def sentTo (connection : ℕ) (sockets : Sockets) : List Answer :=
  sockets.sent.filter fun answer ↦ answer.connection = connection

/-- The response to a request was written in full, after the earlier ones of its connection. -/
def Answered (connection : ℕ) (request : Bytes) (earlier : List Answer)
    (sockets : Sockets) : Prop :=
  ∃ response, sockets.sentTo connection = earlier ++ [⟨connection, request, response⟩]

/-- The handlers of a server are at stages. -/
def AtStages (sockets : Sockets) : Prop :=
  ∃ staged : ServerState Staged, sockets.server = staged.unstage

theorem atStages_run (limit : Option ℕ) (events : List SocketEvent) :
    AtStages (runEvents (step limit) initial events) := by
  refine runEvents_invariant (fun sockets event h ↦ ?_)
    ⟨.initial Staged, ServerState.unstage_initial.symm⟩ events
  obtain ⟨staged, hstaged⟩ := h
  have hhandle : ∀ happening, AtStages (sockets.handle limit happening) := by
    intro happening
    refine ⟨ServerState.stagedStep limit staged happening, ?_⟩
    show ServerState.step limit sockets.server happening = _
    rw [hstaged, ServerState.step_unstage]
  exact step_cases limit sockets event ⟨staged, hstaged⟩ (fun _ _ ↦ ⟨staged, hstaged⟩)
    (fun _ _ _ ↦ hhandle _) (fun _ _ _ ↦ hhandle _) (fun _ _ _ _ ↦ ⟨staged, hstaged⟩)
    (fun _ _ _ ↦ ⟨staged, hstaged⟩) fun _ _ _ _ ↦ ⟨staged, hstaged⟩

section Step

variable {limit : Option ℕ} {connection : ℕ} {request : Bytes} {calls bytes : ℕ} {sockets : Sockets}

/-- The loop of a connection behind a step of its handler. -/
theorem handle_loops_self (limit : Option ℕ) (sockets : Sockets) (event : Event) :
    (sockets.handle limit event).loops event.connection = loopBehind event.connection
      ((sockets.handle limit event).server.connections event.connection) :=
  Function.update_self _ _ _

theorem goOn_loops_self (sockets : Sockets) (connection : ℕ) (loop : ClientLoop) :
    (sockets.goOn connection loop).loops connection = loop :=
  Function.update_self _ _ _

/-- A step writes a response to the end or leaves what is written. -/
theorem step_sent_cases (limit : Option ℕ) (sockets : Sockets) (event : SocketEvent) :
    (step limit sockets event).sent = sockets.sent ∨
      ∃ answer written, sockets.loops event.connection = .sending answer written ∧
        (step limit sockets event).sent = sockets.sent ++ [answer] ∧
        (step limit sockets event).loops event.connection = .header [] :=
  step_cases (motive := fun after ↦ after.sent = sockets.sent ∨
      ∃ answer written, sockets.loops event.connection = .sending answer written ∧
        after.sent = sockets.sent ++ [answer] ∧ after.loops event.connection = .header [])
    limit sockets event (.inl rfl) (fun _ _ ↦ .inl rfl) (fun _ _ _ ↦ .inl rfl)
    (fun _ _ _ ↦ .inl rfl) (fun _ _ _ _ ↦ .inl rfl)
    (fun answer written hloop ↦ .inr ⟨answer, written, hloop, rfl, goOn_loops_self ..⟩)
    fun _ _ _ _ ↦ .inl rfl

/-- The response that a loop goes on to write is one of its connection. -/
theorem loopBehind_own {place : Server.Connection Handler} {answer : Answer} {written : ℕ}
    (h : loopBehind connection place = .sending answer written) :
    answer.connection = connection := by
  cases place with
  | returned request response => cases h; rfl
  | busy => cases h
  | idle => cases h
  | stopped => cases h

/-- What a connection writes is what it has written before, or a response of its own. -/
theorem step_sending (limit : Option ℕ) (sockets : Sockets) (event : SocketEvent) {answer : Answer}
    {written : ℕ}
    (h : (step limit sockets event).loops event.connection = .sending answer written) :
    (∃ less, sockets.loops event.connection = .sending answer less) ∨
      answer.connection = event.connection := by
  have hbehind : ∀ happening : Event,
      (sockets.handle limit happening).loops happening.connection = .sending answer written →
        answer.connection = happening.connection := by
    intro happening hloop
    exact loopBehind_own ((handle_loops_self limit sockets happening).symm.trans hloop)
  have hmoved : ∀ {connection : ℕ} {loop : ClientLoop},
      (sockets.goOn connection loop).loops connection = .sending answer written →
        loop = .sending answer written := by
    intro connection loop hloop
    exact (goOn_loops_self sockets connection loop).symm.trans hloop
  cases event with
  | recv connection chunk ambient =>
    simp only [step, SocketEvent.connection] at h ⊢
    cases hloop : sockets.loops connection with
    | header received =>
      simp only [hloop] at h
      split_ifs at h
      · cases hmoved h
      · cases hmoved h
      · cases hloop.symm.trans h
      · exact .inr (hbehind _ h)
      · cases hmoved h
    | payload header received =>
      simp only [hloop] at h
      split_ifs at h
      · cases hmoved h
      · cases hmoved h
      · cases hloop.symm.trans h
      · exact .inr (hbehind _ h)
    | handling => simp only [hloop, reduceCtorEq] at h
    | sending other more => simp only [hloop] at h; exact .inl ⟨written, h⟩
    | closed => simp only [hloop, reduceCtorEq] at h
  | call connection fault =>
    simp only [step, SocketEvent.connection] at h ⊢
    cases hloop : sockets.loops connection with
    | handling => simp only [hloop] at h; exact .inr (hbehind _ h)
    | sending other more => simp only [hloop] at h; exact .inl ⟨written, h⟩
    | header received => simp only [hloop, reduceCtorEq] at h
    | payload header received => simp only [hloop, reduceCtorEq] at h
    | closed => simp only [hloop, reduceCtorEq] at h
  | write connection count =>
    simp only [step, SocketEvent.connection] at h ⊢
    cases hloop : sockets.loops connection with
    | sending other more =>
      simp only [hloop] at h
      split_ifs at h
      · cases hmoved h
        exact .inl ⟨more, rfl⟩
      · cases hmoved h
      · exact .inl ⟨written, hloop.symm.trans h⟩
    | header received => simp only [hloop, reduceCtorEq] at h
    | payload header received => simp only [hloop, reduceCtorEq] at h
    | handling => simp only [hloop, reduceCtorEq] at h
    | closed => simp only [hloop, reduceCtorEq] at h
  | fail connection =>
    simp only [step, SocketEvent.connection] at h ⊢
    cases hloop : sockets.loops connection with
    | sending other more =>
      simp only [hloop] at h
      split_ifs at h
      · cases hmoved h
      · exact .inl ⟨written, hloop.symm.trans h⟩
    | header received => simp only [hloop] at h; cases hmoved h
    | payload header received => simp only [hloop] at h; cases hmoved h
    | handling => simp only [hloop, reduceCtorEq] at h
    | closed => simp only [hloop, reduceCtorEq] at h

/-- Every loop writes responses of its own connection. -/
def OwnResponses (sockets : Sockets) : Prop :=
  ∀ connection answer written,
    sockets.loops connection = .sending answer written → answer.connection = connection

theorem OwnResponses.step (h : OwnResponses sockets) (limit : Option ℕ) (event : SocketEvent) :
    OwnResponses (step limit sockets event) := by
  intro connection answer written hloop
  by_cases hother : connection = event.connection
  · subst hother
    rcases step_sending limit sockets event hloop with ⟨less, hbefore⟩ | hown
    · exact h _ answer less hbefore
    · exact hown
  · exact h connection answer written
      ((step_loops_of_ne limit sockets event hother).symm.trans hloop)

/-- While a connection does not come to wait for its next request, no response is written to it to
the end. -/
theorem sentTo_step (h : OwnResponses sockets) (limit : Option ℕ) (event : SocketEvent)
    (hgoing : (step limit sockets event).loops connection ≠ .header []) :
    (step limit sockets event).sentTo connection = sockets.sentTo connection := by
  rcases step_sent_cases limit sockets event with hsame | ⟨answer, written, hloop, hsent, hheader⟩
  · rw [sentTo, sentTo, hsame]
  · have hother : answer.connection ≠ connection := by
      rw [h _ answer written hloop]
      rintro rfl
      exact hgoing hheader
    rw [sentTo, sentTo, hsent, List.filter_append, List.filter_singleton, decide_eq_false hother,
      cond_false, List.append_nil]

/-- A step of one handler leaves the others where they are. -/
theorem stagedStep_connections_of_ne (limit : Option ℕ) (staged : ServerState Staged)
    (event : Event)
    (hother : connection ≠ event.connection) :
    (ServerState.stagedStep limit staged event).connections connection =
      staged.connections connection := by
  refine ServerState.stagedStep_cases
    (motive := fun after ↦
      after.connections connection = staged.connections connection) limit staged
    event rfl (fun other arrived ambient hevent _ ↦ ?_)
    fun other fault arrived ambient stage after row progress hevent _ _ ↦ ?_
  all_goals
    rw [hevent] at hother
    exact ServerState.settle_connections_of_ne _ _ _ hother

/-- Events at other connections leave a handler where it is. -/
theorem Handling.step_of_ne (h : Handling connection request calls sockets) {event : SocketEvent}
    (hother : connection ≠ event.connection) :
    Handling connection request calls (step limit sockets event) := by
  refine ⟨(step_loops_of_ne limit sockets event hother).trans h.1, ?_⟩
  obtain ⟨-, staged, ambient, stage, hstaged, hbusy, hrank⟩ := h
  have hsame : ∃ (staged : ServerState Staged) (ambient : Ambient) (stage : Stage),
      sockets.server = staged.unstage ∧
        staged.connections connection = .busy request (ambient, stage) ∧ stage.rank ≤ calls :=
    ⟨staged, ambient, stage, hstaged, hbusy, hrank⟩
  have hhandle : ∀ happening : Event, connection ≠ happening.connection →
      ∃ (after : ServerState Staged) (ambient : Ambient) (stage : Stage),
        (sockets.handle limit happening).server = after.unstage ∧
          after.connections connection = .busy request (ambient, stage) ∧ stage.rank ≤ calls := by
    intro happening hne
    refine ⟨ServerState.stagedStep limit staged happening, ambient, stage, ?_, ?_, hrank⟩
    · show ServerState.step limit sockets.server happening = _
      rw [hstaged, ServerState.step_unstage]
    · rw [stagedStep_connections_of_ne limit staged happening hne, hbusy]
  exact step_cases (motive := fun after ↦ ∃ (staged : ServerState Staged) (ambient : Ambient)
      (stage : Stage), after.server = staged.unstage ∧
        staged.connections connection = .busy request (ambient, stage) ∧ stage.rank ≤ calls)
    limit sockets event hsame (fun _ _ ↦ hsame) (fun _ _ _ ↦ hhandle _ hother)
    (fun _ _ _ ↦ hhandle _ hother) (fun _ _ _ _ ↦ hsame) (fun _ _ _ ↦ hsame) fun _ _ _ _ ↦ hsame

/-- A call of a handler leads to its response or to a stage that is nearer to it. -/
theorem stagedStep_call {staged : ServerState Staged} {ambient : Ambient} {stage : Stage}
    (hbusy : staged.connections connection = .busy request (ambient, stage)) (limit : Option ℕ)
    (fault : Bool) :
    (∃ response,
      (ServerState.stagedStep limit staged (.call connection fault)).connections connection =
        .returned request response) ∨
      ∃ next : Stage, next.rank < stage.rank ∧
        (ServerState.stagedStep limit staged (.call connection fault)).connections connection =
          .busy request (ambient, next) := by
  let result := (stage.call request ambient).perform limit fault staged.tables
  have hrank := resume_rank_lt request ambient stage result.2
  have hstep : ServerState.stagedStep limit staged (.call connection fault) =
      (staged.afterCall result.1 ((stage.call request ambient).insertedRow result.2)).settle
        connection
        request (ServerState.stagedOutcome ambient (stage.resume request ambient result.2)) := by
    simp only [ServerState.stagedStep, hbusy]
    rfl
  rw [hstep]
  cases hprogress : stage.resume request ambient result.2 with
  | answer response => exact .inl ⟨response, Function.update_self _ _ _⟩
  | next after =>
    rw [hprogress] at hrank
    exact .inr ⟨after, hrank, Function.update_self _ _ _⟩

/-- A call brings a handler nearer to its response. -/
theorem Handling.call (h : Handling connection request calls sockets) (limit : Option ℕ)
    (fault : Bool) :
    (∃ less < calls, Handling connection request less
      (step limit sockets (.call connection fault))) ∨
      ∃ bytes, Sending connection request bytes (step limit sockets (.call connection fault)) := by
  obtain ⟨hloop, staged, ambient, stage, hstaged, hbusy, hrank⟩ := h
  have hstep : step limit sockets (.call connection fault) =
      sockets.handle limit (.call connection fault) := by
    simp only [step, hloop]
  have hserver : (sockets.handle limit (.call connection fault)).server =
      (ServerState.stagedStep limit staged (.call connection fault)).unstage := by
    show ServerState.step limit sockets.server (.call connection fault) = _
    rw [hstaged, ServerState.step_unstage]
  have hbehind : (sockets.handle limit (.call connection fault)).loops connection =
      loopBehind connection ((sockets.handle limit (.call connection fault)).server.connections
        connection) := handle_loops_self limit sockets (.call connection fault)
  have hplace : ∀ after : ServerState Staged,
      after.unstage.connections connection = (after.connections connection).unstage := fun _ ↦ rfl
  rw [hstep]
  rcases stagedStep_call hbusy limit fault with ⟨response, hreturned⟩ | ⟨next, hless, hgoing⟩
  · refine .inr ⟨response.length, response, 0, ?_, (Nat.zero_add _).ge⟩
    rw [hbehind, hserver, hplace, hreturned]
    rfl
  · refine .inl ⟨next.rank, hless.trans_le hrank, ?_, _, ambient, next, hserver, hgoing, le_rfl⟩
    rw [hbehind, hserver, hplace, hgoing]
    rfl

/-- A handler goes on until its response is written. -/
theorem Handling.step (h : Handling connection request calls sockets) (limit : Option ℕ)
    (event : SocketEvent) : Handling connection request calls (step limit sockets event) ∨
      ∃ bytes, Sending connection request bytes (step limit sockets event) := by
  by_cases hother : connection = event.connection
  · subst hother
    cases event with
    | call connection fault =>
      refine (h.call limit fault).imp_left ?_
      rintro ⟨less, hless, hloop, staged, ambient, stage, hstaged, hbusy, hrank⟩
      exact ⟨hloop, staged, ambient, stage, hstaged, hbusy, hrank.trans hless.le⟩
    | recv connection chunk ambient =>
      left
      simp only [Sockets.step, SocketEvent.connection] at h ⊢
      rw [h.1]
      exact h
    | write connection count =>
      left
      simp only [Sockets.step, SocketEvent.connection] at h ⊢
      rw [h.1]
      exact h
    | fail connection =>
      left
      simp only [Sockets.step, SocketEvent.connection] at h ⊢
      rw [h.1]
      exact h
  · exact .inl (h.step_of_ne hother)

theorem Handling.going (h : Handling connection request calls sockets) :
    sockets.loops connection ≠ .header [] := by
  rw [h.1]
  exact ClientLoop.noConfusion

theorem Sending.going (h : Sending connection request bytes sockets) :
    sockets.loops connection ≠ .header [] := by
  obtain ⟨response, written, hloop, -⟩ := h
  rw [hloop]
  exact ClientLoop.noConfusion

/-- `sendall` has written some bytes more, or all. -/
theorem Sending.write {response : Bytes} {written count : ℕ}
    (hloop : sockets.loops connection = .sending ⟨connection, request, response⟩ written)
    (hbytes : response.length ≤ written + bytes) (limit : Option ℕ)
    (hfits : written + count ≤ response.length) :
    Sending connection request (bytes - count)
      (Sockets.step limit sockets (.write connection count)) ∨
      Answered connection request (sockets.sentTo connection)
        (Sockets.step limit sockets (.write connection count)) := by
  simp only [Sockets.step, hloop]
  rcases hfits.lt_or_eq with hless | hwhole
  · rw [if_pos hless]
    exact .inl ⟨response, written + count, goOn_loops_self .., by omega⟩
  · rw [if_neg hwhole.not_lt, if_pos hwhole]
    refine .inr ⟨response, ?_⟩
    rw [sentTo, List.filter_append, List.filter_singleton, decide_eq_true rfl, cond_true, sentTo]

/-- Bytes that the peer takes are written. -/
theorem Sending.take (h : Sending connection request bytes sockets) (limit : Option ℕ)
    {event : SocketEvent} (htakes : Takes connection sockets event) :
    (∃ less < bytes, Sending connection request less (Sockets.step limit sockets event)) ∨
      Answered connection request (sockets.sentTo connection)
        (Sockets.step limit sockets event) := by
  obtain ⟨response, written, hloop, hbytes⟩ := h
  obtain ⟨count, rfl, hcount⟩ := htakes
  obtain ⟨hpositive, hfits⟩ := hcount _ _ hloop
  have hless : bytes - count < bytes := by
    simp only at hfits
    omega
  exact (Sending.write hloop hbytes limit hfits).imp_left fun hsending ↦ ⟨_, hless, hsending⟩

/-- A response goes on being written. -/
theorem Sending.step (h : Sending connection request bytes sockets) (limit : Option ℕ)
    {event : SocketEvent} (hholds : event ≠ .fail connection) :
    Sending connection request bytes (Sockets.step limit sockets event) ∨
      Answered connection request (sockets.sentTo connection)
        (Sockets.step limit sockets event) := by
  by_cases hother : connection = event.connection
  · subst hother
    obtain ⟨response, written, hloop, hbytes⟩ := h
    cases event with
    | write connection count =>
      by_cases hfits : written + count ≤ response.length
      · refine (Sending.write hloop hbytes limit hfits).imp_left ?_
        rintro ⟨response, written, hloop, hbytes⟩
        exact ⟨response, written, hloop, by omega⟩
      · left
        simp only [Sockets.step, SocketEvent.connection] at hloop ⊢
        rw [hloop]
        dsimp only
        rw [if_neg (by omega), if_neg (by omega)]
        exact ⟨response, written, hloop, hbytes⟩
    | recv connection chunk ambient =>
      left
      simp only [Sockets.step, SocketEvent.connection] at hloop ⊢
      rw [hloop]
      exact ⟨response, written, hloop, hbytes⟩
    | call connection fault =>
      left
      simp only [Sockets.step, SocketEvent.connection] at hloop ⊢
      rw [hloop]
      exact ⟨response, written, hloop, hbytes⟩
    | fail connection => exact absurd rfl hholds
  · obtain ⟨response, written, hloop, hbytes⟩ := h
    exact .inl ⟨response, written,
      (step_loops_of_ne limit sockets event hother).trans hloop, hbytes⟩

end Step

/-- Every loop of a run writes responses of its own connection. -/
theorem ownResponses_run (limit : Option ℕ) (events : List SocketEvent) :
    OwnResponses (runEvents (step limit) initial events) :=
  runEvents_invariant (fun _ event h ↦ h.step limit event)
    (fun _ _ _ hsending ↦ ClientLoop.noConfusion hsending) events

/-- Nothing was written to a connection in full since it had the given responses. -/
def Pending (connection : ℕ) (earlier : List Answer) (sockets : Sockets) : Prop :=
  OwnResponses sockets ∧ sockets.sentTo connection = earlier

theorem Pending.step {connection : ℕ} {earlier : List Answer} {sockets : Sockets}
    (h : Pending connection earlier sockets) (limit : Option ℕ) (event : SocketEvent)
    (hgoing : (step limit sockets event).loops connection ≠ .header []) :
    Pending connection earlier (step limit sockets event) :=
  ⟨h.1.step limit event, (sentTo_step h.1 limit event hgoing).trans h.2⟩

/-- Every request is answered. A request whose handler is running, in whatever state of whatever run
of the server, gets a response that is written in full and is the next one on its connection, as
long as the connection does not break and its handler and its peer go on: no other connection can
keep it waiting, and failing method calls only make the response an error. -/
theorem every_request_answered (limit : Option ℕ) (before : List SocketEvent) {connection : ℕ}
    {request : Bytes} (schedule : ℕ → SocketEvent)
    (hloop : (runEvents (step limit) initial before).loops connection = .handling)
    (hrunning : (runEvents (step limit) initial before).server.running connection = some request)
    (hserved : Served limit connection (runEvents (step limit) initial before) schedule) :
    let sockets := runEvents (step limit) initial before
    ∃ n response, (sockets.after limit schedule n).sentTo connection =
      sockets.sentTo connection ++ [⟨connection, request, response⟩] := by
  intro sockets
  obtain ⟨staged, hstaged⟩ := atStages_run limit before
  have hpending : Pending connection (sockets.sentTo connection) sockets :=
    ⟨ownResponses_run limit before, rfl⟩
  have hhandling : ∃ calls,
      Pending connection (sockets.sentTo connection) (sockets.after limit schedule 0) ∧
        Handling connection request calls (sockets.after limit schedule 0) := by
    rw [hstaged, ServerState.running_unstage, ServerState.running] at hrunning
    cases hplace : staged.connections connection with
    | busy other rest =>
      rw [hplace] at hrunning
      cases hrunning
      exact ⟨_, hpending, hloop, staged, rest.1, rest.2, hstaged, hplace, le_rfl⟩
    | idle => rw [hplace] at hrunning; cases hrunning
    | returned other response => rw [hplace] at hrunning; cases hrunning
    | stopped => rw [hplace] at hrunning; cases hrunning
  obtain ⟨calls, hhandling⟩ := hhandling
  obtain ⟨first, -, bytes, hsending⟩ := hserved.calls.descends
    (fun calls n ↦ Pending connection (sockets.sentTo connection) (sockets.after limit schedule n) ∧
      Handling connection request calls (sockets.after limit schedule n))
    (fun n ↦ ∃ bytes, Pending connection (sockets.sentTo connection)
      (sockets.after limit schedule n) ∧
        Sending connection request bytes (sockets.after limit schedule n))
    (fun calls n h ↦ by
      rw [after_succ]
      rcases h.2.step limit (schedule n) with hnext | ⟨bytes, hnext⟩
      · exact .inl ⟨h.1.step limit _ hnext.going, hnext⟩
      · exact .inr ⟨bytes, h.1.step limit _ hnext.going, hnext⟩)
    (fun calls n h hevent ↦ by
      obtain ⟨fault, hcall⟩ := hevent
      rw [after_succ, hcall]
      rcases h.2.call limit fault with ⟨less, hless, hnext⟩ | ⟨bytes, hnext⟩
      · exact .inl ⟨less, hless, h.1.step limit _ hnext.going, hnext⟩
      · exact .inr ⟨bytes, h.1.step limit _ hnext.going, hnext⟩) hhandling
  obtain ⟨last, -, hanswered⟩ := hserved.takes.descends
    (fun bytes n ↦ Pending connection (sockets.sentTo connection) (sockets.after limit schedule n) ∧
      Sending connection request bytes (sockets.after limit schedule n))
    (fun n ↦ Answered connection request (sockets.sentTo connection)
      (sockets.after limit schedule n))
    (fun bytes n h ↦ by
      rw [after_succ]
      rcases h.2.step limit (hserved.holds n) with hnext | hnext
      · exact .inl ⟨h.1.step limit _ hnext.going, hnext⟩
      · rw [h.1.2] at hnext
        exact .inr hnext)
    (fun bytes n h htakes ↦ by
      rw [after_succ]
      rcases h.2.take limit htakes with ⟨less, hless, hnext⟩ | hnext
      · exact .inl ⟨less, hless, h.1.step limit _ hnext.going, hnext⟩
      · rw [h.1.2] at hnext
        exact .inr hnext) hsending
  exact ⟨last, hanswered⟩

/-- The request of a client that registers has come in. -/
def arrivedRun : List SocketEvent :=
  socketSession 0 soloRegistration 0

/-- Calls of its handler, and between them writing of its response. -/
def servingSchedule (n : ℕ) : SocketEvent :=
  if n % 2 = 0 then .call 0 false else .write 0 23

/-- The second event of the schedule is the last one that something comes of. -/
theorem idle_servingSchedule (n : ℕ) :
    ((runEvents (step none) initial arrivedRun).after none servingSchedule (n + 2)).loops 0 =
      .header [] := by
  induction n with
  | zero => decide +kernel
  | succ n ih =>
    rw [after_succ, servingSchedule]
    split_ifs
    · simp only [step, ih]
    · simp only [step, ih]

theorem served_servingSchedule :
    Served none 0 (runEvents (step none) initial arrivedRun) servingSchedule where
  holds n := by
    rw [servingSchedule]
    split_ifs <;> exact SocketEvent.noConfusion
  calls n := ⟨2 * n, by omega, false, by rw [servingSchedule, if_pos (by omega)]⟩
  takes n := by
    refine ⟨2 * n + 1, by omega, 23, by rw [servingSchedule, if_neg (by omega)], ?_⟩
    intro answer written hsending
    cases n with
    | zero =>
      have hloop :
          ((runEvents (step none) initial arrivedRun).after none servingSchedule 1).loops 0 =
          .sending ⟨0, soloRegistration, responseFrame responseRegister soloRow.id⟩ 0 := by
        decide +kernel
      rw [Nat.mul_zero, Nat.zero_add, hloop] at hsending
      cases hsending
      decide
    | succ n =>
      rw [show 2 * (n + 1) + 1 = 2 * n + 1 + 2 by omega,
        idle_servingSchedule (2 * n + 1)] at hsending
      cases hsending

/-- The response of `every_request_answered` is written. -/
theorem every_request_answered_registration :
    ∃ n response,
      ((runEvents (step none) initial arrivedRun).after none servingSchedule n).sentTo 0 =
        (runEvents (step none) initial arrivedRun).sentTo 0 ++ [⟨0, soloRegistration, response⟩] :=
  every_request_answered none arrivedRun servingSchedule (by decide +kernel) (by decide +kernel)
    served_servingSchedule

end MessageU.Server.Sockets
