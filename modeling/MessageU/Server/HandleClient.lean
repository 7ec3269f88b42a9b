import MessageU.Server.Sequential

/-!
# Framing in `handle_client`

`connection.py` and the loop of `handle_client` in `main.py`, as a program that receives from a
socket, calls `request_handler_main` and sends. `Peer` is a client that sends a finite stream of
bytes and then closes. The socket hands the stream out in pieces: a `recv` returns as many bytes as
the next of its `cuts` says, at least one while there are any and never more than it was asked for,
so that every way to cut the stream is some list of cuts.

`framesOf` splits a stream into its complete frames, `restOf` is what is left behind them, and
`handle_client_frames` says that the loop hands exactly these frames to the handler, each whole and
alone, whatever the cuts are. One call of `receive_exact` is `run_receiveLoop` and one round of the
loop is `run_serveOne`.
-/

set_option autoImplicit false
set_option relaxedAutoImplicit false

namespace MessageU.Server

open Library Interaction

/-! ### The loop -/

/-- What `handle_client` asks of its surroundings. -/
inductive SocketCall
  /-- `conn.recv(size)` -/
  | recv (size : ℕ)
  /-- `request_handler_main(data, db)` -/
  | handle (data : Bytes)
  /-- `conn.sendall(response)` -/
  | sendall (response : Bytes)

/-- What a call returns. -/
abbrev SocketCall.Result : SocketCall → Type
  | .recv _ | .handle _ => Bytes
  | .sendall _ => Unit

/-- The calls as the operations of a program. -/
abbrev SocketCalls : Signature where
  Operation := SocketCall
  Result := SocketCall.Result

/-- How a loop ends early: by an exception of Python, or after the rounds it was given. -/
inductive LoopError
  | raised (exception : PyError)
  | outOfFuel
  deriving DecidableEq, Repr

/-- A part of `handle_client`. -/
abbrev Loop (α : Type) := Interaction SocketCalls LoopError α

/-- The loop of `receive_exact`. -/
def receiveLoop (size : ℕ) : (rounds : ℕ) → (data : Bytes) → Loop Bytes
  | 0, data => if data.length < size then finished (.error .outOfFuel) else pure data
  | rounds + 1, data =>
    if data.length < size then
      (request (SocketCall.recv (size - data.length)) finished : Loop Bytes) >>= fun chunk ↦
        if chunk = [] then finished (.error (.raised .connectionError))
        else receiveLoop size rounds (data ++ chunk)
    else pure data

/-- `receive_exact`. A round receives at least one byte. -/
def receiveExact (size : ℕ) : Loop Bytes :=
  receiveLoop size size []

/-- `get_payload_size`. -/
def getPayloadSize (header : Bytes) : ℕ :=
  fromBytes (slice header payloadSizeOffset contentSize)

/-- The body of the loop of `handle_client`. -/
def serveOne : Loop Unit := do
  let header ← receiveExact headerSize
  let payload ← receiveExact (getPayloadSize header)
  let response ← (request (SocketCall.handle (header ++ payload)) finished : Loop Bytes)
  (request (SocketCall.sendall response) finished : Loop Unit)

/-- The loop of `handle_client`. Every exception ends it. -/
def handleClient : (rounds : ℕ) → Loop Unit
  | 0 => finished (.error .outOfFuel)
  | rounds + 1 => serveOne.attempt fun
    | .ok _ => handleClient rounds
    | .error (.raised _) => pure ()
    | .error .outOfFuel => finished (.error .outOfFuel)

/-! ### The other end of the socket -/

/-- A client that sends a stream of bytes and closes, the database, and what has happened: the
requests that were handled and the responses that were sent. -/
structure Peer where
  stream : Bytes
  cuts : List ℕ
  tables : Tables
  handled : List Bytes
  sent : List Bytes

/-- How many bytes a `recv` returns, where there are so many. -/
def Peer.cut (peer : Peer) (size : ℕ) : ℕ :=
  max 1 (min size (peer.cuts.headD size))

/-- A call of `handle_client`. `ambient` is what each request reads from outside the database. -/
def SocketCall.exec (limit : Option ℕ) (ambient : ℕ → Ambient) (peer : Peer) :
    (call : SocketCall) → Peer × Except LoopError call.Result
  | .recv size =>
    ({ peer with stream := peer.stream.drop (peer.cut size), cuts := peer.cuts.tail },
      .ok (peer.stream.take (peer.cut size)))
  | .handle data =>
    let served := serve limit peer.tables data (ambient peer.handled.length)
    ({ peer with tables := served.1, handled := peer.handled ++ [data] },
      served.2.mapError .raised)
  | .sendall response => ({ peer with sent := peer.sent ++ [response] }, .ok ())

/-- Run a part of `handle_client`. -/
def Loop.exec {α : Type} (limit : Option ℕ) (ambient : ℕ → Ambient) (loop : Loop α) (peer : Peer) :
    Peer × Except LoopError α :=
  loop.run (SocketCall.exec limit ambient) peer

/-- A `recv` returns no more than it was asked for, and nothing only at the end of the stream. -/
theorem recv_chunk (peer : Peer) {size : ℕ} (hsize : 0 < size) :
    (peer.stream.take (peer.cut size)).length ≤ size ∧
      (peer.stream.take (peer.cut size) = [] ↔ peer.stream = []) := by
  have hcut : 0 < peer.cut size ∧ peer.cut size ≤ size := by
    rw [Peer.cut]
    omega
  constructor
  · exact (List.length_take_le _ _).trans hcut.2
  · rw [List.take_eq_nil_iff]
    exact ⟨fun h ↦ h.resolve_left hcut.1.ne', .inr⟩

/-! ### The frames of a stream -/

/-- A complete frame at the beginning of a stream: its length, if the stream holds it whole. -/
def frameLength (stream : Bytes) : Option ℕ :=
  if headerSize ≤ stream.length ∧
      headerSize + getPayloadSize (stream.take headerSize) ≤ stream.length then
    some (headerSize + getPayloadSize (stream.take headerSize))
  else none

theorem frameLength_bounds {stream : Bytes} {size : ℕ} (h : frameLength stream = some size) :
    headerSize ≤ size ∧ size ≤ stream.length := by
  unfold frameLength at h
  split_ifs at h with hwhole
  cases h
  exact ⟨Nat.le_add_right _ _, hwhole.2⟩

/-- The complete frames of a stream, in order, and what is left behind them. -/
def splitFrames (stream : Bytes) : List Bytes × Bytes :=
  match _hframe : frameLength stream with
  | none => ([], stream)
  | some size =>
    ((stream.take size) :: (splitFrames (stream.drop size)).1, (splitFrames (stream.drop size)).2)
termination_by stream.length
decreasing_by
  all_goals
    have hbounds := frameLength_bounds _hframe
    simp only [headerSize] at hbounds
    rw [List.length_drop]
    omega

/-- The maximal complete frames of a stream, in order. -/
def framesOf (stream : Bytes) : List Bytes :=
  (splitFrames stream).1

/-- The incomplete frame at the end of a stream. -/
def restOf (stream : Bytes) : Bytes :=
  (splitFrames stream).2

theorem splitFrames_none {stream : Bytes} (h : frameLength stream = none) :
    framesOf stream = [] ∧ restOf stream = stream := by
  rw [framesOf, restOf, splitFrames]
  split
  · exact ⟨rfl, rfl⟩
  · rename_i hsome
    rw [h] at hsome
    cases hsome

theorem splitFrames_some {stream : Bytes} {size : ℕ} (h : frameLength stream = some size) :
    framesOf stream = stream.take size :: framesOf (stream.drop size) ∧
      restOf stream = restOf (stream.drop size) := by
  rw [framesOf, restOf, splitFrames]
  split
  · rename_i hnone
    rw [h] at hnone
    cases hnone
  · rename_i other hsome
    rw [h] at hsome
    cases hsome
    exact ⟨rfl, rfl⟩

/-- What is left behind the frames is no complete frame. -/
theorem frameLength_restOf (stream : Bytes) : frameLength (restOf stream) = none := by
  induction hlength : stream.length using Nat.strong_induction_on generalizing stream with
  | _ length ih =>
    cases hframe : frameLength stream with
    | none => rw [(splitFrames_none hframe).2, hframe]
    | some size =>
      have hbounds := frameLength_bounds hframe
      simp only [headerSize] at hbounds
      rw [(splitFrames_some hframe).2]
      exact ih (stream.drop size).length (by rw [List.length_drop]; omega) _ rfl

/-- The frames and the rest are the stream. -/
theorem flatten_framesOf (stream : Bytes) :
    (framesOf stream).flatten ++ restOf stream = stream := by
  induction hlength : stream.length using Nat.strong_induction_on generalizing stream with
  | _ length ih =>
    cases hframe : frameLength stream with
    | none => rw [(splitFrames_none hframe).1, (splitFrames_none hframe).2, List.flatten_nil, List.nil_append]
    | some size =>
      have hbounds := frameLength_bounds hframe
      simp only [headerSize] at hbounds
      rw [(splitFrames_some hframe).1, (splitFrames_some hframe).2, List.flatten_cons,
        List.append_assoc, ih (stream.drop size).length (by rw [List.length_drop]; omega) _ rfl,
        List.take_append_drop]

/-- A frame has the length its header declares. -/
def IsFrame (data : Bytes) : Prop :=
  headerSize ≤ data.length ∧ data.length = headerSize + payloadSizeOf data

/-- The payload size is read from the header. -/
theorem getPayloadSize_take {data : Bytes} {size : ℕ} (hsize : headerSize ≤ size) :
    payloadSizeOf (data.take size) = getPayloadSize (data.take headerSize) := by
  have hfield : ∀ bound, headerSize ≤ bound →
      slice (data.take bound) payloadSizeOffset contentSize =
        slice data payloadSizeOffset contentSize := by
    intro bound hbound
    simp only [headerSize] at hbound
    rw [slice, slice, List.drop_take, List.take_take, min_eq_left (by simp; omega)]
  rw [payloadSizeOf, getPayloadSize, hfield size hsize, hfield headerSize le_rfl]

/-- A complete frame at the beginning of a stream is a frame. -/
theorem isFrame_take {stream : Bytes} {size : ℕ} (h : frameLength stream = some size) :
    IsFrame (stream.take size) := by
  obtain ⟨hheader, hwhole⟩ := frameLength_bounds h
  have hlength : (stream.take size).length = size := List.length_take_of_le hwhole
  unfold frameLength at h
  split_ifs at h
  refine ⟨hheader.trans hlength.ge, ?_⟩
  rw [hlength, getPayloadSize_take hheader]
  exact (Option.some.inj h).symm

theorem isFrame_of_mem {stream data : Bytes} (h : data ∈ framesOf stream) : IsFrame data := by
  induction hlength : stream.length using Nat.strong_induction_on generalizing stream with
  | _ length ih =>
    cases hframe : frameLength stream with
    | none =>
      rw [(splitFrames_none hframe).1] at h
      cases h
    | some size =>
      have hbounds := frameLength_bounds hframe
      simp only [headerSize] at hbounds
      rw [(splitFrames_some hframe).1] at h
      rcases List.mem_cons.mp h with rfl | hrest
      · exact isFrame_take hframe
      · exact ih (stream.drop size).length (by rw [List.length_drop]; omega) hrest rfl

/-! ### Receiving -/

/-- Two parts of `handle_client`, one after the other. -/
theorem exec_bind {α β : Type} {limit : Option ℕ} {ambient : ℕ → Ambient} (loop : Loop α)
    (next : α → Loop β) (peer : Peer) :
    Loop.exec limit ambient (loop >>= next) peer =
      Loop.exec limit ambient (proceed next (Loop.exec limit ambient loop peer).2)
        (Loop.exec limit ambient loop peer).1 :=
  run_bind _ loop next peer

/-- The loop of `receive_exact` returns the bytes that are missing if the stream has them, and
raises otherwise. Assumes: as many rounds as bytes are missing. -/
theorem run_receiveLoop (limit : Option ℕ) (ambient : ℕ → Ambient) (size rounds : ℕ) (data : Bytes)
    (peer : Peer) (hdata : data.length ≤ size) (hrounds : size ≤ data.length + rounds) :
    ∃ cuts, Loop.exec limit ambient (receiveLoop size rounds data) peer =
      if size ≤ data.length + peer.stream.length then
        ({ peer with stream := peer.stream.drop (size - data.length), cuts := cuts },
          .ok (data ++ peer.stream.take (size - data.length)))
      else ({ peer with stream := [], cuts := cuts }, .error (.raised .connectionError)) := by
  induction rounds generalizing data peer with
  | zero =>
    have hfull : data.length = size := le_antisymm hdata (by simpa using hrounds)
    refine ⟨peer.cuts, ?_⟩
    rw [receiveLoop, if_neg (by omega), if_pos (by omega), hfull, Nat.sub_self, List.take_zero,
      List.append_nil]
    rfl
  | succ rounds ih =>
    rw [receiveLoop]
    by_cases hmore : data.length < size
    · rw [if_pos hmore]
      obtain ⟨hchunk, hempty⟩ := recv_chunk peer (Nat.sub_pos_of_lt hmore)
      have hrecv : Loop.exec limit ambient ((request (SocketCall.recv (size - data.length))
          finished : Loop Bytes) >>= fun chunk ↦
            if chunk = [] then finished (.error (.raised .connectionError))
            else receiveLoop size rounds (data ++ chunk)) peer =
          Loop.exec limit ambient (if peer.stream.take (peer.cut (size - data.length)) = [] then
            finished (.error (.raised .connectionError))
          else receiveLoop size rounds
            (data ++ peer.stream.take (peer.cut (size - data.length))))
          { peer with
            stream := peer.stream.drop (peer.cut (size - data.length))
            cuts := peer.cuts.tail } := rfl
      rw [hrecv]
      by_cases hend : peer.stream = []
      · refine ⟨peer.cuts.tail, ?_⟩
        rw [if_pos (hempty.mpr hend), hend, if_neg (by simpa using hmore), List.drop_nil]
        rfl
      · have hpiece : peer.stream.take (peer.cut (size - data.length)) ≠ [] := mt hempty.mp hend
        rw [if_neg hpiece]
        -- the piece that is received, as long as there are bytes
        obtain ⟨cut, hcut, htake, hdrop⟩ : ∃ cut, cut ≤ peer.stream.length ∧
            peer.stream.take (peer.cut (size - data.length)) = peer.stream.take cut ∧
            peer.stream.drop (peer.cut (size - data.length)) = peer.stream.drop cut := by
          refine ⟨min (peer.cut (size - data.length)) peer.stream.length, min_le_right _ _, ?_, ?_⟩
          · rw [List.take_eq_take_min]
          · rw [List.drop_eq_drop_min]
        rw [htake] at hchunk hpiece ⊢
        rw [hdrop]
        have hpos : 0 < (peer.stream.take cut).length := List.length_pos_iff.mpr hpiece
        have htaken : (peer.stream.take cut).length = cut := List.length_take_of_le hcut
        have hlength : (data ++ peer.stream.take cut).length = data.length + cut := by
          rw [List.length_append, htaken]
        have hleft : (peer.stream.drop cut).length = peer.stream.length - cut := List.length_drop
        obtain ⟨cuts, hrest⟩ := ih (data ++ peer.stream.take cut)
          { peer with stream := peer.stream.drop cut, cuts := peer.cuts.tail } (by omega) (by omega)
        refine ⟨cuts, hrest.trans ?_⟩
        have henough : (size ≤ (data ++ peer.stream.take cut).length +
          (peer.stream.drop cut).length) ↔
            size ≤ data.length + peer.stream.length := by omega
        have hsplit : size - data.length = cut + (size - (data.length + cut)) := by omega
        by_cases hall : size ≤ data.length + peer.stream.length
        · rw [if_pos (henough.mpr hall), if_pos hall, hlength, List.drop_drop, ← hsplit,
            List.append_assoc, hsplit, List.take_add]
        · rw [if_neg (mt henough.mp hall), if_neg hall]
    · rw [if_neg hmore]
      have hfull : data.length = size := le_antisymm hdata (not_lt.mp hmore)
      refine ⟨peer.cuts, ?_⟩
      rw [if_pos (by omega), hfull, Nat.sub_self, List.take_zero, List.append_nil]
      rfl

/-- `receive_exact` returns the next bytes of the stream, or raises at its end. -/
theorem run_receiveExact (limit : Option ℕ) (ambient : ℕ → Ambient) (size : ℕ) (peer : Peer) :
    ∃ cuts, Loop.exec limit ambient (receiveExact size) peer =
      if size ≤ peer.stream.length then
        ({ peer with stream := peer.stream.drop size, cuts := cuts }, .ok (peer.stream.take size))
      else ({ peer with stream := [], cuts := cuts }, .error (.raised .connectionError)) := by
  obtain ⟨cuts, hreceive⟩ := run_receiveLoop limit ambient size size [] peer
    (Nat.zero_le _) (by simp)
  rw [List.length_nil, Nat.zero_add, Nat.sub_zero, List.nil_append] at hreceive
  exact ⟨cuts, hreceive⟩

/-! ### Serving -/

/-- The handler never raises. -/
theorem exists_serve (limit : Option ℕ) (tables : Tables) (data : Bytes) (ambient : Ambient) :
    ∃ response, (serve limit tables data ambient).2 = .ok response := by
  obtain ⟨response, _, hserve, _⟩ := ServerState.run_session limit data ambient 0
    { ServerState.initial Staged with tables := tables } (.inl rfl)
  exact ⟨response, congrArg Prod.snd hserve⟩

/-- Requests of one connection, answered one after the other: the tables they leave and the
responses. `count` requests have been answered before. -/
def serveAll (limit : Option ℕ) (ambient : ℕ → Ambient) :
    (count : ℕ) → Tables → List Bytes → Tables × List Bytes
  | _, tables, [] => (tables, [])
  | count, tables, data :: rest =>
    let served := serve limit tables data (ambient count)
    let others := serveAll limit ambient (count + 1) served.1 rest
    (others.1, caught served.2 :: others.2)

section Serve

variable (limit : Option ℕ) (ambient : ℕ → Ambient) (peer : Peer)

/-- One round of the loop, on a complete frame. -/
theorem run_serveOne {size : ℕ} (hframe : frameLength peer.stream = some size) :
    ∃ cuts, Loop.exec limit ambient serveOne peer =
      let served := serve limit peer.tables (peer.stream.take size) (ambient peer.handled.length)
      ({ stream := peer.stream.drop size
         cuts := cuts
         tables := served.1
         handled := peer.handled ++ [peer.stream.take size]
         sent := peer.sent ++ [caught served.2] }, .ok ()) := by
  have hwhole : headerSize ≤ peer.stream.length ∧
      headerSize + getPayloadSize (peer.stream.take headerSize) ≤ peer.stream.length ∧
        headerSize + getPayloadSize (peer.stream.take headerSize) = size := by
    unfold frameLength at hframe
    split_ifs at hframe with h
    exact ⟨h.1, h.2, Option.some.inj hframe⟩
  obtain ⟨hheader, hpayload, rfl⟩ := hwhole
  obtain ⟨headerCuts, hreceiveHeader⟩ := run_receiveExact limit ambient headerSize peer
  rw [if_pos hheader] at hreceiveHeader
  obtain ⟨cuts, hreceivePayload⟩ := run_receiveExact limit ambient
    (getPayloadSize (peer.stream.take headerSize))
    { peer with stream := peer.stream.drop headerSize, cuts := headerCuts }
  rw [if_pos (by rw [List.length_drop]; omega), List.drop_drop] at hreceivePayload
  obtain ⟨response, hserve⟩ := exists_serve limit peer.tables
    (peer.stream.take (headerSize + getPayloadSize (peer.stream.take headerSize)))
    (ambient peer.handled.length)
  refine ⟨cuts, ?_⟩
  have hdata : peer.stream.take headerSize ++ (peer.stream.drop headerSize).take
      (getPayloadSize (peer.stream.take headerSize)) =
        peer.stream.take (headerSize + getPayloadSize (peer.stream.take headerSize)) :=
    List.take_add.symm
  let received : Peer :=
    { peer with
      stream := peer.stream.drop (headerSize + getPayloadSize (peer.stream.take headerSize))
      cuts := cuts }
  generalize peer.stream.take (headerSize + getPayloadSize (peer.stream.take headerSize)) = data
    at hdata hserve
  have hhandle : Loop.exec limit ambient
      (request (SocketCall.handle data) finished : Loop Bytes) received =
        ({ received with
            tables := (serve limit peer.tables data (ambient peer.handled.length)).1
            handled := peer.handled ++ [data] }, .ok response) := by
    change (({ received with
      tables := (serve limit peer.tables data (ambient peer.handled.length)).1
      handled := peer.handled ++ [data] } : Peer),
        (serve limit peer.tables data (ambient peer.handled.length)).2.mapError
          LoopError.raised) = _
    rw [hserve]
    rfl
  rw [serveOne, exec_bind, hreceiveHeader, proceed_ok, exec_bind, hreceivePayload,
    proceed_ok, hdata,
    exec_bind]
  change Loop.exec limit ambient (proceed _ (Loop.exec limit ambient _ received).2)
    (Loop.exec limit ambient _ received).1 = _
  rw [hhandle]
  dsimp only
  rw [hserve]
  rfl

/-- One round of the loop, at the end of the stream. -/
theorem run_serveOne_end (hframe : frameLength peer.stream = none) :
    ∃ cuts, Loop.exec limit ambient serveOne peer =
      ({ peer with stream := [], cuts := cuts }, .error (.raised .connectionError)) := by
  obtain ⟨headerCuts, hreceiveHeader⟩ := run_receiveExact limit ambient headerSize peer
  rw [serveOne, exec_bind]
  by_cases hheader : headerSize ≤ peer.stream.length
  · rw [if_pos hheader] at hreceiveHeader
    obtain ⟨cuts, hreceivePayload⟩ := run_receiveExact limit ambient
      (getPayloadSize (peer.stream.take headerSize))
      { peer with stream := peer.stream.drop headerSize, cuts := headerCuts }
    have hshort : ¬getPayloadSize (peer.stream.take headerSize) ≤
        (peer.stream.drop headerSize).length := by
      intro henough
      rw [List.length_drop] at henough
      unfold frameLength at hframe
      rw [if_pos ⟨hheader, by omega⟩] at hframe
      cases hframe
    rw [if_neg hshort] at hreceivePayload
    rw [hreceiveHeader, proceed_ok, exec_bind, hreceivePayload]
    exact ⟨cuts, rfl⟩
  · rw [if_neg hheader] at hreceiveHeader
    rw [hreceiveHeader]
    exact ⟨headerCuts, rfl⟩

/-- The loop of `handle_client` handles the frames of the stream. Assumes: more rounds than
bytes. -/
theorem run_handleClient (rounds : ℕ) (hrounds : peer.stream.length < rounds) :
    ∃ cuts, Loop.exec limit ambient (handleClient rounds) peer =
      let served := serveAll limit ambient peer.handled.length peer.tables (framesOf peer.stream)
      ({ stream := []
         cuts := cuts
         tables := served.1
         handled := peer.handled ++ framesOf peer.stream
         sent := peer.sent ++ served.2 }, .ok ()) := by
  induction rounds generalizing peer with
  | zero => exact absurd hrounds (Nat.not_lt_zero _)
  | succ rounds ih =>
    have hround : ∀ after outcome, Loop.exec limit ambient serveOne peer = (after, outcome) →
        Loop.exec limit ambient (handleClient (rounds + 1)) peer =
          Loop.exec limit ambient (match outcome with
            | .ok _ => handleClient rounds
            | .error (.raised _) => pure ()
            | .error .outOfFuel => finished (.error .outOfFuel)) after := by
      intro after outcome h
      have hattempt := run_attempt (SocketCall.exec limit ambient) serveOne (fun
        | .ok _ => handleClient rounds
        | .error (.raised _) => pure ()
        | .error .outOfFuel => finished (.error .outOfFuel)) peer
      change Loop.exec limit ambient (handleClient (rounds + 1)) peer =
        Loop.exec limit ambient (match (Loop.exec limit ambient serveOne peer).2 with
          | .ok _ => handleClient rounds
          | .error (.raised _) => pure ()
          | .error .outOfFuel => finished (.error .outOfFuel))
          (Loop.exec limit ambient serveOne peer).1 at hattempt
      rw [hattempt, h]
    cases hframe : frameLength peer.stream with
    | none =>
      obtain ⟨cuts, hend⟩ := run_serveOne_end limit ambient peer hframe
      refine ⟨cuts, ?_⟩
      rw [hround _ _ hend, (splitFrames_none hframe).1, serveAll, List.append_nil]
      dsimp only
      rw [List.append_nil]
      rfl
    | some size =>
      have hbounds := frameLength_bounds hframe
      simp only [headerSize] at hbounds
      obtain ⟨roundCuts, hserve⟩ := run_serveOne limit ambient peer hframe
      obtain ⟨cuts, hrest⟩ := ih
        { stream := peer.stream.drop size
          cuts := roundCuts
          tables := (serve limit peer.tables (peer.stream.take size)
            (ambient peer.handled.length)).1
          handled := peer.handled ++ [peer.stream.take size]
          sent := peer.sent ++ [caught (serve limit peer.tables (peer.stream.take size)
            (ambient peer.handled.length)).2] }
        (by rw [List.length_drop]; omega)
      refine ⟨cuts, ?_⟩
      rw [hround _ _ hserve, (splitFrames_some hframe).1, serveAll]
      dsimp only at hrest ⊢
      rw [hrest, List.length_append, List.length_singleton, List.append_assoc, List.append_assoc]
      rfl

end Serve

/-- The server's behaviour depends on the bytes of the stream and not on how they are cut. For every
stream a client sends before it closes and every way the socket cuts it, the loop of `handle_client`
ends, having handled exactly the complete frames of the stream, in order, each whole and alone, and
having sent exactly one response for each; the responses and the tables are those of the frames
answered one after the other. The frames and the incomplete rest make up the stream, and every
frame has the length that the handler compares it with. -/
theorem handle_client_frames (limit : Option ℕ) (ambient : ℕ → Ambient) (tables : Tables)
    (stream : Bytes) (cuts : List ℕ) :
    let peer : Peer := ⟨stream, cuts, tables, [], []⟩
    let run := Loop.exec limit ambient (handleClient (stream.length + 1)) peer
    let served := serveAll limit ambient 0 tables (framesOf stream)
    run.2 = .ok () ∧ run.1.handled = framesOf stream ∧ run.1.sent = served.2 ∧
      run.1.tables = served.1 ∧ (framesOf stream).flatten ++ restOf stream = stream ∧
      frameLength (restOf stream) = none ∧
      ∀ data ∈ framesOf stream, headerSize ≤ data.length ∧
        data.length = headerSize + payloadSizeOf data := by
  intro peer run served
  obtain ⟨left, hrun⟩ := run_handleClient limit ambient peer (stream.length + 1)
    (Nat.lt_succ_self _)
  change run = _ at hrun
  rw [hrun]
  exact ⟨rfl, rfl, rfl, rfl, flatten_framesOf stream, frameLength_restOf stream,
    fun data hdata ↦ isFrame_of_mem hdata⟩

end MessageU.Server
