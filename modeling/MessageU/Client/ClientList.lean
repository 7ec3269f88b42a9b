import MessageU.Client.Response
import MessageU.Server.Sequential

/-!
# The client list and the names of clients

A name goes from the table of the server into the cache of a client: `clients_list_handler` cuts it
to `NAME_SIZE - 1` bytes and fills its field up with zeros, and `responseClientList` takes the bytes
before the first zero. `exec_listLoop` is the loop of the client on any sequence of entries, and
`responseClientList_clientListPayload` is the client on the response of the server: it learns the
truncated name of every other client.

A name is resolved to the client that registered it if and only if nothing was cut off
(`names_resolve_iff`). The server accepts names of 255 bytes, which the C++ client never sends but
another client may, and such a name is not found (`long_name_unresolved`).
-/

set_option autoImplicit false
set_option relaxedAutoImplicit false

namespace MessageU.Client

open Library

/-! ### Frames of the server -/

/-- The seven bytes in front of the payload of a response. -/
def frameHeader (code size : ℕ) : Bytes :=
  littleEndian 1 Server.serverVersion ++ littleEndian 2 code ++ littleEndian 4 size

theorem frameHeader_length (code size : ℕ) : (frameHeader code size).length = headerSize := by
  simp [frameHeader]

theorem responseFrame_eq (code : ℕ) (payload : Bytes) :
    Server.responseFrame code payload = frameHeader code payload.length ++ payload :=
  rfl

theorem responseFrame_length (code : ℕ) (payload : Bytes) :
    (Server.responseFrame code payload).length = headerSize + payload.length := by
  rw [responseFrame_eq, List.length_append, frameHeader_length]

/-- The client reads the code that the server wrote. -/
theorem codeOf_responseFrame {code : ℕ} (hcode : code < 2 ^ 16) (payload : Bytes) :
    codeOf (Server.responseFrame code payload) = code :=
  Server.responseCode_responseFrame hcode payload

/-- A frame is long enough for the dispatcher. -/
theorem headerSize_le_responseFrame (code : ℕ) (payload : Bytes) :
    ¬(Server.responseFrame code payload).length < headerSize := by
  rw [responseFrame_length]
  exact Nat.not_lt.mpr (Nat.le_add_right _ _)

/-! ### The loop over the entries -/

/-- An entry of a client list: a client ID and a name field. -/
abbrev ListEntry := ClientId × FixedBytes nameSize

/-- The bytes of an entry. -/
def ListEntry.bytes (entry : ListEntry) : Bytes :=
  entry.1.val ++ entry.2.val

/-- The name in an entry. -/
def ListEntry.name (entry : ListEntry) : Bytes :=
  entry.2.val.takeWhile (· ≠ 0)

theorem ListEntry.bytes_length (entry : ListEntry) :
    entry.bytes.length = clientIdSize + nameSize := by
  rw [bytes, List.length_append, entry.1.property, entry.2.property]

/-- What a client does with an entry: it is printed and cached. -/
def ClientState.learn (state : ClientState) (entry : ListEntry) : ClientState :=
  { state with
    ctx := state.ctx.setFriendBase entry.1 entry.name
    output := state.output ++ [.listed entry.name entry.1] }

/-- A client ID in front of further data is read. -/
theorem readClientID_append (front : Bytes) (id : ClientId) (rest : Bytes) :
    readClientID (front ++ (id.val ++ rest)) front.length = .ok id := by
  have hinside : front.length + clientIdSize ≤ (front ++ (id.val ++ rest)).length := by
    rw [List.length_append, List.length_append, id.property]
    omega
  rw [readClientID, dif_pos hinside]
  exact congrArg Except.ok (Subtype.ext (slice_append_append rfl id.property rest))

/-- The name of an entry in front of further data is read. -/
theorem entryName_append (front : Bytes) (entry : ListEntry) (rest : Bytes) :
    entryName (front ++ (entry.bytes ++ rest)) front.length = entry.name := by
  have hfront : (front ++ entry.1.val).length = front.length + clientIdSize := by
    rw [List.length_append, entry.1.property]
  rw [entryName, ListEntry.bytes, List.append_assoc entry.1.val, ← List.append_assoc front,
    slice_append_append hfront entry.2.property, ListEntry.name]

/-- The loop learns every entry. Assumes: more rounds than entries. -/
theorem exec_listLoop (crypto : Crypto) (entries : List ListEntry) (front : Bytes) (rounds : ℕ)
    (hrounds : entries.length < rounds) (state : ClientState) :
    (listLoop (front ++ entries.flatMap ListEntry.bytes) rounds front.length).exec crypto state =
      (entries.foldl ClientState.learn state, .ok ()) := by
  induction entries generalizing front rounds state with
  | nil =>
    obtain ⟨rounds, rfl⟩ := Nat.exists_eq_add_of_lt hrounds
    have hend : ¬front.length < (front ++ [].flatMap ListEntry.bytes).length := by simp
    rw [listLoop, if_neg hend]
    rfl
  | cons entry rest ih =>
    obtain ⟨rounds, rfl⟩ : ∃ before, rounds = before + 1 :=
      Nat.exists_eq_succ_of_ne_zero (Nat.ne_zero_of_lt hrounds)
    rw [List.flatMap_cons]
    have hmore :
        front.length < (front ++ (entry.bytes ++ rest.flatMap ListEntry.bytes)).length := by
      rw [List.length_append, List.length_append, entry.bytes_length]
      simp
    have hread : readClientID (front ++ (entry.bytes ++ rest.flatMap ListEntry.bytes))
        front.length = .ok entry.1 := by
      rw [ListEntry.bytes, List.append_assoc]
      exact readClientID_append front entry.1 _
    have hnext : (front ++ entry.bytes).length = front.length + (clientIdSize + nameSize) := by
      rw [List.length_append, entry.bytes_length]
    have hrest := ih (front ++ entry.bytes) rounds (Nat.lt_of_succ_lt_succ hrounds)
      (state.learn entry)
    rw [hnext, List.append_assoc] at hrest
    rw [listLoop, if_pos hmore, hread, entryName_append]
    exact hrest

/-! ### The cache after a list of entries -/

/-- The context learns the entries one after the other. -/
theorem foldl_learn_ctx (entries : List ListEntry) (state : ClientState) :
    (entries.foldl ClientState.learn state).ctx =
      entries.foldl (fun ctx entry ↦ ctx.setFriendBase entry.1 entry.name) state.ctx := by
  induction entries generalizing state with
  | nil => rfl
  | cons entry rest ih => exact ih (state.learn entry)

/-- Learning reads nothing from the console. -/
theorem foldl_learn_console (entries : List ListEntry) (state : ClientState) :
    (entries.foldl ClientState.learn state).console = state.console := by
  induction entries generalizing state with
  | nil => rfl
  | cons entry rest ih => exact ih (state.learn entry)

/-- An ID that is not listed keeps its entry. -/
theorem tryGetFriendCopy_foldl_of_notMem (entries : List ListEntry) (ctx : ClientContext)
    {uuid : ClientId} (huuid : ∀ entry ∈ entries, entry.1 ≠ uuid) :
    (entries.foldl (fun ctx entry ↦ ctx.setFriendBase entry.1 entry.name) ctx).tryGetFriendCopy
      uuid = ctx.tryGetFriendCopy uuid := by
  induction entries generalizing ctx with
  | nil => rfl
  | cons entry rest ih =>
    rw [List.foldl_cons, ih _ fun other hother ↦ huuid other (List.mem_cons_of_mem _ hother),
      ClientContext.tryGetFriendCopy_setFriendBase, if_neg (huuid entry List.mem_cons_self)]

/-- A listed ID has its name. Assumes: the listed IDs are distinct. -/
theorem friendName_foldl_of_mem (entries : List ListEntry) (ctx : ClientContext)
    (hnodup : (entries.map Prod.fst).Nodup) {entry : ListEntry} (hentry : entry ∈ entries) :
    ((entries.foldl (fun ctx entry ↦ ctx.setFriendBase entry.1 entry.name) ctx).tryGetFriendCopy
      entry.1).map Friend.friendName = some entry.name := by
  induction entries generalizing ctx with
  | nil => exact absurd hentry List.not_mem_nil
  | cons first rest ih =>
    rw [List.map_cons, List.nodup_cons] at hnodup
    rcases List.mem_cons.mp hentry with rfl | hrest
    · have hlast : ∀ other ∈ rest, other.1 ≠ entry.1 :=
        fun other hother heq ↦ hnodup.1 (heq ▸ List.mem_map_of_mem hother)
      rw [List.foldl_cons, tryGetFriendCopy_foldl_of_notMem rest _ hlast,
        ClientContext.tryGetFriendCopy_setFriendBase, if_pos rfl]
      rfl
    · exact ih _ hnodup.2 hrest

theorem indexed_foldl (entries : List ListEntry) {ctx : ClientContext} (h : ctx.Indexed) :
    (entries.foldl (fun ctx entry ↦ ctx.setFriendBase entry.1 entry.name) ctx).Indexed := by
  induction entries generalizing ctx with
  | nil => exact h
  | cons entry rest ih => exact ih (h.setFriendBase entry.1 entry.name)

/-! ### The response of the server -/

theorem nameField_length (userName : Bytes) :
    (Server.nameField userName).length = nameSize := by
  rw [Server.nameField, List.length_append, List.length_take, List.length_replicate]
  simp

/-- The entry of a client in the list of the server. -/
def listEntry (client : Bytes × Bytes) : ListEntry :=
  (.ofBytes clientIdSize client.1, ⟨Server.nameField client.2, nameField_length client.2⟩)

/-- An ASCII name without a zero arrives truncated. -/
theorem listEntry_name {client : Bytes × Bytes} (hascii : ∀ code ∈ client.2, code < 128)
    (hnoNul : ∀ code ∈ client.2, code ≠ 0) :
    (listEntry client).name = client.2.take (nameSize - 1) := by
  have hencoded : Server.encodeAscii client.2 = client.2 :=
    (List.map_congr_left fun code hcode ↦ if_pos (hascii code hcode)).trans (List.map_id' _)
  have hkept : ∀ code ∈ client.2.take (nameSize - 1), decide (code ≠ 0) = true :=
    fun code hcode ↦ decide_eq_true (hnoNul code (List.mem_of_mem_take hcode))
  have hzeros : ∀ count, (List.replicate count (0 : UInt8)).takeWhile (· ≠ 0) = [] := by
    intro count
    cases count with
    | zero => rfl
    | succ count => rfl
  change (Server.nameField client.2).takeWhile (· ≠ 0) = _
  rw [Server.nameField, hencoded]
  exact (List.takeWhile_append_of_pos hkept).trans (by rw [hzeros, List.append_nil])

/-- The payload of the server is the bytes of the entries. Assumes: client IDs of the right
length. -/
theorem clientListPayload_eq {clients : List (Bytes × Bytes)}
    (hids : ∀ client ∈ clients, client.1.length = clientIdSize) :
    Server.clientListPayload clients = (clients.map listEntry).flatMap ListEntry.bytes := by
  rw [Server.clientListPayload, List.flatMap_map]
  refine List.flatMap_congr fun client hclient ↦ ?_
  rw [ListEntry.bytes, listEntry, FixedBytes.val_ofBytes (hids client hclient)]

/-- The client on a client list of the server. -/
theorem responseClientMain_clientList (crypto : Crypto) {clients : List (Bytes × Bytes)}
    (hids : ∀ client ∈ clients, client.1.length = clientIdSize) (state : ClientState) :
    (responseClientMain (Server.responseFrame Server.responseClientList
      (Server.clientListPayload clients))).exec crypto state =
        ((clients.map listEntry).foldl ClientState.learn state, .ok ()) := by
  let payload := Server.clientListPayload clients
  have hpayload : payload = (clients.map listEntry).flatMap ListEntry.bytes :=
    clientListPayload_eq hids
  have hsize : payload.length = (clients.map listEntry).length * (clientIdSize + nameSize) := by
    rw [hpayload]
    induction clients.map listEntry with
    | nil => simp
    | cons entry rest ih =>
      rw [List.flatMap_cons, List.length_append, entry.bytes_length, ih, List.length_cons,
        Nat.succ_mul, Nat.add_comm]
  have hlength := responseFrame_length Server.responseClientList payload
  have hwhole : ((Server.responseFrame Server.responseClientList payload).length - headerSize) %
      (clientIdSize + nameSize) = 0 := by
    rw [hlength, Nat.add_sub_cancel_left, hsize, Nat.mul_mod_left]
  have hrounds : (clients.map listEntry).length <
      (Server.responseFrame Server.responseClientList payload).length := by
    rw [hlength, hsize]
    simp
    omega
  have hloop := exec_listLoop crypto (clients.map listEntry)
    (frameHeader Server.responseClientList payload.length) _ hrounds state
  rw [← hpayload, frameHeader_length] at hloop
  have hcode : codeOf (Server.responseFrame Server.responseClientList payload) =
      responseClientListCode := codeOf_responseFrame (by simp) payload
  change (responseClientMain (Server.responseFrame Server.responseClientList payload)).exec crypto
    state = _
  rw [responseClientMain, if_neg (headerSize_le_responseFrame _ _), hcode, if_neg (by simp),
    if_pos rfl, responseClientList, if_neg (not_not.mpr hwhole)]
  exact hloop

/-! ### Names resolve -/

/-- In a cache every other client has the name it registered, no two entries share a name, and a
name leads to the client that registered it. -/
structure Resolves (tables : Server.Tables) (requester : Bytes) (ctx : ClientContext) : Prop where
  stored : ∀ row ∈ tables.clients, row.id ≠ requester → ∃ uuid entry, uuid.val = row.id ∧
    ctx.tryGetFriendCopy uuid = some entry ∧ entry.friendName = row.userName
  distinct : ∀ uuid other entry found, ctx.tryGetFriendCopy uuid = some entry →
    ctx.tryGetFriendCopy other = some found → entry.friendName = found.friendName → uuid = other
  lookup : ∀ row ∈ tables.clients, row.id ≠ requester →
    ∃ uuid, ctx.tryGetFriendIdByName row.userName = some uuid ∧ uuid.val = row.id

/-- The entries of the clients that a requester is told of. -/
def entriesFor (tables : Server.Tables) (requester : Bytes) : List ListEntry :=
  (tables.otherClients requester).map listEntry

/-- The cache of a client that has learned all other clients. -/
def cacheOf (tables : Server.Tables) (requester : Bytes) (ctx : ClientContext) : ClientContext :=
  (entriesFor tables requester).foldl (fun ctx entry ↦ ctx.setFriendBase entry.1 entry.name) ctx

section Cache

variable {tables : Server.Tables} {requester : Bytes} {ctx : ClientContext}

theorem mem_otherClients {client : Bytes × Bytes} :
    client ∈ tables.otherClients requester ↔
      ∃ row ∈ tables.clients, row.id ≠ requester ∧ client = (row.id, row.userName) := by
  rw [Server.Tables.otherClients, List.mem_map]
  constructor
  · rintro ⟨row, hrow, rfl⟩
    obtain ⟨hmem, hother⟩ := List.mem_filter.mp hrow
    exact ⟨row, hmem, of_decide_eq_true hother, rfl⟩
  · rintro ⟨row, hmem, hother, rfl⟩
    exact ⟨row, List.mem_filter.mpr ⟨hmem, decide_eq_true hother⟩, rfl⟩

/-- Registered IDs are arrays, and different rows have different ones. -/
theorem ofBytes_id (hstore : Server.Store tables) {row : Server.ClientRow}
    (hrow : row ∈ tables.clients) : (FixedBytes.ofBytes clientIdSize row.id).val = row.id :=
  FixedBytes.val_ofBytes (hstore.clients row hrow).id

/-- The IDs in a client list are distinct. -/
theorem entriesFor_nodup (hstore : Server.Store tables) :
    ((entriesFor tables requester).map Prod.fst).Nodup := by
  have hids : ((entriesFor tables requester).map Prod.fst).map Subtype.val =
      (tables.clients.filter fun row ↦ row.id ≠ requester).map Server.ClientRow.id := by
    rw [entriesFor, Server.Tables.otherClients, List.map_map, List.map_map, List.map_map]
    exact List.map_congr_left fun row hrow ↦ ofBytes_id hstore (List.mem_of_mem_filter hrow)
  refine List.Nodup.of_map Subtype.val ?_
  rw [hids]
  exact tables.clientIds_nodup.sublist (List.filter_sublist.map _)

/-- The entry of a client in the cache. -/
theorem cacheOf_stored (ctx : ClientContext) (hstore : Server.Store tables) {row : Server.ClientRow}
    (hrow : row ∈ tables.clients) (hother : row.id ≠ requester) :
    ∃ entry, (cacheOf tables requester ctx).tryGetFriendCopy
        (FixedBytes.ofBytes clientIdSize row.id) = some entry ∧
      entry.friendName = row.userName.take (nameSize - 1) := by
  have hwell := hstore.clients row hrow
  have hmem : listEntry (row.id, row.userName) ∈ entriesFor tables requester :=
    List.mem_map_of_mem (mem_otherClients.mpr ⟨row, hrow, hother, rfl⟩)
  have hname := friendName_foldl_of_mem _ ctx (entriesFor_nodup hstore) hmem
  rw [listEntry_name hwell.name_ascii hwell.name_noNul] at hname
  obtain ⟨entry, hentry, heq⟩ := Option.map_eq_some_iff.mp hname
  exact ⟨entry, hentry, heq⟩

/-- An entry of the cache belongs to a client that is listed, or was there before and to none. -/
theorem cacheOf_cases (hstore : Server.Store tables) {uuid : ClientId} {entry : Friend}
    (hentry : (cacheOf tables requester ctx).tryGetFriendCopy uuid = some entry) :
    (∃ row ∈ tables.clients, row.id ≠ requester ∧ uuid = FixedBytes.ofBytes clientIdSize row.id ∧
        entry.friendName = row.userName.take (nameSize - 1)) ∨
      ((∀ row ∈ tables.clients, row.id ≠ requester → row.id ≠ uuid.val) ∧
        ctx.tryGetFriendCopy uuid = some entry) := by
  by_cases hlisted : ∃ listed ∈ entriesFor tables requester, listed.1 = uuid
  · obtain ⟨listed, hmem, rfl⟩ := hlisted
    obtain ⟨client, hclient, rfl⟩ := List.mem_map.mp hmem
    obtain ⟨row, hrow, hother, rfl⟩ := mem_otherClients.mp hclient
    obtain ⟨found, hfound, hname⟩ := cacheOf_stored ctx hstore hrow hother
    have hsame : some entry = some found := hentry.symm.trans hfound
    exact .inl ⟨row, hrow, hother, rfl, by rw [Option.some.inj hsame, hname]⟩
  · have hunlisted : ∀ listed ∈ entriesFor tables requester, listed.1 ≠ uuid :=
      fun listed hmem heq ↦ hlisted ⟨listed, hmem, heq⟩
    rw [cacheOf, tryGetFriendCopy_foldl_of_notMem _ ctx hunlisted] at hentry
    refine .inr ⟨fun row hrow hother hid ↦ ?_, hentry⟩
    refine hunlisted (listEntry (row.id, row.userName))
      (List.mem_map_of_mem (mem_otherClients.mpr ⟨row, hrow, hother, rfl⟩)) ?_
    exact Subtype.ext ((ofBytes_id hstore hrow).trans hid)

/-- An entry of the cache belongs to a client. Assumes: the cache was empty. -/
theorem exists_row_of_cacheOf (hstore : Server.Store tables) (hempty : ctx.friends = ∅)
    {uuid : ClientId} {entry : Friend}
    (hentry : (cacheOf tables requester ctx).tryGetFriendCopy uuid = some entry) :
    ∃ row ∈ tables.clients, row.id ≠ requester ∧
      uuid = FixedBytes.ofBytes clientIdSize row.id ∧
      entry.friendName = row.userName.take (nameSize - 1) := by
  refine (cacheOf_cases hstore hentry).resolve_right fun hold ↦ ?_
  rw [ClientContext.tryGetFriendCopy, hempty] at hold
  simp at hold

/-- Two rows with one name are one row. -/
theorem row_eq_of_userName {row other : Server.ClientRow} (hrow : row ∈ tables.clients)
    (hother : other ∈ tables.clients) (hname : row.userName = other.userName) : row = other :=
  List.inj_on_of_nodup_map tables.userNames_nodup hrow hother hname

/-- Names in the cache resolve exactly when none of them was cut. -/
theorem resolves_cacheOf_iff (hstore : Server.Store tables) (hempty : ctx.friends = ∅) :
    Resolves tables requester (cacheOf tables requester ctx) ↔
      ∀ row ∈ tables.clients, row.id ≠ requester → row.userName.length ≤ nameSize - 1 := by
  constructor
  · intro h row hrow hother
    obtain ⟨uuid, entry, huuid, hentry, hname⟩ := h.stored row hrow hother
    obtain ⟨found, hfound, hcut⟩ := cacheOf_stored ctx hstore hrow hother
    have hsame : uuid = FixedBytes.ofBytes clientIdSize row.id :=
      Subtype.ext (huuid.trans (ofBytes_id hstore hrow).symm)
    rw [hsame, hfound] at hentry
    rw [← Option.some.inj hentry, hcut] at hname
    rw [← hname, List.length_take]
    exact min_le_left _ _
  · intro h
    have hwhole : ∀ row ∈ tables.clients, row.id ≠ requester →
        row.userName.take (nameSize - 1) = row.userName :=
      fun row hrow hother ↦ List.take_of_length_le (h row hrow hother)
    have hindexed : (cacheOf tables requester ctx).Indexed :=
      indexed_foldl _ (ClientContext.indexed_of_empty hempty)
    have hdistinct : ∀ uuid other entry found,
        (cacheOf tables requester ctx).tryGetFriendCopy uuid = some entry →
        (cacheOf tables requester ctx).tryGetFriendCopy other = some found →
        entry.friendName = found.friendName → uuid = other := by
      intro uuid other entry found hentry hfound hname
      obtain ⟨row, hrow, hrowOther, rfl, hrowName⟩ := exists_row_of_cacheOf hstore hempty hentry
      obtain ⟨last, hlast, hlastOther, rfl, hlastName⟩ := exists_row_of_cacheOf hstore hempty hfound
      rw [hrowName, hlastName, hwhole row hrow hrowOther, hwhole last hlast hlastOther] at hname
      rw [row_eq_of_userName hrow hlast hname]
    refine ⟨fun row hrow hother ↦ ?_, hdistinct, fun row hrow hother ↦ ?_⟩
    · obtain ⟨entry, hentry, hname⟩ := cacheOf_stored ctx hstore hrow hother
      exact ⟨_, entry, ofBytes_id hstore hrow, hentry, hname.trans (hwhole row hrow hother)⟩
    · obtain ⟨entry, hentry, hname⟩ := cacheOf_stored ctx hstore hrow hother
      rw [hwhole row hrow hother] at hname
      refine ⟨_, ?_, ofBytes_id hstore hrow⟩
      rw [← hname]
      exact ClientContext.tryGetFriendIdByName_eq hindexed hentry fun other found hfound heq ↦
        hdistinct _ _ _ _ hfound hentry heq

end Cache

/-- A client after the client list that the server answers a request with. Assumes: the answer is a
client list, hence not the general error for a list that is too long. -/
theorem after_list (crypto : Crypto) {limit : Option ℕ} {tables : Server.Tables}
    {requester data response : Bytes} {ambient : Server.Ambient} (hstore : Server.Store tables)
    (hregistered : tables.Registered requester) (hlist : Server.IsListRequest requester data)
    (hresponse : (Server.serve limit tables data ambient).2 = .ok response)
    (hcode : Server.responseCode response = Server.responseClientList) (state : ClientState) :
    ((responseClientMain response).exec crypto state).1 =
      (entriesFor tables requester).foldl ClientState.learn state := by
  have hserve : Server.serve limit tables data ambient = _ := Server.serve_list hlist hregistered
  rw [hserve] at hresponse
  have hids : ∀ client ∈ tables.otherClients requester, client.1.length = clientIdSize := by
    intro client hclient
    obtain ⟨row, hrow, -, rfl⟩ := mem_otherClients.mp hclient
    exact (hstore.clients row hrow).id
  have hframe : response = Server.responseFrame Server.responseClientList
      (Server.clientListPayload (tables.otherClients requester)) := by
    rw [← Except.ok.inj hresponse]
    by_cases hsize : (Server.clientListPayload (tables.otherClients requester)).length < 2 ^ 32
    · exact Server.caught_buildResponse (by simp) hsize
    · rw [← Except.ok.inj hresponse, Server.caught_buildResponse_of_le (not_lt.mp hsize),
        Server.responseCode_errorResponse] at hcode
      simp at hcode
  rw [hframe, responseClientMain_clientList crypto hids]
  rfl

/-- What a client knows after a client list. -/
theorem ctx_after_list (crypto : Crypto) {limit : Option ℕ} {tables : Server.Tables}
    {requester data response : Bytes} {ambient : Server.Ambient} (hstore : Server.Store tables)
    (hregistered : tables.Registered requester) (hlist : Server.IsListRequest requester data)
    (hresponse : (Server.serve limit tables data ambient).2 = .ok response)
    (hcode : Server.responseCode response = Server.responseClientList) (state : ClientState) :
    ((responseClientMain response).exec crypto state).1.ctx =
      cacheOf tables requester state.ctx := by
  rw [after_list crypto hstore hregistered hlist hresponse hcode, foldl_learn_ctx]
  rfl

/-- When a name leads to the client that registered it. For all reachable tables and every
registered requester whose client processes the client list of the server with an empty cache, the
names in the cache resolve if and only if every other client has a name of at most `NAME_SIZE - 1`
characters. -/
theorem names_resolve_iff (crypto : Crypto) {limit : Option ℕ} {tables : Server.Tables}
    {requester data response : Bytes} {ambient : Server.Ambient} {state : ClientState}
    (hreachable : Server.Reachable limit tables) (hregistered : tables.Registered requester)
    (hlist : Server.IsListRequest requester data)
    (hresponse : (Server.serve limit tables data ambient).2 = .ok response)
    (hcode : Server.responseCode response = Server.responseClientList)
    (hempty : state.ctx.friends = ∅) :
    Resolves tables requester ((responseClientMain response).exec crypto state).1.ctx ↔
      ∀ row ∈ tables.clients, row.id ≠ requester → row.userName.length ≤ nameSize - 1 := by
  rw [ctx_after_list crypto hreachable.store hregistered hlist hresponse hcode]
  exact resolves_cacheOf_iff hreachable.store hempty

/-- A client as it starts, with nothing to read. -/
def freshClient : ClientState where
  ctx := .empty
  console := []
  output := []
  entropy := ⟨.zero symmetricKeySize, 0⟩
  disk := ⟨.ok true, true, none⟩

/-- The request of the first client for the list. -/
def soloList : Bytes :=
  Server.requestFrame Server.soloRow.id Server.requestClientsList []

/-- The list that the first client gets when there are two. -/
theorem serve_soloList {name : Bytes}
    (hclients : (Server.pairTables name).clients = [Server.soloRow, Server.secondRow name]) :
    (Server.pairTables name).Registered Server.soloRow.id ∧
      Server.IsListRequest Server.soloRow.id soloList ∧
      (Server.serve none (Server.pairTables name) soloList Server.soloAmbient).2 =
        .ok (Server.responseFrame Server.responseClientList
          (Server.clientListPayload [((Server.secondRow name).id, name)])) := by
  have hregistered : (Server.pairTables name).Registered Server.soloRow.id := by
    rw [Server.Tables.Registered, hclients]
    exact List.mem_cons_self
  have hlist : Server.IsListRequest Server.soloRow.id soloList :=
    Server.isBare_requestFrame Server.soloRow_id_length (by simp)
  refine ⟨hregistered, hlist, ?_⟩
  have hothers : (Server.pairTables name).otherClients Server.soloRow.id =
      [((Server.secondRow name).id, name)] := by
    rw [Server.Tables.otherClients, hclients]
    rfl
  have hsize : (Server.clientListPayload [((Server.secondRow name).id, name)]).length < 2 ^ 32 := by
    rw [Server.clientListPayload, List.flatMap_singleton, List.length_append, nameField_length]
    simp [Server.secondRow]
  have hserve : Server.serve none (Server.pairTables name) soloList Server.soloAmbient = _ :=
    Server.serve_list hlist hregistered
  rw [hserve, hothers]
  exact congrArg Except.ok (Server.caught_buildResponse (by simp) hsize)

/-- Two clients, of which the second has a short name. -/
theorem names_resolve_iff_short :
    Resolves (Server.pairTables [66]) Server.soloRow.id
        ((responseClientMain (Server.responseFrame Server.responseClientList
          (Server.clientListPayload [((Server.secondRow [66]).id, [66])]))).exec .tagged
            freshClient).1.ctx ↔
      ∀ row ∈ (Server.pairTables [66]).clients, row.id ≠ Server.soloRow.id →
        row.userName.length ≤ nameSize - 1 := by
  have hclients : (Server.pairTables [66]).clients = [Server.soloRow, Server.secondRow [66]] :=
    Server.pairTables_clients (by simp) (by simp) (by simp) (by simp) (by simp [Server.soloRow])
  obtain ⟨hregistered, hlist, hserve⟩ := serve_soloList hclients
  exact names_resolve_iff .tagged (Server.reachable_pairTables [66]) hregistered hlist hserve
    (Server.responseCode_responseFrame (by simp) _) rfl

/-- A name of 255 characters is cut in the client list. -/
theorem long_name_unresolved :
    ¬∀ (tables : Server.Tables) (requester data response : Bytes) (ambient : Server.Ambient)
      (state : ClientState),
      Server.Reachable none tables → tables.Registered requester →
        Server.IsListRequest requester data →
          (Server.serve none tables data ambient).2 = .ok response →
            Server.responseCode response = Server.responseClientList → state.ctx.friends = ∅ →
              Resolves tables requester
                ((responseClientMain response).exec .tagged state).1.ctx := by
  intro h
  obtain ⟨name, hlength, hcodes⟩ : ∃ name : Bytes, name.length = 255 ∧ ∀ code ∈ name, code = 66 :=
    ⟨List.replicate 255 66, List.length_replicate, fun _ ↦ List.eq_of_mem_replicate⟩
  have hreachable := Server.reachable_pairTables name
  have hclients : (Server.pairTables name).clients = [Server.soloRow, Server.secondRow name] := by
    refine Server.pairTables_clients hlength.le ?_ ?_ ?_ ?_
    · exact List.ne_nil_of_length_eq_add_one hlength
    · intro code hcode
      rw [hcodes code hcode]
      decide
    · intro code hcode
      rw [hcodes code hcode]
      decide
    · intro heq
      rw [heq] at hlength
      simp [Server.soloRow] at hlength
  obtain ⟨hregistered, hlist, hserve⟩ := serve_soloList hclients
  have hcode : Server.responseCode (Server.responseFrame Server.responseClientList
      (Server.clientListPayload [((Server.secondRow name).id, name)])) =
        Server.responseClientList :=
    Server.responseCode_responseFrame (by simp) _
  have hresolves := h _ _ _ _ _ freshClient hreachable hregistered hlist hserve hcode rfl
  rw [ctx_after_list .tagged hreachable.store hregistered hlist hserve hcode,
    resolves_cacheOf_iff hreachable.store rfl, hclients] at hresolves
  have hshort := hresolves (Server.secondRow name) (by simp)
    (by simp [Server.secondRow, Server.soloRow])
  rw [Server.secondRow, hlength] at hshort
  simp at hshort

end MessageU.Client
