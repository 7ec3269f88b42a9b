import Mathlib.Tactic.Common
import MessageU.Library.LittleEndian

/-!
# The client context

`ClientContext.cpp`. The context holds the identity of the client and its cache of known clients, a
map from client IDs to entries in the order of the IDs. Every method is a function on the context;
what the methods that write do to a later lookup is one lemma each
(`tryGetFriendCopy_setFriendBase` and its siblings), and these lemmas are all that the rest of the
development uses of the map. `symmetricKeyFor` and `publicKeyFor` are the keys of an entry, and the
only method that changes the one or the other is the one that sets it.

A lookup by name goes through the entries in order. When entries are stored under their own IDs
(`Indexed`) it finds a name exactly if some entry has it (`exists_of_tryGetFriendIdByName`,
`isSome_tryGetFriendIdByName`), and it finds the only entry that has it
(`tryGetFriendIdByName_eq`).
-/

set_option autoImplicit false
set_option relaxedAutoImplicit false

namespace MessageU.Client

open Library

/-! ### Constants and arrays -/

@[simp] abbrev clientIdSize : ℕ := 16
@[simp] abbrev nameSize : ℕ := 255
@[simp] abbrev msgIdSize : ℕ := 4
@[simp] abbrev headerSize : ℕ := 7
@[simp] abbrev publicKeySize : ℕ := 160
@[simp] abbrev typeSize : ℕ := 1
@[simp] abbrev msgSize : ℕ := 4
@[simp] abbrev symmetricKeySize : ℕ := 16
@[simp] abbrev payloadOffset : ℕ := 3
@[simp] abbrev responseCodeOffset : ℕ := 1

/-- `std::array<uint8_t, size>`. -/
abbrev FixedBytes (size : ℕ) := { bytes : Bytes // bytes.length = size }

/-- The array with every byte zero. -/
def FixedBytes.zero (size : ℕ) : FixedBytes size :=
  ⟨List.replicate size 0, List.length_replicate⟩

/-- The array that a byte string of its size fills, zero for byte strings of other sizes. -/
def FixedBytes.ofBytes (size : ℕ) (bytes : Bytes) : FixedBytes size :=
  if h : bytes.length = size then ⟨bytes, h⟩ else .zero size

theorem FixedBytes.val_ofBytes {size : ℕ} {bytes : Bytes} (h : bytes.length = size) :
    (FixedBytes.ofBytes size bytes).val = bytes := by
  rw [ofBytes, dif_pos h]

/-- A client ID. -/
abbrev ClientId := FixedBytes clientIdSize

/-- The ID with this first byte and zeros behind it. -/
def ClientId.numbered (first : UInt8) : ClientId :=
  ⟨first :: List.replicate (clientIdSize - 1) 0, by simp⟩

/-- The lexicographic order of arrays. -/
abbrev ClientId.order : ClientId → ClientId → Ordering :=
  compareOn Subtype.val

instance : Std.LawfulEqCmp ClientId.order where
  eq_of_compare h := Subtype.ext (Std.LawfulEqOrd.eq_of_compare h)

theorem ClientId.order_eq_iff (first second : ClientId) :
    ClientId.order first second = .eq ↔ first = second :=
  Std.LawfulEqCmp.compare_eq_iff_eq

/-! ### The context -/

/-- `ClientContext::Friend`. -/
structure Friend where
  friendID : ClientId
  friendName : Bytes
  publicKey : Option (FixedBytes publicKeySize)
  symmetricKey : Option (FixedBytes symmetricKeySize)
  deriving DecidableEq

/-- The entry that `std::map::operator[]` creates. -/
instance : Inhabited Friend where
  default := ⟨.zero clientIdSize, [], none, none⟩

/-- `std::map<std::array<uint8_t, CLIENT_ID_SIZE>, Friend>`. -/
abbrev Friends := Std.TreeMap ClientId Friend ClientId.order

/-- `ClientContext`. -/
structure ClientContext where
  clientID : ClientId
  userName : Bytes
  privateKey : Bytes
  friends : Friends

namespace ClientContext

/-- A context as it is constructed. -/
def empty : ClientContext where
  clientID := .zero clientIdSize
  userName := []
  privateKey := []
  friends := ∅

/-- `ClientContext::hasClientID`: some byte of the ID is not zero. -/
def hasClientID (ctx : ClientContext) : Bool :=
  ctx.clientID.val.any (· ≠ 0)

/-- `ClientContext::setFriendBase`. -/
def setFriendBase (ctx : ClientContext) (uuid : ClientId) (friendName : Bytes) : ClientContext :=
  { ctx with
    friends := ctx.friends.alter uuid fun entry ↦
      some { entry.getD default with friendID := uuid, friendName := friendName } }

/-- `ClientContext::tryGetFriendCopy`. -/
def tryGetFriendCopy (ctx : ClientContext) (uuid : ClientId) : Option Friend :=
  ctx.friends[uuid]?

/-- `ClientContext::tryGetFriendIdByName`: the ID of the first entry with the name. -/
def tryGetFriendIdByName (ctx : ClientContext) (targetName : Bytes) : Option ClientId :=
  (ctx.friends.toList.find? fun entry ↦ entry.2.friendName = targetName).map fun entry ↦
    entry.2.friendID

/-- `ClientContext::setFriendPublicKey`. -/
def setFriendPublicKey (ctx : ClientContext) (uuid : ClientId) (pubKey : FixedBytes publicKeySize) :
    ClientContext :=
  { ctx with
    friends := ctx.friends.alter uuid
      (Option.map fun entry ↦ { entry with publicKey := some pubKey }) }

/-- `ClientContext::setFriendSymmetricKey`. -/
def setFriendSymmetricKey (ctx : ClientContext) (uuid : ClientId)
    (symKey : FixedBytes symmetricKeySize) : ClientContext :=
  { ctx with
    friends := ctx.friends.alter uuid
      (Option.map fun entry ↦ { entry with symmetricKey := some symKey }) }

/-! ### What a lookup finds after a write -/

section Lookup

variable (ctx : ClientContext) (uuid other : ClientId)

/-- A lookup in a map of which one entry was altered. -/
theorem getElem?_alter (friends : Friends) (change : Option Friend → Option Friend) :
    (friends.alter uuid change)[other]? =
      if uuid = other then change friends[other]? else friends[other]? := by
  rw [Std.TreeMap.getElem?_alter]
  by_cases h : uuid = other
  · subst h
    rw [if_pos ((ClientId.order_eq_iff _ _).mpr rfl), if_pos rfl]
  · rw [if_neg (mt (ClientId.order_eq_iff _ _).mp h), if_neg h]

theorem tryGetFriendCopy_setFriendBase (friendName : Bytes) :
    (ctx.setFriendBase uuid friendName).tryGetFriendCopy other =
      if uuid = other then
        some { (ctx.tryGetFriendCopy other).getD default with
          friendID := uuid, friendName := friendName }
      else ctx.tryGetFriendCopy other :=
  getElem?_alter uuid other ctx.friends _

theorem tryGetFriendCopy_setFriendPublicKey (pubKey : FixedBytes publicKeySize) :
    (ctx.setFriendPublicKey uuid pubKey).tryGetFriendCopy other =
      if uuid = other then
        (ctx.tryGetFriendCopy other).map fun entry ↦ { entry with publicKey := some pubKey }
      else ctx.tryGetFriendCopy other :=
  getElem?_alter uuid other ctx.friends _

theorem tryGetFriendCopy_setFriendSymmetricKey (symKey : FixedBytes symmetricKeySize) :
    (ctx.setFriendSymmetricKey uuid symKey).tryGetFriendCopy other =
      if uuid = other then
        (ctx.tryGetFriendCopy other).map fun entry ↦ { entry with symmetricKey := some symKey }
      else ctx.tryGetFriendCopy other :=
  getElem?_alter uuid other ctx.friends _

end Lookup

/-! ### The keys of an entry -/

/-- The symmetric key that is held for an ID. -/
def symmetricKeyFor (ctx : ClientContext) (uuid : ClientId) :
    Option (FixedBytes symmetricKeySize) :=
  (ctx.tryGetFriendCopy uuid).bind Friend.symmetricKey

/-- The public key that is cached for an ID. -/
def publicKeyFor (ctx : ClientContext) (uuid : ClientId) : Option (FixedBytes publicKeySize) :=
  (ctx.tryGetFriendCopy uuid).bind Friend.publicKey

section Keys

variable (ctx : ClientContext) (uuid other : ClientId)

@[simp] theorem symmetricKeyFor_setFriendBase (friendName : Bytes) :
    (ctx.setFriendBase uuid friendName).symmetricKeyFor other = ctx.symmetricKeyFor other := by
  rw [symmetricKeyFor, symmetricKeyFor, tryGetFriendCopy_setFriendBase]
  split_ifs
  · cases ctx.tryGetFriendCopy other <;> rfl
  · rfl

@[simp] theorem publicKeyFor_setFriendBase (friendName : Bytes) :
    (ctx.setFriendBase uuid friendName).publicKeyFor other = ctx.publicKeyFor other := by
  rw [publicKeyFor, publicKeyFor, tryGetFriendCopy_setFriendBase]
  split_ifs
  · cases ctx.tryGetFriendCopy other <;> rfl
  · rfl

@[simp] theorem symmetricKeyFor_setFriendPublicKey (pubKey : FixedBytes publicKeySize) :
    (ctx.setFriendPublicKey uuid pubKey).symmetricKeyFor other = ctx.symmetricKeyFor other := by
  rw [symmetricKeyFor, symmetricKeyFor, tryGetFriendCopy_setFriendPublicKey]
  split_ifs
  · cases ctx.tryGetFriendCopy other <;> rfl
  · rfl

@[simp] theorem publicKeyFor_setFriendSymmetricKey (symKey : FixedBytes symmetricKeySize) :
    (ctx.setFriendSymmetricKey uuid symKey).publicKeyFor other = ctx.publicKeyFor other := by
  rw [publicKeyFor, publicKeyFor, tryGetFriendCopy_setFriendSymmetricKey]
  split_ifs
  · cases ctx.tryGetFriendCopy other <;> rfl
  · rfl

/-- A public key is cached for the ID it is set for, or was before. -/
theorem publicKeyFor_setFriendPublicKey {pubKey found : FixedBytes publicKeySize}
    (h : (ctx.setFriendPublicKey uuid pubKey).publicKeyFor other = some found) :
    (other = uuid ∧ found = pubKey) ∨ ctx.publicKeyFor other = some found := by
  rw [publicKeyFor, tryGetFriendCopy_setFriendPublicKey] at h
  split_ifs at h with heq
  · cases hentry : ctx.tryGetFriendCopy other with
    | none => simp [hentry] at h
    | some entry =>
      rw [hentry] at h
      exact .inl ⟨heq.symm, (Option.some.inj h).symm⟩
  · exact .inr h

/-- A symmetric key is set for an ID that has an entry. -/
theorem symmetricKeyFor_setFriendSymmetricKey {symKey : FixedBytes symmetricKeySize}
    (hentry : (ctx.tryGetFriendCopy uuid).isSome) :
    (ctx.setFriendSymmetricKey uuid symKey).symmetricKeyFor other =
      if uuid = other then some symKey else ctx.symmetricKeyFor other := by
  rw [symmetricKeyFor, tryGetFriendCopy_setFriendSymmetricKey]
  split_ifs with heq
  · subst heq
    obtain ⟨entry, hsome⟩ := Option.isSome_iff_exists.mp hentry
    rw [hsome]
    rfl
  · rfl

/-- An entry with a public key is an entry. -/
theorem isSome_of_publicKeyFor {pubKey : FixedBytes publicKeySize}
    (h : ctx.publicKeyFor uuid = some pubKey) : (ctx.tryGetFriendCopy uuid).isSome := by
  obtain ⟨entry, hentry, -⟩ := Option.bind_eq_some_iff.mp h
  exact Option.isSome_iff_exists.mpr ⟨entry, hentry⟩

end Keys

/-! ### Lookups by name -/

/-- Every entry is stored under its own ID. -/
def Indexed (ctx : ClientContext) : Prop :=
  ∀ uuid entry, ctx.tryGetFriendCopy uuid = some entry → entry.friendID = uuid

/-- A cache without entries. -/
theorem indexed_of_empty {ctx : ClientContext} (h : ctx.friends = ∅) : ctx.Indexed := by
  intro uuid entry hentry
  rw [tryGetFriendCopy, h] at hentry
  simp at hentry

/-- Naming an entry keeps the others and stores it under its own ID. -/
theorem Indexed.setFriendBase {ctx : ClientContext} (h : ctx.Indexed) (uuid : ClientId)
    (friendName : Bytes) : (ctx.setFriendBase uuid friendName).Indexed := by
  intro other entry hentry
  rw [tryGetFriendCopy_setFriendBase] at hentry
  split_ifs at hentry with heq
  · rw [← Option.some.inj hentry, heq]
  · exact h other entry hentry

theorem mem_toList_iff {ctx : ClientContext} {uuid : ClientId} {entry : Friend} :
    (uuid, entry) ∈ ctx.friends.toList ↔ ctx.tryGetFriendCopy uuid = some entry :=
  Std.TreeMap.mem_toList_iff_getElem?_eq_some

/-- A name that is found belongs to the entry of the ID that is returned. Assumes: entries are
stored under their own IDs. -/
theorem exists_of_tryGetFriendIdByName {ctx : ClientContext} (hindexed : ctx.Indexed)
    {targetName : Bytes} {uuid : ClientId}
    (h : ctx.tryGetFriendIdByName targetName = some uuid) :
    ∃ entry, ctx.tryGetFriendCopy uuid = some entry ∧ entry.friendName = targetName := by
  obtain ⟨⟨key, entry⟩, hfind, hid⟩ := Option.map_eq_some_iff.mp h
  have hentry := mem_toList_iff.mp (List.mem_of_find?_eq_some hfind)
  have hkey : key = uuid := (hindexed key entry hentry).symm.trans hid
  subst hkey
  exact ⟨entry, hentry, of_decide_eq_true (List.find?_some hfind :)⟩

/-- A name that some entry has is found. -/
theorem isSome_tryGetFriendIdByName {ctx : ClientContext} {uuid : ClientId} {entry : Friend}
    (hentry : ctx.tryGetFriendCopy uuid = some entry) :
    (ctx.tryGetFriendIdByName entry.friendName).isSome := by
  rw [tryGetFriendIdByName, Option.isSome_map, List.find?_isSome]
  exact ⟨(uuid, entry), mem_toList_iff.mpr hentry, decide_eq_true rfl⟩

/-- A name is found at the entry that has it and comes first. -/
theorem tryGetFriendIdByName_eq_some_iff {ctx : ClientContext} (hindexed : ctx.Indexed)
    {targetName : Bytes} {uuid : ClientId} :
    ctx.tryGetFriendIdByName targetName = some uuid ↔
      (∃ entry, ctx.tryGetFriendCopy uuid = some entry ∧ entry.friendName = targetName) ∧
        ∀ other found, ctx.tryGetFriendCopy other = some found → found.friendName = targetName →
          ClientId.order other uuid ≠ .lt := by
  have hordered := Std.TreeMap.ordered_keys_toList (t := ctx.friends)
  constructor
  · intro h
    refine ⟨exists_of_tryGetFriendIdByName hindexed h, fun other found hfound hname hlt ↦ ?_⟩
    obtain ⟨⟨key, entry⟩, hfind, hid⟩ := Option.map_eq_some_iff.mp h
    have hentry := mem_toList_iff.mp (List.mem_of_find?_eq_some hfind)
    have hkey : key = uuid := (hindexed key entry hentry).symm.trans hid
    obtain ⟨-, earlier, later, hlist, hearlier⟩ := List.find?_eq_some_iff_append.mp hfind
    have hmem : (other, found) ∈ ctx.friends.toList := mem_toList_iff.mpr hfound
    rw [hlist] at hmem hordered
    rcases List.mem_append.mp hmem with hbefore | hbehind
    · have hother := hearlier _ hbefore
      simp [hname] at hother
    · have hirrefl : ClientId.order uuid uuid = .eq := (ClientId.order_eq_iff _ _).mpr rfl
      rcases List.mem_cons.mp hbehind with hsame | hlater
      · have hother : other = key := congrArg Prod.fst hsame
        rw [hother, hkey, hirrefl] at hlt
        cases hlt
      · have hgt := List.rel_of_pairwise_cons (List.pairwise_append.mp hordered).2.1 hlater
        rw [← hkey] at hlt
        have hloop : ClientId.order key key = .lt := Std.TransCmp.lt_trans hgt hlt
        rw [(ClientId.order_eq_iff key key).mpr rfl] at hloop
        cases hloop
  · rintro ⟨⟨entry, hentry, rfl⟩, hfirst⟩
    obtain ⟨other, hother⟩ := Option.isSome_iff_exists.mp (isSome_tryGetFriendIdByName hentry)
    rw [hother]
    obtain ⟨⟨key, found⟩, hfind, hid⟩ := Option.map_eq_some_iff.mp hother
    have hfound := mem_toList_iff.mp (List.mem_of_find?_eq_some hfind)
    have hkey : key = other := (hindexed key found hfound).symm.trans hid
    obtain ⟨hname, earlier, later, hlist, hearlier⟩ := List.find?_eq_some_iff_append.mp hfind
    have hmem : (uuid, entry) ∈ ctx.friends.toList := mem_toList_iff.mpr hentry
    rw [hlist] at hmem hordered
    rcases List.mem_append.mp hmem with hbefore | hbehind
    · have hnone := hearlier _ hbefore
      simp at hnone
    · rcases List.mem_cons.mp hbehind with hsame | hlater
      · exact congrArg some (hkey.symm.trans (congrArg Prod.fst hsame).symm)
      · refine absurd ?_ (hfirst key found hfound (of_decide_eq_true hname))
        exact List.rel_of_pairwise_cons (List.pairwise_append.mp hordered).2.1 hlater

/-- A name that only one entry has is found there. -/
theorem tryGetFriendIdByName_eq {ctx : ClientContext} (hindexed : ctx.Indexed) {uuid : ClientId}
    {entry : Friend} (hentry : ctx.tryGetFriendCopy uuid = some entry)
    (honly : ∀ other found, ctx.tryGetFriendCopy other = some found →
      found.friendName = entry.friendName → other = uuid) :
    ctx.tryGetFriendIdByName entry.friendName = some uuid := by
  obtain ⟨other, hother⟩ := Option.isSome_iff_exists.mp (isSome_tryGetFriendIdByName hentry)
  obtain ⟨found, hfound, hname⟩ := exists_of_tryGetFriendIdByName hindexed hother
  rw [hother, honly other found hfound hname]

end ClientContext

end MessageU.Client
