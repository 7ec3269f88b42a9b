import Mathlib.Data.List.Basic
import MessageU.Client.Replies
import MessageU.Library.Base64
import MessageU.Library.Text

/-!
# The file my.info.txt

`validateAndLoadMyInfo` of `FileManager.cpp` with what it uses of `Utilities.cpp`, against
`saveMyInfo`, which writes the file. The Base64 functions are parameters; `Base64` is what they
promise.

`MyInfoFile` says of a text which name, ID line and key line it holds. A text is accepted exactly if
it is such a file (`load_eq`, `exists_of_accepted`), and a text that is not accepted leaves the
context (`load_of_not_accepted`). The ID line may be in upper case, and reading it back writes it in
lower case (`exists_of_isValidHexUUID`).

What is saved for a context that has an ID, a valid name and a key is such a file, so it loads back
(`saved_identity_loads`). The other way round, an accepted text gives a context that is registered
for the rest of the client, unless its ID line has only zeros (`load_usable_iff`): the reader does
not ask for an ID that is not zero, which is what `ClientContext::hasClientID` means by an ID.
-/

set_option autoImplicit false
set_option relaxedAutoImplicit false

namespace MessageU.Client

open Library Interaction

@[simp] abbrev uuidHexLength : ℕ := 32

/-! ### Hexadecimal IDs -/

/-- `toLowerAscii`. -/
def toLowerAscii (s : Bytes) : Bytes :=
  s.map tolower

/-- `isValidHexUUID`. -/
def isValidHexUUID (s : Bytes) : Bool :=
  if s.length ≠ uuidHexLength then false else s.all isxdigit

/-- `hexNibble`, of a digit in lower case. -/
def hexNibble (c : UInt8) : UInt8 :=
  if c ≤ 57 then c - 48 else 10 + (c - 97)

/-- `uuidHex32ToBytes16`. -/
def uuidHex32ToBytes16 (hex32 : Bytes) : Except CppError Bytes :=
  if !isValidHexUUID hex32 then
    .error (.logicError "uuidHex32ToBytes16: invalid UUID hex string")
  else
    let lowered := toLowerAscii hex32
    .ok ((List.range clientIdSize).map fun i ↦
      hexNibble (lowered.getD (2 * i) 0) <<< 4 ||| hexNibble (lowered.getD (2 * i + 1) 0))

/-! ### Reading the file -/

/-- `std::getline(file, line)`: the line and what is left of the file, nothing if it fails. -/
def getline (file : Bytes) : Option (Bytes × Bytes) :=
  cut 10 file

/-- What `validateAndLoadMyInfo` leaves: whether it returns true, the context, and the name that it
greets with `Welcome back`. -/
structure MyInfoLoad where
  accepted : Bool
  ctx : ClientContext
  greeted : Option Bytes

/-- `validateAndLoadMyInfo`, with `Base64Wrapper::decode` as a parameter. -/
def validateAndLoadMyInfo (decode : Bytes → Except CppError Bytes) (file : Bytes)
    (ctx : ClientContext) : MyInfoLoad :=
  let refused : MyInfoLoad := ⟨false, ctx, none⟩
  match getline file with
  | none => refused
  | some (name, file) =>
    match getline file with
    | none => refused
    | some (clientIdHex, file) =>
      match getline file with
      | none => refused
      | some (privateKeyBase64, file) =>
        if !isValidUsername name then refused
        else if clientIdHex.length ≠ uuidHexLength then refused
        else if !clientIdHex.all isxdigit then refused
        else if privateKeyBase64 = [] then refused
        else if (getline file).isSome then refused
        else
          match uuidHex32ToBytes16 clientIdHex with
          | .error _ => refused
          | .ok clientIdVec =>
            match decode privateKeyBase64 with
            | .error _ => refused
            | .ok privateKeyRaw =>
              if privateKeyRaw = [] then refused
              else
                ⟨true,
                  { ctx with
                    userName := name
                    clientID := .ofBytes clientIdSize clientIdVec
                    privateKey := privateKeyRaw },
                  some name⟩

/-! ### Digits -/

section Digits

/-- The two digits of a byte. -/
theorem hexNibble_hexDigit {value : ℕ} (h : value < 16) :
    isxdigit (hexDigit value) = true ∧ tolower (hexDigit value) = hexDigit value ∧
      hexNibble (hexDigit value) = UInt8.ofNat value := by
  revert value
  decide

/-- A digit in either case. -/
theorem hexDigit_hexNibble {c : UInt8} (h : isxdigit c = true) :
    (hexNibble (tolower c)).toNat < 16 ∧ hexDigit (hexNibble (tolower c)).toNat = tolower c := by
  have hall : ∀ code < 256, isxdigit (UInt8.ofNat code) = true →
      (hexNibble (tolower (UInt8.ofNat code))).toNat < 16 ∧
        hexDigit (hexNibble (tolower (UInt8.ofNat code))).toNat = tolower (UInt8.ofNat code) := by
    decide +kernel
  have hcode := hall c.toNat c.toNat_lt
  rw [UInt8.ofNat_toNat] at hcode
  exact hcode h

/-- A byte from its two halves. -/
theorem toNat_shiftLeft_or {high low : ℕ} (hhigh : high < 16) (hlow : low < 16) :
    (UInt8.ofNat high <<< 4 ||| UInt8.ofNat low).toNat = 16 * high + low := by
  have hall : ∀ high < 16, ∀ low < 16,
      (UInt8.ofNat high <<< 4 ||| UInt8.ofNat low).toNat = 16 * high + low := by decide +kernel
  exact hall high hhigh low hlow

/-- A text of even length is a sequence of pairs. -/
theorem exists_pairs {α : Type} {text : List α} {count : ℕ} (h : text.length = 2 * count) :
    ∃ pairs : List (α × α), pairs.length = count ∧
      text = pairs.flatMap fun pair ↦ [pair.1, pair.2] := by
  induction count generalizing text with
  | zero => exact ⟨[], rfl, List.length_eq_zero_iff.mp h⟩
  | succ count ih =>
    obtain ⟨first, second, rest, rfl⟩ : ∃ first second rest, text = first :: second :: rest := by
      match text, h with
      | first :: second :: rest, _ => exact ⟨first, second, rest, rfl⟩
    have hrest : rest.length = 2 * count := by
      simp only [List.length_cons] at h
      omega
    obtain ⟨pairs, hcount, rfl⟩ := ih hrest
    exact ⟨(first, second) :: pairs, congrArg Nat.succ hcount, rfl⟩

/-- Reading a sequence of pairs by position. -/
theorem map_range_pairs (combine : UInt8 → UInt8 → UInt8) (pairs : List (UInt8 × UInt8)) :
    ((List.range pairs.length).map fun i ↦
        combine ((pairs.flatMap fun pair ↦ [pair.1, pair.2]).getD (2 * i) 0)
          ((pairs.flatMap fun pair ↦ [pair.1, pair.2]).getD (2 * i + 1) 0)) =
      pairs.map fun pair ↦ combine pair.1 pair.2 := by
  induction pairs with
  | nil => rfl
  | cons pair pairs ih =>
    rw [List.length_cons, List.range_succ_eq_map, List.map_cons, List.map_map, List.map_cons, ← ih]
    rfl

/-- A digit is no separator of lines. -/
theorem newline_notMem {text : Bytes} (h : text.all isxdigit = true) : 10 ∉ text := by
  intro hmem
  have hdigit := List.all_eq_true.mp h 10 hmem
  revert hdigit
  decide

theorem isValidHexUUID_iff {text : Bytes} :
    isValidHexUUID text = true ↔ text.length = uuidHexLength ∧ text.all isxdigit = true := by
  unfold isValidHexUUID
  split_ifs with hlength
  · exact ⟨False.elim, fun h ↦ absurd h.1 hlength⟩
  · exact ⟨fun h ↦ ⟨not_not.mp hlength, h⟩, And.right⟩

/-- Reading the pairs of an ID line. -/
theorem uuidHex32ToBytes16_pairs {pairs : List (UInt8 × UInt8)}
    (hcount : pairs.length = clientIdSize)
    (hvalid : isValidHexUUID (pairs.flatMap fun pair ↦ [pair.1, pair.2]) = true) :
    uuidHex32ToBytes16 (pairs.flatMap fun pair ↦ [pair.1, pair.2]) =
      .ok (pairs.map fun pair ↦
        hexNibble (tolower pair.1) <<< 4 ||| hexNibble (tolower pair.2)) := by
  have hlowered : toLowerAscii (pairs.flatMap fun pair ↦ [pair.1, pair.2]) =
      (pairs.map fun pair ↦ (tolower pair.1, tolower pair.2)).flatMap
        fun pair ↦ [pair.1, pair.2] := by
    rw [toLowerAscii, List.map_flatMap, List.flatMap_map]
    rfl
  have hread := map_range_pairs (fun high low ↦ hexNibble high <<< 4 ||| hexNibble low)
    (pairs.map fun pair ↦ (tolower pair.1, tolower pair.2))
  rw [List.length_map, hcount, List.map_map] at hread
  rw [uuidHex32ToBytes16, hvalid, if_neg (by simp), hlowered]
  exact congrArg Except.ok hread

/-- An ID line stands for an ID, which is written in lower case. -/
theorem exists_of_isValidHexUUID {text : Bytes} (hvalid : isValidHexUUID text = true) :
    ∃ id : ClientId, uuidHex32ToBytes16 text = .ok id.val ∧ bytesToHex id = toLowerAscii text := by
  obtain ⟨hlength, hdigits⟩ := isValidHexUUID_iff.mp hvalid
  obtain ⟨pairs, hcount, rfl⟩ : ∃ pairs : List (UInt8 × UInt8), pairs.length = clientIdSize ∧
      text = pairs.flatMap fun pair ↦ [pair.1, pair.2] := exists_pairs hlength
  refine ⟨⟨_, (List.length_map _).trans hcount⟩, uuidHex32ToBytes16_pairs hcount hvalid, ?_⟩
  rw [bytesToHex, toLowerAscii, List.flatMap_map, List.map_flatMap]
  refine List.flatMap_congr fun pair hpair ↦ ?_
  have hall : ∀ c ∈ [pair.1, pair.2], isxdigit c = true := by
    intro c hc
    exact List.all_eq_true.mp hdigits c (List.mem_flatMap.mpr ⟨pair, hpair, hc⟩)
  obtain ⟨hhigh, hfirst⟩ := hexDigit_hexNibble (hall pair.1 (by simp))
  obtain ⟨hlow, hsecond⟩ := hexDigit_hexNibble (hall pair.2 (by simp))
  have hbyte := toNat_shiftLeft_or hhigh hlow
  rw [UInt8.ofNat_toNat, UInt8.ofNat_toNat] at hbyte
  have hdiv : (16 * (hexNibble (tolower pair.1)).toNat + (hexNibble (tolower pair.2)).toNat) / 16 =
      (hexNibble (tolower pair.1)).toNat := by omega
  have hmod : (16 * (hexNibble (tolower pair.1)).toNat + (hexNibble (tolower pair.2)).toNat) % 16 =
      (hexNibble (tolower pair.2)).toNat := by omega
  rw [hbyte, hdiv, hmod, hfirst, hsecond]
  rfl

/-- The digits of a byte. -/
theorem byte_digits (byte : UInt8) : byte.toNat / 16 < 16 ∧ byte.toNat % 16 < 16 := by
  have hbyte := byte.toNat_lt
  omega

/-- An ID is written as an ID line. -/
theorem isValidHexUUID_bytesToHex (id : ClientId) : isValidHexUUID (bytesToHex id) = true := by
  refine isValidHexUUID_iff.mpr ⟨?_, List.all_eq_true.mpr fun c hc ↦ ?_⟩
  · have hid : id.val.length = clientIdSize := id.property
    rw [bytesToHex, List.length_flatMap]
    simp [hid]
  · obtain ⟨byte, -, hbyte⟩ := List.mem_flatMap.mp hc
    rcases List.mem_pair.mp hbyte with rfl | rfl
    · exact (hexNibble_hexDigit (byte_digits byte).1).1
    · exact (hexNibble_hexDigit (byte_digits byte).2).1

/-- Reading an ID back. -/
theorem uuidHex32ToBytes16_bytesToHex (id : ClientId) :
    uuidHex32ToBytes16 (bytesToHex id) = .ok id.val := by
  have hpairs : bytesToHex id =
      (id.val.map fun byte ↦ (hexDigit (byte.toNat / 16), hexDigit (byte.toNat % 16))).flatMap
        fun pair ↦ [pair.1, pair.2] := by
    rw [bytesToHex, List.flatMap_map]
  have hvalid := isValidHexUUID_bytesToHex id
  have hid : id.val.length = clientIdSize := id.property
  rw [hpairs] at hvalid ⊢
  rw [uuidHex32ToBytes16_pairs ((List.length_map _).trans hid) hvalid, List.map_map]
  refine congrArg Except.ok (List.map_id'' (fun byte ↦ ?_) _)
  obtain ⟨hhigh, hlow⟩ := byte_digits byte
  obtain ⟨-, hupper, hfirst⟩ := hexNibble_hexDigit hhigh
  obtain ⟨-, hlower, hsecond⟩ := hexNibble_hexDigit hlow
  rw [Function.comp_apply, hupper, hlower, hfirst, hsecond]
  refine UInt8.toNat.inj ((toNat_shiftLeft_or hhigh hlow).trans ?_)
  exact Nat.div_add_mod byte.toNat 16

end Digits

/-! ### The texts that are accepted -/

/-- A text is a file with a name, an ID line and a key line that decodes to a key. -/
structure MyInfoFile (decode : Bytes → Except CppError Bytes)
    (file name clientIdHex privateKeyBase64 privateKeyRaw : Bytes) : Prop where
  lines : file = name ++ 10 :: (clientIdHex ++ 10 :: privateKeyBase64) ∨
    file = name ++ 10 :: (clientIdHex ++ 10 :: (privateKeyBase64 ++ [10]))
  valid : isValidUsername name = true
  name_line : 10 ∉ name
  hex : isValidHexUUID clientIdHex = true
  key_line : 10 ∉ privateKeyBase64 ∧ privateKeyBase64 ≠ []
  decodes : decode privateKeyBase64 = .ok privateKeyRaw
  key_nonempty : privateKeyRaw ≠ []

section MyInfo

variable {decode : Bytes → Except CppError Bytes}
  {file name clientIdHex privateKeyBase64 privateKeyRaw : Bytes}

/-- A file is accepted, and its identity is put into the context. -/
theorem load_eq (hfile : MyInfoFile decode file name clientIdHex privateKeyBase64 privateKeyRaw)
    {id : ClientId} (hid : uuidHex32ToBytes16 clientIdHex = .ok id.val) (ctx : ClientContext) :
    validateAndLoadMyInfo decode file ctx =
      ⟨true, { ctx with userName := name, clientID := id, privateKey := privateKeyRaw },
        some name⟩ := by
  obtain ⟨hlength, hdigits⟩ := isValidHexUUID_iff.mp hfile.hex
  obtain ⟨rest, hthird, hrest⟩ : ∃ last, getline file =
      some (name, clientIdHex ++ 10 :: last) ∧ getline last = some (privateKeyBase64, []) := by
    rcases hfile.lines with rfl | rfl
    · exact ⟨privateKeyBase64, cut_append hfile.name_line _,
        cut_last hfile.key_line.1 hfile.key_line.2⟩
    · exact ⟨privateKeyBase64 ++ [10], cut_append hfile.name_line _,
        cut_append hfile.key_line.1 []⟩
  have hsecond : getline (clientIdHex ++ 10 :: rest) = some (clientIdHex, rest) :=
    cut_append (newline_notMem hdigits) rest
  have hended : getline [] = none := rfl
  have harray : FixedBytes.ofBytes clientIdSize id.val = id :=
    Subtype.ext (FixedBytes.val_ofBytes id.property)
  simp only [validateAndLoadMyInfo, hthird, hsecond, hrest, hended]
  rw [hfile.valid, if_neg (by simp), if_neg (not_not.mpr hlength), hdigits, if_neg (by simp),
    if_neg hfile.key_line.2, if_neg (by simp), hid]
  dsimp only
  rw [hfile.decodes]
  dsimp only
  rw [if_neg hfile.key_nonempty, harray]

/-- A line that is not the last one ends in a newline. -/
theorem eq_append_of_getline {line rest : Bytes} (h : getline file = some (line, rest))
    (hrest : rest ≠ []) : 10 ∉ line ∧ file = line ++ 10 :: rest := by
  obtain ⟨hline, hfile | ⟨-, -, hnil⟩⟩ := eq_of_cut h
  · exact ⟨hline, hfile⟩
  · exact absurd hnil hrest

/-- There is no line only at the end of the file. -/
theorem getline_eq_none_iff : getline file = none ↔ file = [] := by
  unfold getline cut
  split_ifs with hnil
  · exact ⟨fun _ ↦ hnil, fun _ ↦ rfl⟩
  · simp [hnil]

/-- Three lines of which nothing is left are the lines of a file. -/
theorem lines_of_getline {second third last : Bytes}
    (hname : getline file = some (name, second)) (hhex : getline second = some (clientIdHex, third))
    (hkey : getline third = some (privateKeyBase64, last)) (hlast : getline last = none) :
    10 ∉ name ∧ 10 ∉ privateKeyBase64 ∧
      (file = name ++ 10 :: (clientIdHex ++ 10 :: privateKeyBase64) ∨
        file = name ++ 10 :: (clientIdHex ++ 10 :: (privateKeyBase64 ++ [10]))) := by
  have hmore {text : Bytes} {found : Bytes × Bytes} (h : getline text = some found) :
      text ≠ [] := by
    intro hnil
    rw [getline_eq_none_iff.mpr hnil] at h
    cases h
  obtain ⟨hnameLine, rfl⟩ := eq_append_of_getline hname (hmore hhex)
  obtain ⟨-, rfl⟩ := eq_append_of_getline hhex (hmore hkey)
  rw [getline_eq_none_iff] at hlast
  subst hlast
  obtain ⟨hkeyLine, rfl | ⟨rfl, -, -⟩⟩ := eq_of_cut hkey
  · exact ⟨hnameLine, hkeyLine, .inr rfl⟩
  · exact ⟨hnameLine, hkeyLine, .inl rfl⟩

/-- A text is a file, or it is refused and the context is left. -/
theorem load_cases (decode : Bytes → Except CppError Bytes) (file : Bytes) (ctx : ClientContext) :
    validateAndLoadMyInfo decode file ctx = ⟨false, ctx, none⟩ ∨
      ∃ name clientIdHex privateKeyBase64 privateKeyRaw,
        MyInfoFile decode file name clientIdHex privateKeyBase64 privateKeyRaw := by
  unfold validateAndLoadMyInfo
  cases hname : getline file with
  | none => exact .inl rfl
  | some found =>
    obtain ⟨name, second⟩ := found
    dsimp only
    cases hhex : getline second with
    | none => exact .inl rfl
    | some found =>
      obtain ⟨clientIdHex, third⟩ := found
      dsimp only
      cases hkey : getline third with
      | none => exact .inl rfl
      | some found =>
        obtain ⟨privateKeyBase64, last⟩ := found
        dsimp only
        split_ifs with hvalid hlength hdigits hempty hmore
        · exact .inl rfl
        · exact .inl rfl
        · exact .inl rfl
        · exact .inl rfl
        · exact .inl rfl
        have hlast : getline last = none := by simpa using hmore
        obtain ⟨hnameLine, hkeyLine, hlines⟩ := lines_of_getline hname hhex hkey hlast
        have huuid : isValidHexUUID clientIdHex = true :=
          isValidHexUUID_iff.mpr ⟨not_not.mp hlength, by simpa using hdigits⟩
        cases uuidHex32ToBytes16 clientIdHex with
        | error exception => exact .inl rfl
        | ok clientIdVec =>
          dsimp only
          cases hdecode : decode privateKeyBase64 with
          | error exception => exact .inl rfl
          | ok privateKeyRaw =>
            dsimp only
            split_ifs with hraw
            · exact .inl rfl
            · exact .inr ⟨name, clientIdHex, privateKeyBase64, privateKeyRaw,
                { lines := hlines
                  valid := by simpa using hvalid
                  name_line := hnameLine
                  hex := huuid
                  key_line := ⟨hkeyLine, hempty⟩
                  decodes := hdecode
                  key_nonempty := hraw }⟩

end MyInfo

/-! ### What is saved loads back -/

/-- What the Base64 functions promise: without the line breaks, the encoding of a key decodes to the
key, and it is not empty. -/
structure Base64 (encode : Bytes → Bytes) (decode : Bytes → Except CppError Bytes) : Prop where
  decodes : ∀ key, key ≠ [] →
    decode ((encode key).filter fun byte ↦ byte ≠ 10 ∧ byte ≠ 13) = .ok key
  nonempty : ∀ key, key ≠ [] → (encode key).filter (fun byte ↦ byte ≠ 10 ∧ byte ≠ 13) ≠ []

section Saved

variable {crypto : Crypto} {decode : Bytes → Except CppError Bytes}

/-- The text that is saved is a file. -/
theorem myInfoFile_saved (hbase64 : Base64 crypto.base64Encode decode) {ctx : ClientContext}
    (hvalid : isValidUsername ctx.userName = true) (hline : 10 ∉ ctx.userName)
    (hkey : ctx.privateKey ≠ []) :
    MyInfoFile decode (myInfoBytes crypto ctx) ctx.userName (bytesToHex ctx.clientID)
      ((crypto.base64Encode ctx.privateKey).filter fun byte ↦ byte ≠ 10 ∧ byte ≠ 13)
      ctx.privateKey where
  lines := .inl (by simp [myInfoBytes])
  valid := hvalid
  name_line := hline
  hex := isValidHexUUID_bytesToHex ctx.clientID
  key_line := ⟨by simp, hbase64.nonempty ctx.privateKey hkey⟩
  decodes := hbase64.decodes ctx.privateKey hkey
  key_nonempty := hkey

/-- A valid name is not empty. -/
theorem ne_nil_of_isValidUsername {name : Bytes} (h : isValidUsername name = true) : name ≠ [] := by
  rintro rfl
  cases h

/-- The file that `saveMyInfo` leaves for a registered client. Assumes: it can be opened and
written. -/
theorem myInfo_saveMyInfo {state : ClientState} (hvalid : isValidUsername state.ctx.userName = true)
    (hid : state.ctx.hasClientID = true) (hkey : state.ctx.privateKey ≠ [])
    (hopens : state.disk.opens = .ok true) (hwrites : state.disk.writes = true) :
    (saveMyInfo.exec crypto state).1.disk.myInfo = some (myInfoBytes crypto state.ctx) := by
  have hcomplete : state.ctx.Complete := ⟨hid, ne_nil_of_isValidUsername hvalid, hkey⟩
  obtain ⟨output, hexec⟩ := exec_saveMyInfo crypto state hopens
  rw [hexec]
  dsimp only
  rw [if_pos ⟨hcomplete, rfl⟩, Disk.saved, if_pos hwrites]

/-- What `saveMyInfo` writes is accepted and loads back, into any context. Assumes: the name is
valid and has no newline, the ID has a byte that is not zero, the key is not empty, and the file can
be opened and written. -/
theorem saved_identity_loads (crypto : Crypto) (decode : Bytes → Except CppError Bytes)
    (hbase64 : Base64 crypto.base64Encode decode) (state : ClientState)
    (hvalid : isValidUsername state.ctx.userName = true) (hline : 10 ∉ state.ctx.userName)
    (hid : ∃ byte ∈ state.ctx.clientID.val, byte ≠ 0) (hkey : state.ctx.privateKey ≠ [])
    (hopens : state.disk.opens = .ok true) (hwrites : state.disk.writes = true) :
    ∃ text, (saveMyInfo.exec crypto state).1.disk.myInfo = some text ∧
      ∀ other, validateAndLoadMyInfo decode text other =
        ⟨true,
          { other with
            userName := state.ctx.userName
            clientID := state.ctx.clientID
            privateKey := state.ctx.privateKey },
          some state.ctx.userName⟩ := by
  have hregistered : state.ctx.hasClientID = true := by
    obtain ⟨byte, hmem, hbyte⟩ := hid
    exact List.any_eq_true.mpr ⟨byte, hmem, decide_eq_true hbyte⟩
  refine ⟨_, myInfo_saveMyInfo hvalid hregistered hkey hopens hwrites, fun other ↦ ?_⟩
  exact load_eq (myInfoFile_saved hbase64 hvalid hline hkey)
    (uuidHex32ToBytes16_bytesToHex state.ctx.clientID) other

end Saved

/-- The library with its encoder on one line, which ends in a newline. -/
def fileCrypto : Crypto :=
  { Crypto.tagged with base64Encode := fun key ↦ toBase64 key ++ [10] }

/-- The decoder for it. -/
def readKey (text : Bytes) : Except CppError Bytes :=
  .ok (ofBase64 text)

/-- They keep the promise. -/
theorem base64_fileCrypto : Base64 fileCrypto.base64Encode readKey := by
  have hstripped (key : Bytes) :
      (fileCrypto.base64Encode key).filter (fun byte ↦ byte ≠ 10 ∧ byte ≠ 13) = toBase64 key := by
    have hprintable : ∀ c ∈ toBase64 key, decide (c ≠ 10 ∧ c ≠ 13) = true := by
      intro c hc
      have hlow := mem_toBase64 hc
      refine decide_eq_true ⟨?_, ?_⟩
      · rintro rfl
        exact absurd hlow (by decide)
      · rintro rfl
        exact absurd hlow (by decide)
    show (toBase64 key ++ [10]).filter _ = toBase64 key
    rw [List.filter_append, List.filter_eq_self.mpr hprintable]
    exact List.append_nil _
  constructor
  · intro key hkey
    rw [hstripped key, readKey, ofBase64_toBase64]
  · intro key hkey hempty
    rw [hstripped key] at hempty
    refine hkey ?_
    rw [← ofBase64_toBase64 key, hempty]
    rfl

/-- A client that has registered as `Bob`. -/
def bob : ClientState :=
  { freshClient with
    ctx := { ClientContext.empty with
      userName := [66, 111, 98]
      clientID := .ofBytes clientIdSize (List.replicate clientIdSize 169)
      privateKey := [77, 97, 110] } }

/-- The file of a client and a context of its own. -/
theorem saved_identity_loads_bob :
    ∃ text, (saveMyInfo.exec fileCrypto bob).1.disk.myInfo = some text ∧
      ∀ other, validateAndLoadMyInfo readKey text other =
        ⟨true,
          { other with
            userName := bob.ctx.userName
            clientID := bob.ctx.clientID
            privateKey := bob.ctx.privateKey },
          some bob.ctx.userName⟩ :=
  saved_identity_loads fileCrypto readKey base64_fileCrypto bob (by decide) (by decide)
    ⟨169, by decide, by decide⟩ (by decide) rfl rfl

/-! ### What is loaded is usable -/

/-- Two texts hold the same name, the same ID line up to the case of its letters, and key lines that
decode to the same key; the first one may end in a newline. -/
def SameIdentity (decode : Bytes → Except CppError Bytes) (file saved : Bytes) : Prop :=
  ∃ name clientIdHex privateKeyBase64 encoded,
    (file = name ++ 10 :: (clientIdHex ++ 10 :: privateKeyBase64) ∨
      file = name ++ 10 :: (clientIdHex ++ 10 :: (privateKeyBase64 ++ [10]))) ∧
    saved = name ++ 10 :: (toLowerAscii clientIdHex ++ 10 :: encoded) ∧
    decode encoded = decode privateKeyBase64

/-- A context is registered for the rest of the client: it has an ID, a registration is refused, and
what is saved for it loads back into it and is the file that it was loaded from. -/
structure Usable (crypto : Crypto) (decode : Bytes → Except CppError Bytes) (file : Bytes)
    (ctx : ClientContext) : Prop where
  hasClientID : ctx.hasClientID = true
  refused : ∀ rounds state, state.ctx = ctx → (handleRegister rounds).exec crypto state =
    ({ state with output := state.output ++ [.text "You are already logged in.\n"] }, .ok [])
  saved : ∀ state, state.ctx = ctx → state.disk.opens = .ok true → state.disk.writes = true →
    ∃ saved, (saveMyInfo.exec crypto state).1.disk.myInfo = some saved ∧
      validateAndLoadMyInfo decode saved ctx = ⟨true, ctx, some ctx.userName⟩ ∧
      SameIdentity decode file saved

/-- A text is refused and leaves the identity in the context, or it is accepted and the context is
usable. -/
def AllOrNothing (crypto : Crypto) (decode : Bytes → Except CppError Bytes) (file : Bytes)
    (ctx : ClientContext) : Prop :=
  ((validateAndLoadMyInfo decode file ctx).accepted = false ∧
      (validateAndLoadMyInfo decode file ctx).ctx.userName = ctx.userName ∧
      (validateAndLoadMyInfo decode file ctx).ctx.clientID = ctx.clientID ∧
      (validateAndLoadMyInfo decode file ctx).ctx.privateKey = ctx.privateKey) ∨
    ((validateAndLoadMyInfo decode file ctx).accepted = true ∧
      Usable crypto decode file (validateAndLoadMyInfo decode file ctx).ctx)

/-- The ID line of the ID that stands for none. -/
def zeroLine : Bytes :=
  List.replicate uuidHexLength 48

/-- A text is a file with an ID line of zeros. -/
def ZeroIdentity (decode : Bytes → Except CppError Bytes) (file : Bytes) : Prop :=
  ∃ name privateKeyBase64 privateKeyRaw,
    MyInfoFile decode file name zeroLine privateKeyBase64 privateKeyRaw

/-- An ID without a byte that is not zero is written as zeros, and only zeros are read as it. -/
theorem eq_zeroLine {text : Bytes} {id : ClientId} (hid : ∀ byte ∈ id.val, byte = 0)
    (htext : bytesToHex id = toLowerAscii text) : text = zeroLine := by
  have hall : ∀ code < 256, tolower (UInt8.ofNat code) = 48 → UInt8.ofNat code = 48 := by
    decide +kernel
  have hzeros : id.val = List.replicate clientIdSize 0 :=
    List.eq_replicate_iff.mpr ⟨id.property, hid⟩
  have hwritten : toLowerAscii text = zeroLine := by
    rw [← htext, bytesToHex, hzeros]
    rfl
  obtain ⟨hlength, hdigits⟩ := List.eq_replicate_iff.mp hwritten
  refine List.eq_replicate_iff.mpr ⟨(List.length_map _).symm.trans hlength, fun c hc ↦ ?_⟩
  have hcode := hall c.toNat c.toNat_lt
  rw [UInt8.ofNat_toNat] at hcode
  exact hcode (hdigits _ (List.mem_map_of_mem hc))

/-- A registered client cannot register again. -/
theorem exec_handleRegister_registered (crypto : Crypto) {state : ClientState}
    (hid : state.ctx.hasClientID = true) (rounds : ℕ) :
    (handleRegister rounds).exec crypto state =
      ({ state with output := state.output ++ [.text "You are already logged in.\n"] },
        .ok []) := by
  rw [handleRegister, exec_ask rfl, hid, if_pos rfl]
  rfl

section Usable

variable {crypto : Crypto} {decode : Bytes → Except CppError Bytes}

/-- A file with an ID gives a usable context. -/
theorem usable_of_file (hbase64 : Base64 crypto.base64Encode decode)
    {file name clientIdHex privateKeyBase64 privateKeyRaw : Bytes}
    (hfile : MyInfoFile decode file name clientIdHex privateKeyBase64 privateKeyRaw)
    {ctx : ClientContext} (hname : ctx.userName = name) (hkey : ctx.privateKey = privateKeyRaw)
    (hwritten : bytesToHex ctx.clientID = toLowerAscii clientIdHex)
    (hid : ctx.hasClientID = true) : Usable crypto decode file ctx := by
  have hvalid : isValidUsername ctx.userName = true := hname ▸ hfile.valid
  have hline : 10 ∉ ctx.userName := hname ▸ hfile.name_line
  have hnonempty : ctx.privateKey ≠ [] := hkey ▸ hfile.key_nonempty
  have hsaved := myInfoFile_saved hbase64 hvalid hline hnonempty
  constructor
  · exact hid
  · rintro rounds state rfl
    exact exec_handleRegister_registered crypto hid rounds
  · rintro state rfl hopens hwrites
    refine ⟨_, myInfo_saveMyInfo hvalid hid hnonempty hopens hwrites, ?_, ?_⟩
    · exact load_eq hsaved (uuidHex32ToBytes16_bytesToHex state.ctx.clientID) state.ctx
    · refine ⟨name, clientIdHex, privateKeyBase64, _, hfile.lines, ?_,
        hsaved.decodes.trans (hkey ▸ hfile.decodes.symm)⟩
      rw [← hwritten, ← hname]
      simp [myInfoBytes]

/-- A file with an ID line of zeros is accepted, and the context has no ID. -/
theorem load_zeroIdentity {file : Bytes} (h : ZeroIdentity decode file) (ctx : ClientContext) :
    (validateAndLoadMyInfo decode file ctx).accepted = true ∧
      (validateAndLoadMyInfo decode file ctx).ctx.hasClientID = false := by
  obtain ⟨name, privateKeyBase64, privateKeyRaw, hfile⟩ := h
  have hzero : uuidHex32ToBytes16 zeroLine = .ok (FixedBytes.zero clientIdSize).val := by
    decide +kernel
  rw [load_eq hfile hzero ctx]
  exact ⟨rfl, rfl⟩

/-- Loading is all or nothing and gives a usable context, except for a file with an ID line of
zeros. -/
theorem load_usable_iff (crypto : Crypto) (decode : Bytes → Except CppError Bytes)
    (hbase64 : Base64 crypto.base64Encode decode) (file : Bytes) (ctx : ClientContext) :
    AllOrNothing crypto decode file ctx ↔ ¬ZeroIdentity decode file := by
  constructor
  · intro hload hzero
    obtain ⟨haccepted, hunregistered⟩ := load_zeroIdentity hzero ctx
    rcases hload with ⟨hrefused, -⟩ | ⟨-, husable⟩
    · rw [haccepted] at hrefused
      cases hrefused
    · rw [husable.hasClientID] at hunregistered
      cases hunregistered
  · intro hfile
    rcases load_cases decode file ctx with hrefused | ⟨name, clientIdHex, base64, raw, hfound⟩
    · left
      rw [hrefused]
      exact ⟨rfl, rfl, rfl, rfl⟩
    · obtain ⟨id, hread, hwritten⟩ := exists_of_isValidHexUUID hfound.hex
      right
      rw [load_eq hfound hread ctx]
      refine ⟨rfl, usable_of_file hbase64 hfound rfl rfl hwritten ?_⟩
      by_contra hnone
      have hzeros : ∀ byte ∈ id.val, byte = 0 := by
        intro byte hbyte
        by_contra hne
        exact hnone (List.any_eq_true.mpr ⟨byte, hbyte, decide_eq_true hne⟩)
      have hline := eq_zeroLine hzeros hwritten
      subst hline
      exact hfile ⟨name, base64, raw, hfound⟩

end Usable

/-- A file with an ID line and the key `Man` in Base64. -/
def bobFile (clientIdHex : Bytes) : Bytes :=
  [66, 111, 98] ++ 10 :: (clientIdHex ++ 10 :: [84, 87, 70, 117])

/-- A file with an ID is loaded into a new context. -/
theorem load_usable_iff_bob :
    AllOrNothing fileCrypto readKey (bobFile (bytesToHex bob.ctx.clientID)) .empty := by
  refine (load_usable_iff fileCrypto readKey base64_fileCrypto _ _).mpr fun hzero ↦ ?_
  have hunregistered := (load_zeroIdentity hzero .empty).2
  have hregistered : (validateAndLoadMyInfo readKey (bobFile (bytesToHex bob.ctx.clientID))
      .empty).ctx.hasClientID = true := by decide +kernel
  rw [hregistered] at hunregistered
  cases hunregistered

/-- A file with an ID line of zeros is accepted, and the user that it greets has no ID. -/
theorem zero_identity_unusable :
    ¬∀ (crypto : Crypto) (decode : Bytes → Except CppError Bytes),
      Base64 crypto.base64Encode decode →
        ∀ file ctx, AllOrNothing crypto decode file ctx := by
  intro h
  have haccepted : (validateAndLoadMyInfo readKey (bobFile zeroLine) .empty).accepted = true := by
    decide +kernel
  have hunregistered :
      (validateAndLoadMyInfo readKey (bobFile zeroLine) .empty).ctx.hasClientID = false := by
    decide +kernel
  rcases h fileCrypto readKey base64_fileCrypto (bobFile zeroLine) .empty with
    ⟨hrefused, -⟩ | ⟨-, husable⟩
  · rw [haccepted] at hrefused
    cases hrefused
  · rw [husable.hasClientID] at hunregistered
    cases hunregistered

end MessageU.Client
