import MessageU.Client.Context
import MessageU.Library.Interaction

/-!
# What the functions of the client ask of their surroundings

The functions of the client are programs that call methods of the `ClientContext`, print, read
lines from the console, call the wrappers around the cryptographic library and write the file
`my.info.txt`. `ClientCall` lists these calls and `ClientCall.exec` is what each does to the state
of a client that nothing else changes.

The cryptographic library is a parameter. `Crypto` lists the functions the wrappers take from it,
with what is drawn at random as an argument; `Crypto.Correct` is what the library promises of them,
above all that decryption undoes encryption under the matching key.
-/

set_option autoImplicit false
set_option relaxedAutoImplicit false

namespace MessageU.Client

open Library Interaction

/-! ### Exceptions and output -/

/-- The C++ exceptions of the client. `outOfFuel` is none of them: it ends a loop that has not
stopped after the rounds it was given. -/
inductive CppError
  | runtimeError (what : String)
  | logicError (what : String)
  | cryptoError
  | outOfFuel
  deriving DecidableEq, Repr

/-- What the client prints. -/
inductive Output
  /-- A fixed text. -/
  | text (line : String)
  /-- `Unknown response code: ...` -/
  | unknownCode (code : ℕ)
  /-- `Name: ...` -/
  | userName (name : Bytes)
  /-- `Client ID: ...` -/
  | clientID (id : ClientId)
  /-- `<name> : <id>` -/
  | listed (name : Bytes) (id : ClientId)
  /-- `Received public key for <id>` and the key in Base64. -/
  | publicKey (id : ClientId) (base64 : Bytes)
  /-- `Your message has been sent to <name> and assigned <number> message ID.` -/
  | messageSent (displayName : Bytes) (msgID : ℕ)
  /-- `From: ...` -/
  | sender (fromName : Bytes)
  /-- The text of a message. -/
  | plaintext (txt : Bytes)
  /-- `[Unsupported message type: ...]` -/
  | unsupportedType (msgType : ℕ)
  deriving DecidableEq, Repr

/-- What the client prints for a key or a text that it cannot decrypt. -/
def cannotDecrypt : Output :=
  .text "can't decrypt message\n"

/-! ### The cryptographic library -/

/-- What the wrappers take from the cryptographic library. A seed stands for what a function draws
at random. -/
structure Crypto where
  /-- `RSAPrivateWrapper()` and `getPrivateKey()`: a fresh private key. -/
  generatePrivateKey : (seed : ℕ) → Bytes
  /-- `RSAPrivateWrapper(key)` does not throw. -/
  loadsPrivateKey : (privateKey : Bytes) → Bool
  /-- `RSAPrivateWrapper::getPublicKey(out, KEYSIZE)`. -/
  publicKeyOf : (privateKey : Bytes) → FixedBytes publicKeySize
  /-- `RSAPublicWrapper(key, KEYSIZE)` does not throw. -/
  loadsPublicKey : (publicKey : FixedBytes publicKeySize) → Bool
  /-- `RSAPublicWrapper::encrypt`. -/
  rsaEncrypt : (publicKey : FixedBytes publicKeySize) → (seed : ℕ) → (plain : Bytes) →
    Except CppError Bytes
  /-- `RSAPrivateWrapper::decrypt`. -/
  rsaDecrypt : (privateKey : Bytes) → (cipher : Bytes) → Except CppError Bytes
  /-- `AESWrapper::encrypt`. -/
  aesEncrypt : (key : FixedBytes symmetricKeySize) → (plain : Bytes) → Bytes
  /-- `AESWrapper::decrypt`. -/
  aesDecrypt : (key : FixedBytes symmetricKeySize) → (cipher : Bytes) → Except CppError Bytes
  /-- `Base64Wrapper::encode`. -/
  base64Encode : Bytes → Bytes

/-- What the library promises: a generated key can be loaded, decryption undoes encryption under the
matching key, and an RSA cipher, which has the length of the key, is not empty. -/
structure Crypto.Correct (crypto : Crypto) : Prop where
  loads : ∀ seed, crypto.loadsPrivateKey (crypto.generatePrivateKey seed) = true
  rsa : ∀ privateKey seed plain cipher,
    crypto.rsaEncrypt (crypto.publicKeyOf privateKey) seed plain = .ok cipher →
      crypto.rsaDecrypt privateKey cipher = .ok plain
  rsa_nonempty : ∀ publicKey seed plain cipher,
    crypto.rsaEncrypt publicKey seed plain = .ok cipher → cipher ≠ []
  aes : ∀ key plain, crypto.aesDecrypt key (crypto.aesEncrypt key plain) = .ok plain

/-- A library in which a cipher is the plain text behind the key it is for. -/
def Crypto.tagged : Crypto where
  generatePrivateKey seed := littleEndian publicKeySize seed
  loadsPrivateKey privateKey := privateKey.length = publicKeySize
  publicKeyOf privateKey := .ofBytes publicKeySize privateKey
  loadsPublicKey _ := true
  rsaEncrypt publicKey _ plain := .ok (publicKey.val ++ plain)
  rsaDecrypt privateKey cipher :=
    if cipher.take publicKeySize = (FixedBytes.ofBytes publicKeySize privateKey).val then
      .ok (cipher.drop publicKeySize)
    else .error .cryptoError
  aesEncrypt key plain := key.val ++ plain
  aesDecrypt key cipher :=
    if cipher.take symmetricKeySize = key.val then .ok (cipher.drop symmetricKeySize)
    else .error .cryptoError
  base64Encode str := str

/-- It keeps the promise. -/
theorem Crypto.tagged_correct : Crypto.tagged.Correct where
  loads seed := decide_eq_true (littleEndian_length publicKeySize seed)
  rsa privateKey _ plain cipher hcipher := by
    have hkey : (FixedBytes.ofBytes publicKeySize privateKey).val.length = publicKeySize :=
      (FixedBytes.ofBytes publicKeySize privateKey).property
    cases hcipher
    exact (if_pos (List.take_left' hkey)).trans (congrArg Except.ok (List.drop_left' hkey))
  rsa_nonempty publicKey _ plain cipher hcipher := by
    have hkey : publicKey.val.length = publicKeySize := publicKey.property
    cases hcipher
    exact fun hempty ↦ by simp [(List.append_eq_nil_iff.mp hempty).1] at hkey
  aes key plain :=
    (if_pos (List.take_left' key.property)).trans
      (congrArg Except.ok (List.drop_left' key.property))

/-- What one action draws at random: an AES key and a seed for RSA. -/
structure Entropy where
  aesKey : FixedBytes symmetricKeySize
  rsaSeed : ℕ

/-! ### The calls -/

/-- The calls of the client's functions. -/
inductive ClientCall
  | hasClientID
  | getClientID
  | setClientID (id : ClientId)
  | getName
  | setName (name : Bytes)
  | getPrivateKey
  | setPrivateKey (privKey : Bytes)
  | setFriendBase (uuid : ClientId) (friendName : Bytes)
  | tryGetFriendCopy (uuid : ClientId)
  | tryGetFriendIdByName (targetName : Bytes)
  | setFriendPublicKey (uuid : ClientId) (pubKey : FixedBytes publicKeySize)
  | setFriendSymmetricKey (uuid : ClientId) (symKey : FixedBytes symmetricKeySize)
  /-- `std::cout <<` -/
  | print (output : Output)
  /-- `std::getline(std::cin, line)`: nothing at the end of the input. -/
  | getline
  /-- `RSAPrivateWrapper()` -/
  | generatePrivateKey
  /-- `RSAPrivateWrapper(key)` -/
  | loadPrivateKey (privKey : Bytes)
  | publicKeyOf (privKey : Bytes)
  | rsaDecrypt (privKey cipher : Bytes)
  /-- `RSAPublicWrapper(key, KEYSIZE)` -/
  | loadPublicKey (pubKey : FixedBytes publicKeySize)
  | rsaEncrypt (pubKey : FixedBytes publicKeySize) (plain : Bytes)
  /-- `AESWrapper()` -/
  | generateKey
  | aesEncrypt (key : FixedBytes symmetricKeySize) (plain : Bytes)
  | aesDecrypt (key : FixedBytes symmetricKeySize) (cipher : Bytes)
  | base64Encode (str : Bytes)
  /-- `std::ofstream file(getExecutableDirectory() / MY_INFO, std::ios::trunc)`, and whether it is
  open. -/
  | openMyInfo
  /-- `file << ...`, and whether it succeeded. -/
  | writeMyInfo (content : Bytes)

/-- What a call returns. -/
abbrev ClientCall.Result : ClientCall → Type
  | .hasClientID | .openMyInfo | .writeMyInfo _ => Bool
  | .getClientID => ClientId
  | .getName | .getPrivateKey | .generatePrivateKey | .rsaDecrypt .. | .rsaEncrypt ..
  | .aesEncrypt .. | .aesDecrypt .. | .base64Encode _ => Bytes
  | .setClientID _ | .setName _ | .setPrivateKey _ | .setFriendBase .. | .setFriendPublicKey ..
  | .setFriendSymmetricKey .. | .print _ | .loadPrivateKey _ | .loadPublicKey _ => Unit
  | .tryGetFriendCopy _ => Option Friend
  | .tryGetFriendIdByName _ => Option ClientId
  | .getline => Option Bytes
  | .publicKeyOf _ => FixedBytes publicKeySize
  | .generateKey => FixedBytes symmetricKeySize

/-- The calls as the operations of a program. -/
abbrev Calls : Signature where
  Operation := ClientCall
  Result := ClientCall.Result

/-- A function of the client. -/
abbrev Program (α : Type) := Interaction Calls CppError α

/-- A call. -/
def ask (call : ClientCall) : Program call.Result :=
  .request call .finished

@[simp] theorem ask_eq (call : ClientCall) : ask call = .request call .finished :=
  rfl

/-- `throw`. -/
def throwing {α : Type} (exception : CppError) : Program α :=
  .finished (.error exception)

/-! ### What the calls do -/

/-- The file `my.info.txt` and what happens when it is opened and written. -/
structure Disk where
  opens : Except CppError Bool
  writes : Bool
  myInfo : Option Bytes

/-- The disk after the file has been opened, which empties it. -/
def Disk.truncated (disk : Disk) : Disk :=
  match disk.opens with
  | .ok true => { disk with myInfo := some [] }
  | .ok false | .error _ => disk

/-- The state of a client: its context, the lines of the console that it has not read, what it has
printed, and what its surroundings hold ready. -/
structure ClientState where
  ctx : ClientContext
  console : List Bytes
  output : List Output
  entropy : Entropy
  disk : Disk

/-- A call of a client that nothing else changes. -/
def ClientCall.exec (crypto : Crypto) (state : ClientState) :
    (call : ClientCall) → ClientState × Except CppError call.Result
  | .hasClientID => (state, .ok state.ctx.hasClientID)
  | .getClientID => (state, .ok state.ctx.clientID)
  | .setClientID id => ({ state with ctx := { state.ctx with clientID := id } }, .ok ())
  | .getName => (state, .ok state.ctx.userName)
  | .setName name => ({ state with ctx := { state.ctx with userName := name } }, .ok ())
  | .getPrivateKey => (state, .ok state.ctx.privateKey)
  | .setPrivateKey privKey =>
    ({ state with ctx := { state.ctx with privateKey := privKey } }, .ok ())
  | .setFriendBase uuid friendName =>
    ({ state with ctx := state.ctx.setFriendBase uuid friendName }, .ok ())
  | .tryGetFriendCopy uuid => (state, .ok (state.ctx.tryGetFriendCopy uuid))
  | .tryGetFriendIdByName targetName => (state, .ok (state.ctx.tryGetFriendIdByName targetName))
  | .setFriendPublicKey uuid pubKey =>
    ({ state with ctx := state.ctx.setFriendPublicKey uuid pubKey }, .ok ())
  | .setFriendSymmetricKey uuid symKey =>
    ({ state with ctx := state.ctx.setFriendSymmetricKey uuid symKey }, .ok ())
  | .print output => ({ state with output := state.output ++ [output] }, .ok ())
  | .getline => ({ state with console := state.console.tail }, .ok state.console.head?)
  | .generatePrivateKey => (state, .ok (crypto.generatePrivateKey state.entropy.rsaSeed))
  | .loadPrivateKey privKey =>
    (state, if crypto.loadsPrivateKey privKey then .ok () else .error .cryptoError)
  | .publicKeyOf privKey => (state, .ok (crypto.publicKeyOf privKey))
  | .rsaDecrypt privKey cipher => (state, crypto.rsaDecrypt privKey cipher)
  | .loadPublicKey pubKey =>
    (state, if crypto.loadsPublicKey pubKey then .ok () else .error .cryptoError)
  | .rsaEncrypt pubKey plain => (state, crypto.rsaEncrypt pubKey state.entropy.rsaSeed plain)
  | .generateKey => (state, .ok state.entropy.aesKey)
  | .aesEncrypt key plain => (state, .ok (crypto.aesEncrypt key plain))
  | .aesDecrypt key cipher => (state, crypto.aesDecrypt key cipher)
  | .base64Encode str => (state, .ok (crypto.base64Encode str))
  | .openMyInfo => ({ state with disk := state.disk.truncated }, state.disk.opens)
  | .writeMyInfo content =>
    ({ state with
        disk := { state.disk with
          myInfo := if state.disk.writes then some content else state.disk.myInfo } },
      .ok state.disk.writes)

/-- Run a function of a client that nothing else changes. -/
def Program.exec {α : Type} (crypto : Crypto) (program : Program α) (state : ClientState) :
    ClientState × Except CppError α :=
  program.run (ClientCall.exec crypto) state

end MessageU.Client
