import Premise.Control.System
import Premise.Security.Signing

/-!
# `KeyRing`

Payloads that are encrypted by the active key of a ring and decrypted by the key that their envelope names.
AES-256-GCM is a parameter.
-/

namespace Premise.Security

open Collections Control Js

/-! ## Envelopes -/

/-- What is passed as text or as bytes. -/
inductive Binary
  | text (s : String)
  | bytes (content : List UInt8)

/-- `bytes(value)`. -/
def Binary.toBytes : Binary → List UInt8
  | .text s => textBytes s
  | .bytes content => content

/-- The cipher of `node:crypto`. What throws has no result. -/
structure AesGcm where
  /-- The ciphertext and the tag, by the key, the IV and the associated data. -/
  encipher : List UInt8 → List UInt8 → List UInt8 → List UInt8 → Option (List UInt8 × List UInt8)
  /-- The plaintext, by the key, the IV, the associated data, the tag and the ciphertext. -/
  decipher : List UInt8 → List UInt8 → List UInt8 → List UInt8 → List UInt8 → Option (List UInt8)

def AesGcm.Inverts (gcm : AesGcm) : Prop :=
  ∀ key iv aad plaintext ciphertext authTag, gcm.encipher key iv aad plaintext = some (ciphertext, authTag) →
    gcm.decipher key iv aad authTag ciphertext = some plaintext

def ENCRYPTED_PAYLOAD_FORMAT : String := "premise-encrypted-payload"

def ENCRYPTED_PAYLOAD_VERSION : Int := 1

structure EncryptedPayload where
  format : String
  version : Int
  algorithm : String
  keyId : String
  iv : String
  ciphertext : String
  authTag : String
  aad : Option String

structure AadOptions where
  aad : Option Binary := none
  associatedData : Option Binary := none

def aesKey (value : List UInt8) : Except SecurityError (List UInt8) :=
  if value.length ≠ 32 then configuration "AES-256-GCM keys must contain 32 bytes" else .ok value

def aadBytes (options : AadOptions) : Except SecurityError (List UInt8) :=
  match options.aad, options.associatedData with
  | some aad, some associatedData =>
    if aad.toBytes ≠ associatedData.toBytes then invalid "aad and associatedData must match" else .ok aad.toBytes
  | some aad, none => .ok aad.toBytes
  | none, some associatedData => .ok associatedData.toBytes
  | none, none => .ok []

def encryptedPayload (input : EncryptedPayload) : Except SecurityError EncryptedPayload := do
  if input.format ≠ ENCRYPTED_PAYLOAD_FORMAT ∨ input.version ≠ ENCRYPTED_PAYLOAD_VERSION ∨
      input.algorithm ≠ "aes-256-gcm" then
    invalid "encrypted payload header is invalid"
  let _ ← identifier input.keyId "keyId"
  let iv ← base64Decode input.iv "encrypted payload iv" false
  let _ ← base64Decode input.ciphertext "encrypted payload ciphertext" true
  let authTag ← base64Decode input.authTag "encrypted payload authTag" false
  if iv.length ≠ 12 ∨ authTag.length ≠ 16 then invalid "encrypted payload AES-GCM parameters are invalid"
  input.aad.forM (fun aad => (base64Decode aad "encrypted payload aad" true).map (fun _ => ()))
  return input

/-- The envelope that `encryptPayload` makes. -/
def EncryptedPayload.sealed (keyId : String) (iv ciphertext authTag aad : List UInt8) : EncryptedPayload where
  format := ENCRYPTED_PAYLOAD_FORMAT
  version := ENCRYPTED_PAYLOAD_VERSION
  algorithm := "aes-256-gcm"
  keyId := keyId
  iv := base64Text iv
  ciphertext := base64Text ciphertext
  authTag := base64Text authTag
  aad := if aad = [] then none else some (base64Text aad)

variable (gcm : AesGcm)

/-- `encryptPayload(payload, { keyId, key, ...options })`; `iv` is what `randomBytes(12)` returns. -/
def encryptPayload (payload : Payload) (keyId : String) (key : List UInt8) (options : AadOptions) (iv : List UInt8) :
    Except SecurityError EncryptedPayload := do
  let keyId ← identifier keyId "keyId"
  let key ← aesKey key
  let aad ← aadBytes options
  if iv.length ≠ 12 then configuration "AES-256-GCM IVs must contain 12 bytes"
  let text ← payload.canonicalize
  match gcm.encipher key iv aad (textBytes text) with
  | none => .error (.security .decryptionFailed "Payload encryption failed")
  | some (ciphertext, authTag) =>
    if authTag.length ≠ 16 then .error (.security .decryptionFailed "Payload encryption failed")
    else .ok (.sealed keyId iv ciphertext authTag aad)

/-- What `decryptPayload` returns, when nothing in it throws. -/
def openedPayload (input : EncryptedPayload) (key : List UInt8) (expectedAssociatedData : Option Binary) :
    Option Json := do
  let envelope ← (encryptedPayload input).toOption
  let key ← (aesKey key).toOption
  let iv ← (base64Decode envelope.iv "encrypted payload iv" false).toOption
  let ciphertext ← (base64Decode envelope.ciphertext "encrypted payload ciphertext" true).toOption
  let authTag ← (base64Decode envelope.authTag "encrypted payload authTag" false).toOption
  let aad ← envelope.aad.elim (some []) (fun aad => (base64Decode aad "encrypted payload aad" true).toOption)
  if iv.length ≠ 12 ∨ authTag.length ≠ 16 ∨ expectedAssociatedData.any (fun data => data.toBytes ≠ aad) then none
  else
    let plaintext ← gcm.decipher key iv aad authTag ciphertext
    parseJson (decodeBytes none (plaintext.map UInt8.toNat))

def decryptPayload (input : EncryptedPayload) (key : List UInt8) (expectedAssociatedData : Option Binary) :
    Except SecurityError Json :=
  match openedPayload gcm input key expectedAssociatedData with
  | none => .error (.security .decryptionFailed "Payload authentication failed")
  | some value => .ok value

structure EncryptionKey where
  keyId : String
  key : List UInt8

structure KeyRing where
  keys : OrderedMap String (List UInt8) := ∅
  activeId : String := ""

namespace KeyRing

def addKey (ring : KeyRing) (key : EncryptionKey) (activate : Bool) : Except SecurityError KeyRing := do
  let keyId ← identifier key.keyId "keyId"
  let material ← aesKey key.key
  if (ring.keys.get? keyId).any (fun existing => existing ≠ material) then
    throw (.security .keyIdReuse "keyId cannot be reused with different key material")
  return { keys := ring.keys.set keyId material, activeId := if activate then keyId else ring.activeId }

/-- `new KeyRing(options)`. -/
def create (activeKey : EncryptionKey) (previousKeys : List EncryptionKey) : Except SecurityError KeyRing := do
  let ring ← previousKeys.foldlM (fun ring key => addKey ring key false) {}
  addKey ring activeKey true

def rotate (ring : KeyRing) (key : EncryptionKey) : Except SecurityError KeyRing := ring.addKey key true

def retire (ring : KeyRing) (keyId : String) : Except SecurityError KeyRing := do
  let normalized ← identifier keyId "keyId"
  if normalized = ring.activeId then configuration "the active encryption key cannot be retired"
  return { ring with keys := ring.keys.erase normalized }

def encrypt (ring : KeyRing) (payload : Payload) (options : AadOptions) (iv : List UInt8) :
    Except SecurityError EncryptedPayload :=
  if ring.activeId = "" then configuration "an active encryption key is required"
  else
    match ring.keys.get? ring.activeId with
    | none => configuration "the active encryption key is unavailable"
    | some key => encryptPayload gcm payload ring.activeId key options iv

def decrypt (ring : KeyRing) (payload : EncryptedPayload) (expectedAssociatedData : Option Binary) :
    Except SecurityError Json := do
  let envelope ← encryptedPayload payload
  match ring.keys.get? envelope.keyId with
  | none => .error (.security .decryptionFailed "Payload authentication failed")
  | some key => decryptPayload gcm envelope key expectedAssociatedData

inductive Call
  | addKey (key : EncryptionKey) (activate : Bool)
  | rotate (key : EncryptionKey)
  | retire (keyId : String)
  | encrypt (payload : Value) (options : AadOptions) (iv : List UInt8)
  | decrypt (payload : EncryptedPayload) (expectedAssociatedData : Option Binary)

def Call.added : Call → Option EncryptionKey
  | .addKey key _ => some key
  | .rotate key => some key
  | _ => none

/-- The ring after a call; a call that throws leaves it as it was, as encryption and decryption do. -/
def after (ring : KeyRing) : Call → KeyRing
  | .addKey key activate => (ring.addKey key activate).toOption.getD ring
  | .rotate key => (ring.rotate key).toOption.getD ring
  | .retire keyId => (ring.retire keyId).toOption.getD ring
  | .encrypt _ _ _ => ring
  | .decrypt _ _ => ring

def system : System KeyRing Call where
  init := fun ring => ∃ activeKey previousKeys, create activeKey previousKeys = .ok ring
  step := fun ring call ring' => ring' = ring.after call

def moments (p : KeyRing × List (KeyRing × Call)) : List KeyRing := p.2.map Prod.fst ++ [p.1]

def BoundOnce (p : KeyRing × List (KeyRing × Call)) : Prop :=
  ∀ ring ∈ moments p, ∀ ring' ∈ moments p, ∀ keyId material material',
    ring.keys.get? keyId = some material → ring'.keys.get? keyId = some material' → material = material'

/-- What the ring encrypted in a run is decrypted while the ring holds its key, with its keys in order. -/
def Decrypts (p : KeyRing × List (KeyRing × Call)) : Prop :=
  ∀ ring payload options iv envelope expected, (ring, Call.encrypt payload options iv) ∈ p.2 →
    ring.encrypt gcm payload.val options iv = .ok envelope → p.1.keys.has envelope.keyId = true →
    (∀ data ∈ expected, aadBytes options = .ok data.toBytes) →
    p.1.decrypt gcm envelope expected = .ok payload.val.json.sorted

/-- An id that was retired is added again with the material that it had only, and what is encrypted is a plain
    value. -/
def Restores (p : KeyRing × List (KeyRing × Call)) (call : Call) (_ : KeyRing × List (KeyRing × Call)) : Prop :=
  (∀ key ∈ call.added, p.1.keys.get? key.keyId = none → ∀ e ∈ p.2, ∀ material,
    e.1.keys.get? key.keyId = some material → material = key.key) ∧
  ∀ payload options iv, call = .encrypt payload options iv → payload.val.Plain

end KeyRing

end Premise.Security
