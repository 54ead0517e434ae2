import Premise.Js.Utf8
import Premise.Protocol.Signatures
import Premise.Security.Canonical

/-!
# Signed payloads

The bytes that `signEd25519` signs: a string and a byte array are signed as they are, any other value by its
canonical text. The keys and the algorithm of `node:crypto` are parameters.
-/

namespace Premise.Security

open Js

/-- `Buffer.from(value, "utf8")`. -/
def textBytes (value : String) : List UInt8 := (utf8 value.toList).map UInt8.ofNat

/-- The text of `base64Encode(value)`. -/
def base64Text (value : List UInt8) : String := String.ofList (base64Encode value)

/-- `[A-Za-z0-9+/]`. -/
def inAlphabet (c : Char) : Bool := c.isAlphanum || c = '+' || c = '/'

/-- `/^[A-Za-z0-9+/]*={0,2}$/.test(value)`. -/
def isBase64 (value : String) : Bool :=
  let padding := value.toList.dropWhile inAlphabet
  padding.length ≤ 2 && padding.all (fun c => c = '=')

def base64Decode (value label : String) (allowEmpty : Bool) : Except SecurityError (List UInt8) :=
  if (!allowEmpty && value.isEmpty) || value.length % 4 ≠ 0 || !isBase64 value then
    invalid (label ++ " must be valid base64")
  else
    match Protocol.decodeGroups value.toList with
    | none => invalid (label ++ " must use canonical base64")
    | some decoded => .ok (decoded.map UInt8.ofNat)

def securityPayloadBytes : Payload → Except SecurityError (List UInt8)
  | .string s => .ok (textBytes s)
  | .bytes content => .ok content
  | value => value.canonicalize.map textBytes

/-- Ed25519 of `node:crypto`: `K` is what a caller passes as a key, `S` a private and `P` a public key. What
    throws has no result. -/
structure Ed25519 (K S P : Type) where
  privateKey : K → Option S
  publicKey : K → Option P
  sign : S → List UInt8 → Option (List UInt8)
  verify : P → List UInt8 → List UInt8 → Option Bool

variable {K S P : Type} (crypto : Ed25519 K S P)

def signEd25519 (payload : Payload) (privateKey : Option K) : Except SecurityError String :=
  match privateKey with
  | none => invalid "an Ed25519 private key is required"
  | some privateKey => do
    let payloadBytes ← securityPayloadBytes payload
    match crypto.privateKey privateKey with
    | none => .error (.security .signingFailed "Ed25519 private key is invalid")
    | some key =>
      match crypto.sign key payloadBytes with
      | none => .error (.security .signingFailed "Ed25519 signing failed")
      | some signature => .ok (base64Text signature)

def verifyEd25519 (payload : Payload) (signature : String) (publicKey : Option K) : Bool :=
  match publicKey, base64Decode signature "signature" false with
  | some publicKey, .ok signatureBytes =>
    if signatureBytes.length ≠ 64 then false
    else
      match crypto.publicKey publicKey, securityPayloadBytes payload with
      | some key, .ok payloadBytes => (crypto.verify key payloadBytes signatureBytes).getD false
      | _, _ => false
  | _, _ => false

namespace Payload

mutual

def Plain : Payload → Prop
  | .null => True
  | .boolean _ => True
  | .number _ => True
  | .string _ => True
  | .array items => PlainItems items
  | .object true properties => PlainProperties properties
  | _ => False

def PlainItems : List Payload → Prop
  | [] => True
  | v :: items => v.Plain ∧ PlainItems items

def PlainProperties : List (String × Payload) → Prop
  | [] => True
  | (_, v) :: properties => v.Plain ∧ PlainProperties properties

end

mutual

def json : Payload → Json
  | .boolean b => .boolean b
  | .number value => .number value.val
  | .string s => .string s
  | .array items => .array (jsonItems items)
  | .object true properties => .object (jsonProperties properties)
  | _ => .null

def jsonItems : List Payload → List Json
  | [] => []
  | v :: items => v.json :: jsonItems items

def jsonProperties : List (String × Payload) → List (String × Json)
  | [] => []
  | (key, v) :: properties => (key, v.json) :: jsonProperties properties

end

end Payload

/-- `JSON.stringify` of a plain value with its keys in order. -/
def Payload.jsonText (v : Payload) : String := String.ofList v.json.sorted.stringify

/-- What is signed. -/
inductive SignedPayload
  | text (s : String)
  | bytes (content : List UInt8)
  | value (v : Payload) (wellFormed : v.WellFormed) (plain : v.Plain) (ne_string : ∀ s, v ≠ .string s)

namespace SignedPayload

def payload : SignedPayload → Payload
  | .text s => .string s
  | .bytes content => .bytes content
  | .value v _ _ _ => v

/-- The payloads are of one kind and structure, up to the order of properties. -/
def Same : SignedPayload → SignedPayload → Prop
  | .text s, .text t => s = t
  | .bytes content, .bytes other => content = other
  | .value v _ _ _, .value w _ _ _ => v.json.Same w.json
  | _, _ => False

/-- The payloads are of two kinds, and the one is the spelling of the other: a byte array the bytes of a string,
    or a string or a byte array the JSON text of another value. -/
def Spells : SignedPayload → SignedPayload → Prop
  | .text s, .bytes content => content = textBytes s
  | .bytes content, .text s => content = textBytes s
  | .text s, .value v _ _ _ => s = v.jsonText
  | .value v _ _ _, .text s => s = v.jsonText
  | .bytes content, .value v _ _ _ => content = textBytes v.jsonText
  | .value v _ _ _, .bytes content => content = textBytes v.jsonText
  | _, _ => False

end SignedPayload

/-- A signature that the private key makes for the one message verifies under the public key for the other
    one only when the messages are the same. -/
def Ed25519.Binds (privateKey publicKey : K) (message other : List UInt8) : Prop :=
  ∀ key key' signature, crypto.privateKey privateKey = some key → crypto.publicKey publicKey = some key' →
    crypto.sign key message = some signature → crypto.verify key' other signature = some true → other = message

end Premise.Security
