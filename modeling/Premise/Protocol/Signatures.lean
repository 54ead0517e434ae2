import Premise.Collections.OrderedMap
import Premise.Control.Command
import Premise.Protocol.Envelope

/-!
# Envelope signatures

`verifyMemoryEnvelopeV2SignaturesAsync` up to the claims that it makes. The Ed25519 verification of a
document, and what a key source holds, are parameters.
-/

namespace Premise.Protocol

open Js

inductive V2SignatureVerificationCode
  | invalidOptions
  | invalidEnvelope
  | unsignedEnvelope
  | unknownKeyId
  | invalidSignatureEncoding
  | invalidSignature
  | replay
  | replayStoreUnavailable
  | signatureTimeInvalid
deriving DecidableEq

structure V2SignatureVerificationIssue where
  path : String
  code : V2SignatureVerificationCode
  message : String
deriving DecidableEq

/-- A replay claim. Its instants are in milliseconds. -/
structure V2SignatureReplayClaim where
  key : String
  tenantId : String
  signatureId : String
  keyId : String
  signedAt : String
  acceptedAt : Int
  expiresAt : Int
deriving DecidableEq

/-- `signatureMetadata(signature)`, with its keys in their order. -/
def signatureMetadata (signature : DeclaredSignature) : Json :=
  .object ([("algorithm", .string "ed25519")] ++ optionalText "evidenceId" signature.evidenceId
    ++ [("keyId", .string signature.keyId), ("signatureId", .string signature.signatureId),
      ("signedAt", .string signature.signedAt), ("signerId", .string signature.signerId)])

/-- The document whose text `canonicalizeSignature(envelope, signature)` is. -/
def canonicalizeSignature (envelope : MemoryEnvelopeV2) (signature : DeclaredSignature) : Json :=
  .object [("domain", .string "premise/memory-envelope-signature/v2"), ("envelope", envelope.unsigned),
    ("signature", signatureMetadata signature)]

def base64Value (c : Char) : Option Nat :=
  if 'A' ≤ c ∧ c ≤ 'Z' then some (c.toNat - 'A'.toNat)
  else if 'a' ≤ c ∧ c ≤ 'z' then some (c.toNat - 'a'.toNat + 26)
  else if '0' ≤ c ∧ c ≤ '9' then some (c.toNat - '0'.toNat + 52)
  else if c = '+' then some 62
  else if c = '/' then some 63
  else none

/-- The bytes of groups of four characters, where the bits that stand for no byte are zero. -/
def decodeGroups : List Char → Option (List Nat)
  | [] => some []
  | [a, b, '=', '='] => do
    let x ← base64Value a
    let y ← base64Value b
    if y % 16 = 0 then return [x * 4 + y / 16] else none
  | [a, b, c, '='] => do
    let x ← base64Value a
    let y ← base64Value b
    let z ← base64Value c
    if z % 4 = 0 then return [x * 4 + y / 16, y % 16 * 16 + z / 4] else none
  | a :: b :: c :: d :: rest => do
    let x ← base64Value a
    let y ← base64Value b
    let z ← base64Value c
    let u ← base64Value d
    let bytes ← decodeGroups rest
    return [x * 4 + y / 16, y % 16 * 16 + z / 4, z % 4 * 64 + u] ++ bytes
  | _ => none

def decodeBase64 (value : String) : Option (List Nat) :=
  if value.length = 0 ∨ value.length > 128 then none else decodeGroups value.toList

/-- The keys of a service, and the verification with them: `P` is what a key source holds, `K` a public
    Ed25519 key. -/
structure Ed25519 (P K : Type) where
  publicKey : P → Option K
  verifySignature : Json → K → List Nat → Bool

variable {P K : Type}

/-- The options, apart from the replay store. -/
structure V2SignatureVerificationAsyncOptions (P : Type) where
  keys : String → Option P
  maxClockSkewMs : Int := 300000

/-- The message of `signatureIssue`. -/
def signatureIssue (signature : DeclaredSignature) (path : String)
    (code : V2SignatureVerificationCode) (message : String) : V2SignatureVerificationIssue :=
  ⟨path, code, signature.signatureId ++ ": " ++ message⟩

/-- `asyncOptionsIssues(options)`, for options of the right shape. -/
def asyncOptionsIssues (options : V2SignatureVerificationAsyncOptions P) :
    List V2SignatureVerificationIssue :=
  if 1 ≤ options.maxClockSkewMs ∧ options.maxClockSkewMs ≤ 86400000 then []
  else [⟨"$.options.maxClockSkewMs", .invalidOptions,
    "maxClockSkewMs must be a safe integer from 1 to 86400000"⟩]

def structuralIssues (input : MemoryEnvelopeV2) : List V2SignatureVerificationIssue :=
  (validateMemoryEnvelopeV2 input).map (fun issue => ⟨issue.path, .invalidEnvelope, issue.message⟩)

def InWindow (options : V2SignatureVerificationAsyncOptions P) (nowMs : ℚ) (signedAtMs : Int) : Prop :=
  |nowMs - signedAtMs| ≤ options.maxClockSkewMs

instance (options : V2SignatureVerificationAsyncOptions P) (nowMs : ℚ) (signedAtMs : Int) :
    Decidable (InWindow options nowMs signedAtMs) := inferInstanceAs (Decidable (_ ≤ _))

def checkSignature (crypto : Ed25519 P K) (options : V2SignatureVerificationAsyncOptions P) (nowMs : ℚ)
    (envelope : MemoryEnvelopeV2) (path : String) (signature : DeclaredSignature) :
    Option V2SignatureVerificationIssue :=
  if (dateParse signature.signedAt).any (fun signedAtMs => InWindow options nowMs signedAtMs) then
    match options.keys signature.keyId with
    | none => some (signatureIssue signature path .unknownKeyId
        ("no public key is configured for keyId " ++ signature.keyId))
    | some key =>
      match (decodeBase64 signature.value).filter (fun bytes => decide (bytes.length = 64)) with
      | none => some (signatureIssue signature path .invalidSignatureEncoding
          "value must be canonical base64 for a 64-byte Ed25519 signature")
      | some signatureBytes =>
        match crypto.publicKey key with
        | none => some (signatureIssue signature path .invalidSignature
            "keyId does not resolve to a public Ed25519 key")
        | some verificationKey =>
          if crypto.verifySignature (canonicalizeSignature envelope signature) verificationKey
              signatureBytes then none
          else some (signatureIssue signature path .invalidSignature "Ed25519 verification failed")
  else some (signatureIssue signature path .signatureTimeInvalid
    ("signedAt is outside the allowed " ++ toString options.maxClockSkewMs ++ " ms clock window"))

/-- The instant of `new Date(ms).toISOString()`; `none` is a `RangeError`. -/
def toISOString (ms : ℚ) : Option Int :=
  let instant := if 0 ≤ ms then ⌊ms⌋ else ⌈ms⌉
  if -8640000000000000 ≤ instant ∧ instant ≤ 8640000000000000 then some instant else none

/-- What happens before the claims are made. -/
inductive Verification
  /-- The envelope is not verified, and nothing is claimed. -/
  | issues (issues : List V2SignatureVerificationIssue)
  /-- `toISOString` throws. -/
  | threw (err : JsError)
  | claims (claims : List V2SignatureReplayClaim)

/-- `verifyMemoryEnvelopeV2SignaturesAsync(input, options)` up to `claimMany`; `now` is the value of the
    clock, `none` when it is not finite. -/
def verifySignatures (crypto : Ed25519 P K) (input : MemoryEnvelopeV2)
    (options : V2SignatureVerificationAsyncOptions P) (now : Option ℚ) : Verification :=
  if asyncOptionsIssues options ≠ [] then .issues (asyncOptionsIssues options)
  else if structuralIssues input ≠ [] then .issues (structuralIssues input)
  else if input.signatures = [] then
    .issues [⟨"$.signatures", .unsignedEnvelope, "at least one Ed25519 signature is required"⟩]
  else
    match now with
    | none => .issues [⟨"$.options.now", .invalidOptions, "now must resolve to a finite timestamp"⟩]
    | some nowMs =>
      let found := (indexed "$.signatures" input.signatures).filterMap
        (fun p => checkSignature crypto options nowMs input p.1 p.2)
      let repeated := (indexed "$.signatures" input.signatures).zipIdx.filterMap (fun p =>
        if p.1.2.value ∈ (input.signatures.take p.2).map DeclaredSignature.value then
          some (signatureIssue p.1.2 p.1.1 .replay "signature was declared more than once")
        else none)
      if found ≠ [] then .issues found
      else if repeated ≠ [] then .issues repeated
      else
        match toISOString nowMs, toISOString (nowMs + options.maxClockSkewMs) with
        | some acceptedAt, some expiresAt =>
          .claims (input.signatures.map (fun signature =>
            { key := signature.value
              tenantId := input.tenantId
              signatureId := signature.signatureId
              keyId := signature.keyId
              signedAt := signature.signedAt
              acceptedAt := acceptedAt
              expiresAt := expiresAt }))
        | _, _ => .threw (.rangeError "Invalid time value")

/-!
# Synchronous verification

`verifyMemoryEnvelopeV2Signatures`, which has no clock, and the process-local replay store in which it
claims the signatures.
-/

open Collections Control

/-- `MemoryV2SignatureReplayStore`: the signatures that were claimed, the oldest first. -/
structure MemoryV2SignatureReplayStore where
  keys : OrderedSet String := ∅
  maxEntries : Nat := 10000

namespace MemoryV2SignatureReplayStore

def evict (store : MemoryV2SignatureReplayStore) : MemoryV2SignatureReplayStore :=
  { store with
    keys := ⟨store.keys.elems.drop (store.keys.size - store.maxEntries),
      store.keys.nodup.sublist (List.drop_sublist _ _)⟩ }

def claimMany {ε : Type} (keys : List String) : Command MemoryV2SignatureReplayStore ε Bool := fun store =>
  if keys = [] ∨ "" ∈ keys ∨ ¬ keys.Nodup ∨ ∃ key ∈ keys, key ∈ store.keys then (store, .ok false)
  else (evict { store with keys := store.keys.addAll keys }, .ok true)

end MemoryV2SignatureReplayStore

variable {P K : Type}

/-- The options, apart from the replay store. -/
structure V2SignatureVerificationOptions (P K : Type) where
  keys : String → Option P
  crypto : Ed25519 P K

def V2SignatureVerificationOptions.issue (options : V2SignatureVerificationOptions P K)
    (envelope : MemoryEnvelopeV2) (path : String) (signature : DeclaredSignature) :
    Option V2SignatureVerificationIssue :=
  match options.keys signature.keyId with
  | none => some (signatureIssue signature path .unknownKeyId
      ("no public key is configured for keyId " ++ signature.keyId))
  | some key =>
    match (decodeBase64 signature.value).filter (fun bytes => decide (bytes.length = 64)) with
    | none => some (signatureIssue signature path .invalidSignatureEncoding
        "value must be canonical base64 for a 64-byte Ed25519 signature")
    | some signatureBytes =>
      match options.crypto.publicKey key with
      | none => some (signatureIssue signature path .invalidSignature
          "keyId does not resolve to a public Ed25519 key")
      | some verificationKey =>
        if options.crypto.verifySignature (canonicalizeSignature envelope signature) verificationKey
            signatureBytes then none
        else some (signatureIssue signature path .invalidSignature "Ed25519 verification failed")

def V2SignatureVerificationOptions.issues (options : V2SignatureVerificationOptions P K)
    (envelope : MemoryEnvelopeV2) : List V2SignatureVerificationIssue :=
  (indexed "$.signatures" envelope.signatures).filterMap (fun p => options.issue envelope p.1 p.2)

/-- The issues of the signatures that an envelope declares more than once. -/
def repeatedSignatures (envelope : MemoryEnvelopeV2) : List V2SignatureVerificationIssue :=
  (indexed "$.signatures" envelope.signatures).zipIdx.filterMap (fun p =>
    if p.1.2.value ∈ (envelope.signatures.take p.2).map DeclaredSignature.value then
      some (signatureIssue p.1.2 p.1.1 .replay "signature was declared more than once")
    else none)

def acceptedSignatures (envelope : MemoryEnvelopeV2) : List V2SignatureVerificationIssue :=
  (indexed "$.signatures" envelope.signatures).map (fun p =>
    signatureIssue p.2 p.1 .replay "one or more signatures were already accepted")

/-- What stands against an envelope before its signatures are claimed. -/
def V2SignatureVerificationOptions.objections (options : V2SignatureVerificationOptions P K)
    (input : MemoryEnvelopeV2) : List V2SignatureVerificationIssue :=
  if structuralIssues input ≠ [] then structuralIssues input
  else if input.signatures = [] then
    [⟨"$.signatures", .unsignedEnvelope, "at least one Ed25519 signature is required"⟩]
  else if options.issues input ≠ [] then options.issues input
  else repeatedSignatures input

/-- `parseAndVerifyMemoryEnvelopeV2(input, options)`: what it throws are the issues. -/
def parseAndVerifyMemoryEnvelopeV2 (options : V2SignatureVerificationOptions P K)
    (input : MemoryEnvelopeV2) :
    Command MemoryV2SignatureReplayStore (List V2SignatureVerificationIssue) MemoryEnvelopeV2 := do
  .rejectIf (options.objections input ≠ []) (options.objections input)
  let claimed ← MemoryV2SignatureReplayStore.claimMany (input.signatures.map DeclaredSignature.value)
  .rejectIf (claimed = false) (acceptedSignatures input)
  return input

end Premise.Protocol
