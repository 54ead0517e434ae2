import Premise.Control.System
import Premise.Postgres.Driver
import Premise.Protocol.Signatures

/-!
# `PostgresSignatureReplayStore`

The table of accepted signatures, and the verification that claims them. The hexadecimal SHA-256 digest
of a text is a parameter. The database reads its clock at the instant of the verification.
-/

namespace Premise.Postgres

open Collections Js Protocol

structure PostgresSignatureReplayStore where
  tenantId : String
  retentionMs : Int := 600000

/-- The rows under their primary key, the tenant and the digest of the signature. -/
structure ReplayTable where
  rows : OrderedMap (String × String) V2SignatureReplayClaim := ∅

/-- `assertKey(value, label)` lets the value through. -/
def validKey (value : String) : Bool := isNonEmptyString value && isTrimmed value

namespace PostgresSignatureReplayStore

/-- `normalizeClaim(claim)`, with the digest of the key. -/
def normalizeClaim (store : PostgresSignatureReplayStore) (digest : String → String)
    (claim : V2SignatureReplayClaim) : Except PostgresError (String × V2SignatureReplayClaim) := do
  if claim.tenantId ≠ store.tenantId then
    .error (.thrown (.error "signature replay claim tenant does not match the store"))
  require (validKey claim.key)
    "signature replay key must be a non-empty string without surrounding whitespace"
  require (validKey claim.signatureId)
    "signature replay signatureId must be a non-empty string without surrounding whitespace"
  require (validKey claim.keyId)
    "signature replay keyId must be a non-empty string without surrounding whitespace"
  require (validKey claim.signedAt)
    "signature replay signedAt must be a non-empty string without surrounding whitespace"
  require (isDateTime claim.signedAt && decide (claim.acceptedAt < claim.expiresAt)
      && decide (claim.expiresAt - claim.acceptedAt ≤ store.retentionMs))
    "signature replay claim timestamps are invalid or exceed retention"
  return (digest claim.key, claim)

end PostgresSignatureReplayStore

namespace ReplayTable

/-- `DELETE … WHERE tenant_id = … AND expires_at <= CURRENT_TIMESTAMP`. -/
def deleteExpired (t : ReplayTable) (tenantId : String) (now : ℚ) : ReplayTable where
  rows := (t.rows.entries.filter (fun row =>
    decide (row.1.1 = tenantId ∧ (row.2.expiresAt : ℚ) ≤ now))).foldl
      (fun rows row => rows.erase row.1) t.rows

/-- The insertions, one after the other; `.ok none` is a `ReplayClaimConflict`. -/
def insertAll (t : ReplayTable) (tenantId : String) :
    List (String × V2SignatureReplayClaim) → Except PostgresError (Option ReplayTable)
  | [] => .ok (some t)
  | (replayDigest, claim) :: rest =>
    if !([replayDigest, claim.signatureId, claim.keyId].all storable) then .error .encoding
    else if t.rows.has (tenantId, replayDigest) then .ok none
    else insertAll ⟨t.rows.set (tenantId, replayDigest) claim⟩ tenantId rest

def claimMany (t : ReplayTable) (store : PostgresSignatureReplayStore) (digest : String → String)
    (claims : List V2SignatureReplayClaim) (now : ℚ) : ReplayTable × Except PostgresError Bool :=
  if claims = [] then (t, .ok true)
  else
    match claims.mapM (store.normalizeClaim digest) with
    | .error err => (t, .error err)
    | .ok normalized =>
      if ¬ (normalized.map Prod.fst).Nodup then (t, .ok false)
      else if !storable store.tenantId then (t, .error .encoding)
      else
        match (t.deleteExpired store.tenantId now).insertAll store.tenantId normalized with
        | .error err => (t, .error err)
        | .ok none => (t, .ok false)
        | .ok (some t') => (t', .ok true)

/-- `verifyMemoryEnvelopeV2SignaturesAsync(input, options)`: whether the envelope is verified. -/
def verify {P K : Type} (t : ReplayTable) (digest : String → String) (crypto : Ed25519 P K)
    (input : MemoryEnvelopeV2) (options : V2SignatureVerificationAsyncOptions P)
    (store : PostgresSignatureReplayStore) (now : ℚ) : ReplayTable × Bool :=
  match verifySignatures crypto input options (some now) with
  | .claims claims =>
    match t.claimMany store digest claims now with
    | (t', .ok claimed) => (t', claimed)
    | (t', .error _) => (t', false)
  | _ => (t, false)

end ReplayTable

/-!
# What the replay protection promises

Verifications of envelopes against one table of signatures, at instants that do not decrease.
-/

open Control

variable {P K : Type}

/-- A signature that has been accepted, with its envelope. -/
structure AcceptedSignature where
  envelope : MemoryEnvelopeV2
  signature : DeclaredSignature

/-- A call of `verifyMemoryEnvelopeV2SignaturesAsync`. -/
structure VerifyCall (P : Type) where
  input : MemoryEnvelopeV2
  options : V2SignatureVerificationAsyncOptions P
  store : PostgresSignatureReplayStore
  now : ℚ

/-- The table, the signatures that have been accepted so far, and the instant of the last call. -/
structure ReplayProtection where
  table : ReplayTable := {}
  accepted : List AcceptedSignature := []
  last : Option ℚ := none

namespace ReplayProtection

def verify (w : ReplayProtection) (digest : String → String) (crypto : Ed25519 P K)
    (call : VerifyCall P) : ReplayProtection :=
  let verified := w.table.verify digest crypto call.input call.options call.store call.now
  { table := verified.1
    accepted :=
      if verified.2 then w.accepted ++ call.input.signatures.map (AcceptedSignature.mk call.input)
      else w.accepted
    last := some call.now }

def system (digest : String → String) (crypto : Ed25519 P K) :
    System ReplayProtection (VerifyCall P) where
  init := fun w => w = {}
  step := fun w call w' => (∀ last ∈ w.last, last ≤ call.now) ∧ w' = w.verify digest crypto call

/-- The claim of every signature that the call may accept outlives its acceptance window: it expires
    after the last instant at which the signature lies in a window of `largest` milliseconds, which no
    skew exceeds. -/
def Outlives (largest : Int) (call : VerifyCall P) : Prop :=
  call.options.maxClockSkewMs ≤ largest ∧
    ∀ signature ∈ call.input.signatures, ∀ signedAtMs expiresAt : Int,
      dateParse signature.signedAt = some signedAtMs →
      InWindow call.options call.now signedAtMs →
      toISOString (call.now + call.options.maxClockSkewMs) = some expiresAt →
      signedAtMs + largest < expiresAt

/-- The runs in which every claim outlives the window of its signature. -/
def outliving (digest : String → String) (crypto : Ed25519 P K) (largest : Int) :
    System ReplayProtection (VerifyCall P) :=
  (system digest crypto).restrict (fun _ call _ => Outlives largest call)

end ReplayProtection

def AcceptedSignature.declaration (a : AcceptedSignature) : String × String × DeclaredSignature :=
  (a.envelope.tenantId, a.envelope.memoryId, a.signature)

/-- The tenant, the memory, the key and the bytes of a signature. -/
def AcceptedSignature.identity (a : AcceptedSignature) : String × String × String × String :=
  (a.envelope.tenantId, a.envelope.memoryId, a.signature.keyId, a.signature.value)

def Binding (crypto : Ed25519 P K) : Prop :=
  ∀ payload payload' key key' bytes, crypto.verifySignature payload key bytes = true →
    crypto.verifySignature payload' key' bytes = true → payload = payload'

/-- What a service that verifies envelopes is promised. -/
structure ReplayProtected (digest : String → String) (crypto : Ed25519 P K) (largest : Int) :
    Prop where
  /-- A declaration is accepted at most once. -/
  once : ∀ w, (ReplayProtection.outliving digest crypto largest).Reachable w →
    (w.accepted.map AcceptedSignature.declaration).Nodup
  /-- So is a signature, under whatever declaration. -/
  bound : Binding crypto → ∀ w, (ReplayProtection.outliving digest crypto largest).Reachable w →
    (w.accepted.map AcceptedSignature.identity).Nodup

end Premise.Postgres
