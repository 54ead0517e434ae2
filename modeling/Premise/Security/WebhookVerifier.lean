import Premise.Security.Replay
import Premise.Webhook.Parse

/-!
# `WebhookVerifier`

A request is authenticated by its signature, and claims its body and its delivery id at the replay guard. The
functions of `node:crypto`, `toLowerCase` and `Date.parse` are parameters.
-/

namespace Premise.Security

open Collections Js Webhook

structure VerifierHost where
  /-- `createHmac("sha256", secret).update(payload).digest("hex")`. -/
  hmac : List Nat → List Nat → String
  /-- `createHash("sha256").update(value).digest("hex")`. -/
  sha256 : List Nat → String
  /-- `Buffer.from(value).toString("base64")`. -/
  base64 : List Nat → String
  toLowerCase : String → String
  /-- `Date.parse(value)`, when it is not `NaN`. -/
  parse : String → Option ℚ

def hexDecode (value label : String) : Except SecurityError (List Nat) :=
  if value.toList.length = 0 || value.toList.length % 2 ≠ 0 || !value.toList.all isHexDigit then
    invalid (label ++ " must be valid hexadecimal")
  else .ok (hexBytes value.toLower.toList)

/-- `normalized.slice("sha256=".length)`, when `/^sha256=[0-9a-f]{64}$/.test(normalized)`. -/
def signatureDigest (normalized : String) : Option String :=
  let digest := normalized.toList.drop 7
  if normalized.toList.take 7 = ['s', 'h', 'a', '2', '5', '6', '='] ∧ digest.length = 64 ∧
      digest.all (fun c => c.isDigit || ('a' ≤ c && c ≤ 'f')) then some (String.ofList digest)
  else none

variable (host : VerifierHost)

def verifyWebhookSignature (payload : List Nat) (signature : Option String) (secret : List Nat) : Bool :=
  match signature, hexDecode (host.hmac secret payload) "HMAC" with
  | some signature, .ok expected =>
    match signatureDigest (host.toLowerCase (trim signature)) with
    | none => false
    | some digest => decide (hexDecode digest "HMAC" = .ok expected)
  | _, _ => false

def normalizedTimestamp : Option Timestamp → Except SecurityError (List (String × Json))
  | none => .ok []
  | some (.number (some value)) => .ok [("timestamp", .number value)]
  | some (.number none) => invalid "timestamp must be a finite number or printable string"
  | some (.text value) => do
    let value ← printable value "timestamp" 128
    return [("timestamp", .string value)]

/-- `webhookSigningBytes(payload, metadata)`: the keys of the canonical object are sorted. -/
def webhookSigningBytes (payload : List Nat) (deliveryId : String) (timestamp : Option Timestamp) :
    Except SecurityError (List Nat) := do
  let deliveryId ← identifier deliveryId "deliveryId"
  let timestamp ← normalizedTimestamp timestamp
  return utf8 (Json.stringify (.object
    ([("deliveryId", .string deliveryId), ("payload", .string (host.base64 payload))] ++ timestamp)))

def verifyWebhookRequest (payload : List Nat) (signature : Option String) (secret : List Nat) (deliveryId : String)
    (timestamp : Option Timestamp) : Bool :=
  match webhookSigningBytes host payload deliveryId timestamp with
  | .error _ => false
  | .ok signed => verifyWebhookSignature host signed signature secret

structure WebhookVerificationRequest where
  payload : Octets
  signature : Option String := none
  deliveryId : Option String := none
  timestamp : Option Timestamp := none

structure WebhookVerifierOptions where
  secret : Octets
  replayGuard : Option ReplayGuard := none
  bindMetadata : Option Bool := none

structure WebhookVerifier where
  secret : List Nat
  replayGuard : Option ReplayGuard
  bindMetadata : Bool
  secret_ne : secret ≠ []

namespace WebhookVerifier

def authenticated (v : WebhookVerifier) (request : WebhookVerificationRequest) : Bool :=
  if v.bindMetadata then
    match request.deliveryId with
    | none => false
    | some deliveryId =>
      verifyWebhookRequest host request.payload.toBytes request.signature v.secret deliveryId request.timestamp
  else verifyWebhookSignature host request.payload.toBytes request.signature v.secret

def bodyKey (request : WebhookVerificationRequest) : String :=
  "body:" ++ ("sha256:" ++ host.sha256 request.payload.toBytes)

/-- `verify(request)`; `first` and `second` are what the clock reads at the claims of the body and of the delivery. -/
def verify (v : WebhookVerifier) (s : MemoryReplayStore) (request : WebhookVerificationRequest)
    (first second : Option ℚ) : MemoryReplayStore × Bool :=
  match v.authenticated host request, v.replayGuard with
  | false, _ => (s, false)
  | true, none => (s, true)
  | true, some g =>
    match g.claim host.parse s (bodyKey host request) request.timestamp first with
    | (s, false) => (s, false)
    | (s, true) =>
      match request.deliveryId with
      | none => (s, true)
      | some deliveryId => g.claim host.parse s ("delivery:" ++ deliveryId) request.timestamp second

end WebhookVerifier

def MemoryReplayStore.Claimed (s : MemoryReplayStore) (now : ℚ) (key : String) : Prop :=
  ∃ expiry, s.entries.get? key = some expiry ∧ now < expiry

def MemoryReplayStore.HasExpired (s : MemoryReplayStore) (now : ℚ) : Prop :=
  ∃ key expiry, s.entries.get? key = some expiry ∧ expiry ≤ now

/-- The instant of a claim that reaches the store: its key is an identifier, and its timestamp is in the window. -/
def ReplayGuard.admitted (g : ReplayGuard) (parse : String → Option ℚ) (key : String) (timestamp : Option Timestamp)
    (now : Option ℚ) : Option ℚ :=
  match identifier key "replay key", now with
  | .ok _, some now =>
    match timestamp.elim (some now) (Timestamp.occurredAt parse) with
    | none => none
    | some occurredAt => if |now - occurredAt| > g.maxClockSkewMs then none else some now
  | _, _ => none

def Past (now : ℚ) (first second : Option ℚ) : Prop := (∀ t ∈ first, t ≤ now) ∧ ∀ t ∈ second, t ≤ now

/-- From the last clock reading on, the same keys are claimed. -/
def SameClaims (s s' : MemoryReplayStore) (first second : Option ℚ) : Prop :=
  ∀ now, Past now first second → ∀ key, s'.Claimed now key ↔ s.Claimed now key

namespace WebhookVerifier

variable (v : WebhookVerifier) (s : MemoryReplayStore) (request : WebhookVerificationRequest) (first second : Option ℚ)

/-- The request is authentic, and its body reaches the store at an instant. -/
def Reaches (g : ReplayGuard) (t : ℚ) : Prop :=
  v.authenticated host request = true ∧ v.replayGuard = some g ∧
    g.admitted host.parse (bodyKey host request) request.timestamp first = some t

/-- The body is claimed by the request, and the claim has not expired at the second reading of the clock. -/
def ClaimsBody : Prop :=
  ∃ g t, v.Reaches host request first g t ∧ ¬ s.Claimed t (bodyKey host request) ∧
    ∀ t' ∈ second, t' < t + g.ttlMs

/-- When the body reaches the store, nothing has expired, and the body is claimed already, or the delivery id reaches
    the store when the claim of the body is all that has expired. -/
def LeavesStore : Prop :=
  ∀ g t, v.Reaches host request first g t → ¬ s.HasExpired t ∧ (s.Claimed t (bodyKey host request) ∨
    ∃ deliveryId t', request.deliveryId = some deliveryId ∧
      g.admitted host.parse ("delivery:" ++ deliveryId) request.timestamp second = some t' ∧ t + g.ttlMs ≤ t' ∧
        ¬ s.HasExpired t')

/-- Every later request, of which the clock is read at times that do not decrease, is judged the same. -/
def JudgedAlike (s' : MemoryReplayStore) : Prop :=
  ∀ request' t t', Past t first second → t ≤ t' →
    (v.verify host s' request' (some t) (some t')).2 = (v.verify host s request' (some t) (some t')).2

end WebhookVerifier

end Premise.Security
