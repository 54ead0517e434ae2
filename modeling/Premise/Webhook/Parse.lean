import Premise.Js.Basic
import Premise.Js.JsonText
import Premise.Js.Utf8

/-!
# Parsing webhooks

`parseWebhook`: the body is read as text, its signature and its timestamp are checked, and the text is
parsed. `createHmac` and the case folding of header names are parameters.
-/

namespace Premise.Webhook

open Js

/-- A text or its bytes: a `WebhookSecret` or a `WebhookBody`. -/
inductive Octets
  | text (value : String)
  | bytes (value : List Nat)
deriving DecidableEq

/-- What the host provides. -/
structure WebhookHost where
  /-- `createHmac("sha256", secret).update(message).digest("hex")`. -/
  hmac : Octets → List Nat → String
  /-- `value.toLowerCase()`. -/
  toLowerCase : String → String

def signatureError : JsError := ⟨.error, "Webhook signature is invalid", some "WEBHOOK_SIGNATURE_INVALID"⟩

def replayError (message : String) : JsError := ⟨.error, message, some "WEBHOOK_REPLAY_REJECTED"⟩

def outsideWindow : JsError := replayError "Webhook timestamp is outside the replay window"

def parseError (message : String) : JsError := ⟨.error, message, some "WEBHOOK_PARSE_INVALID"⟩

/-- `bytes(body)`. -/
def Octets.toBytes : Octets → List Nat
  | .text value => utf8 value.toList
  | .bytes value => value

/-- `new TextDecoder("utf-8", { fatal: true }).decode(bytes(body))`. -/
def bodyText (body : Octets) : Except JsError String :=
  if utf8 (decodeBytes none body.toBytes) = body.toBytes then .ok (String.ofList (decode body.toBytes))
  else .error (parseError "Webhook body is not valid UTF-8")

inductive WebhookHeaderValue
  | one (value : String)
  | many (values : List String)
  | undefined

inductive WebhookHeaders
  /-- A `Headers` object. -/
  | headers (entries : List (String × String))
  | record (entries : List (String × WebhookHeaderValue))

/-- `Array.isArray(value) ? value[0] : value`. -/
def WebhookHeaderValue.selected : WebhookHeaderValue → Option String
  | .one value => some value
  | .many values => values.head?
  | .undefined => none

def WebhookHeaderValue.isUndefined : WebhookHeaderValue → Bool
  | .undefined => true
  | _ => false

variable (host : WebhookHost)

def header : WebhookHeaders → String → Option String
  | .headers entries, name =>
    -- `Headers.get` joins the values of a name, whose case is folded in ASCII
    match (entries.filter (fun entry => entry.1.toLower = name.toLower)).map Prod.snd with
    | [] => none
    | values => some (", ".intercalate values)
  | .record entries, name =>
    (entries.find? (fun entry =>
      host.toLowerCase entry.1 = host.toLowerCase name && !entry.2.isUndefined)).bind
        (fun entry => entry.2.selected)

def Octets.isEmpty : Octets → Bool
  | .text value => value.isEmpty
  | .bytes value => value.isEmpty

def secretBytes (secret : Octets) : Except JsError Octets :=
  if secret.isEmpty then .error (.typeError "Webhook secret must be non-empty") else .ok secret

def signatureMessage (body : Octets) : Option String → Except JsError (List Nat)
  | none => .ok body.toBytes
  | some timestamp => do
    let text ← bodyText body
    return utf8 (timestamp ++ "." ++ text).toList

def digest (body secret : Octets) (timestamp : Option String) : Except JsError String := do
  let secret ← secretBytes secret
  let message ← signatureMessage body timestamp
  return host.hmac secret message

def isHexDigit (c : Char) : Bool := c.isDigit || ('a' ≤ c && c ≤ 'f') || ('A' ≤ c && c ≤ 'F')

/-- `/^[0-9a-f]{64}$/iu`. -/
def isHexDigest (l : List Char) : Bool := l.length = 64 && l.all isHexDigit

/-- The code points that `/sha256=/iu` matches at each place; a long s folds to an s. -/
def algorithmName : List (List Char) :=
  [['s', 'S', 'ſ'], ['h', 'H'], ['a', 'A'], ['2'], ['5'], ['6']]

/-- What stands before the first `=`, and what stands behind it. -/
def splitEquals (l : List Char) : List Char × List Char :=
  (l.takeWhile (· ≠ '='), (l.dropWhile (· ≠ '=')).tail)

/-- `/^sha256=[0-9a-f]{64}$/iu.test(part) || /^v[0-9]+=[0-9a-f]{64}$/iu.test(part)`. -/
def isCandidate (part : List Char) : Bool :=
  let (name, value) := splitEquals part
  part.contains '=' && isHexDigest value &&
    ((name.length = 6 && (name.zip algorithmName).all (fun p => p.2.contains p.1)) ||
      match name with
      | c :: version => (c = 'v' || c = 'V') && !version.isEmpty && version.all Char.isDigit
      | [] => false)

def signatureCandidates (signature : String) : List String :=
  ((((signature.toList.splitOn ',').map (fun part => (trim (String.ofList part)).toList)).filter isCandidate).map
    (fun part => (String.ofList (splitEquals part).2).toLower))

/-- `Number.parseInt` of a digit. -/
def hexDigit (c : Char) : Nat :=
  if c.isDigit then c.toNat - 48 else if 'a' ≤ c && c ≤ 'f' then c.toNat - 87 else 0

def hexBytes : List Char → List Nat
  | a :: b :: rest => (16 * hexDigit a + hexDigit b) :: hexBytes rest
  | _ => []

def validNumber (name : String) (value : Option Number) (fallback : Nat) : Except JsError Nat :=
  match value with
  | none => .ok fallback
  | some value =>
    match value.toFinite with
    | none => .error (.typeError (name ++ " must be a non-negative finite number"))
    | some value =>
      if value < 0 then .error (.typeError (name ++ " must be a non-negative finite number"))
      else .ok ⌊value⌋.toNat

/-- `/^\d+$/.test(text)`. -/
def isDigits (text : String) : Bool := !text.toList.isEmpty && text.toList.all Char.isDigit

/-- `Number(text)` of digits. -/
def digitsValue (text : String) : Nat := Nat.ofDigits 10 (text.toList.reverse.map (fun c => c.toNat - 48))

/-- `timestampSeconds(value, now)` of a text. -/
def timestampSeconds (text : String) : Except JsError String :=
  if !isDigits text then .error (.typeError "Webhook timestamp must be Unix seconds")
  else if !isSafeInteger (digitsValue text) then
    .error (.typeError "Webhook timestamp must be a safe Unix timestamp")
  else .ok text

def assertTimestamp (timestamp : String) (now : ℚ) (maxAgeMs futureSkewMs : Nat) : Except JsError Unit :=
  if !isDigits timestamp then .error (replayError "Webhook timestamp is invalid")
  else if !isSafeInteger (digitsValue timestamp * 1000) then .error (replayError "Webhook timestamp is invalid")
  else if now + futureSkewMs < (digitsValue timestamp * 1000 : Nat) then
    .error (replayError "Webhook timestamp is in the future")
  else if (maxAgeMs : ℚ) < now - (digitsValue timestamp * 1000 : Nat) then .error outsideWindow
  else .ok ()

/-- `verifyWebhookSignature(body, signature, secret, timestamp)`, with a secret. -/
def verifyWebhookSignature (body : Octets) (signature : Option String) (secret : Octets)
    (timestamp : Option String) : Bool :=
  match signature with
  | none => false
  | some signature =>
    let compared : Except JsError Bool := do
      let normalizedTimestamp ← timestamp.mapM timestampSeconds
      let expected := hexBytes (← digest host body secret normalizedTimestamp).toList
      return (signatureCandidates signature).any (fun candidate => decide (hexBytes candidate.toList = expected))
    match compared with
    | .ok result => result
    | .error _ => false

structure WebhookParseOptions where
  secret : Octets
  signatureHeader : Option String := none
  timestampHeader : Option String := none
  deliveryIdHeader : Option String := none
  maxBodyBytes : Option Number := none
  maxAgeMs : Option Number := none
  futureSkewMs : Option Number := none
  replayProtection : Option Bool := none
  requireDeliveryId : Option Bool := none

def defaultMaxBodyBytes : Nat := 1024 * 1024

def defaultMaxAgeMs : Nat := 5 * 60 * 1000

def defaultFutureSkewMs : Nat := 30 * 1000

structure NormalizedParseOptions where
  secret : Octets
  signatureHeader : String
  timestampHeader : String
  deliveryIdHeader : String
  maxBodyBytes : Nat
  maxAgeMs : Nat
  futureSkewMs : Nat
  replayProtection : Bool
  requireDeliveryId : Bool

def normalizedParseOptions (options : WebhookParseOptions) : Except JsError NormalizedParseOptions := do
  let secret ← secretBytes options.secret
  let maxBodyBytes ← validNumber "maxBodyBytes" options.maxBodyBytes defaultMaxBodyBytes
  let maxAgeMs ← validNumber "maxAgeMs" options.maxAgeMs defaultMaxAgeMs
  let futureSkewMs ← validNumber "futureSkewMs" options.futureSkewMs defaultFutureSkewMs
  return {
    secret, maxBodyBytes, maxAgeMs, futureSkewMs
    signatureHeader := options.signatureHeader.getD "x-webhook-signature"
    timestampHeader := options.timestampHeader.getD "x-webhook-timestamp"
    deliveryIdHeader := options.deliveryIdHeader.getD "x-webhook-id"
    replayProtection := options.replayProtection.getD true
    requireDeliveryId := options.requireDeliveryId.getD false }

structure ParsedWebhook where
  payload : Json
  rawBody : String
  signature : String
  timestamp : Option String
  deliveryId : Option String
deriving DecidableEq

/-- `parseWebhook(body, headers, options)` at the instant `now`. -/
def parseWebhook (options : WebhookParseOptions) (now : ℚ) (body : Octets) (headers : WebhookHeaders) :
    Except JsError ParsedWebhook := do
  let options ← normalizedParseOptions options
  let rawBody ← bodyText body
  if options.maxBodyBytes < body.toBytes.length then
    throw (parseError "Webhook body exceeds the configured size limit")
  let signature := header host headers options.signatureHeader
  let timestamp := if options.replayProtection then header host headers options.timestampHeader else none
  if !verifyWebhookSignature host (.text rawBody) signature options.secret timestamp then throw signatureError
  if options.replayProtection then
    match timestamp with
    | none => throw (replayError "Webhook timestamp is required")
    | some timestamp => assertTimestamp timestamp now options.maxAgeMs options.futureSkewMs
  let deliveryId := header host headers options.deliveryIdHeader
  if options.requireDeliveryId && !deliveryId.any (fun id => !id.isEmpty) then
    throw (replayError "Webhook delivery id is required")
  match parseJson rawBody.toList with
  | none => throw (parseError "Webhook body is not valid JSON")
  | some payload => return { payload, rawBody, signature := signature.getD "", timestamp, deliveryId }

end Premise.Webhook
