import Premise.Collections.OrderedMap
import Premise.Control.System
import Premise.Security.Canonical

/-!
# `sanitizeSecrets`

Fields with sensitive names and the texts of known secrets are redacted; what has no JSON form is
replaced by a text. Arrays come out as objects, with their indices as keys.
-/

namespace Premise.Security

open Collections Js

def REDACTED : String := "[REDACTED]"

def sensitiveKeyFragments : List String :=
  ["secret", "token", "password", "passwd", "authorization", "cookie", "apikey", "privatekey",
    "credential", "signature"]

/-- What `key.toLowerCase().replace(/[^a-z0-9]/g, "")` leaves of a character. Two characters outside
    ASCII have an ASCII letter in lower case: the Kelvin sign, and the capital I with a dot. -/
def normalizedChar (c : Char) : Option Char :=
  if c.toNat = 0x212A then some 'k'
  else if c.toNat = 0x130 then some 'i'
  else if c.isUpper then some c.toLower
  else if c.isLower || c.isDigit then some c
  else none

def sensitiveKey (key : String) : Bool :=
  let normalized := key.toList.filterMap normalizedChar
  sensitiveKeyFragments.any (fun fragment => normalized.tails.any fragment.toList.isPrefixOf)

/-- The secrets of the options, `secrets` and `secretValues`. -/
structure SecretSanitizerOptions where
  secrets : List String := []
  secretValues : List String := []

/-- `secretList(options)`: the longest secrets first. -/
def secretList (options : SecretSanitizerOptions) : List String :=
  let values := (options.secrets ++ options.secretValues).filter (fun value => value ≠ "")
  (unique values).insertionSort (fun l r => (codeUnits r).length ≤ (codeUnits l).length)

/-- Replace a text wherever it occurs; `skipped` characters are still to go. -/
def replaceAll (secret replacement : List Char) : Nat → List Char → List Char
  | _, [] => []
  | skipped + 1, _ :: l => replaceAll secret replacement skipped l
  | 0, c :: l =>
    if secret.isPrefixOf (c :: l) then replacement ++ replaceAll secret replacement (secret.length - 1) l
    else c :: replaceAll secret replacement 0 l

def redactString (value : String) (secrets : List String) : String :=
  secrets.foldl (fun current secret =>
    String.ofList (replaceAll secret.toList REDACTED.toList 0 current.toList)) value

/-- The default of `maxDepth`, which the audit log does not change. -/
def maxSanitizerDepth : Nat := 8

namespace Payload

mutual

def sanitizeValue (secrets : List String) (depth : Nat) (v : Payload) : Payload :=
  if depth > maxSanitizerDepth then .string "[TRUNCATED]"
  else
    match v with
    | .null => .null
    | .string s => .string (redactString s secrets)
    | .number value => .number value
    | .nonFinite => .nonFinite
    | .boolean b => .boolean b
    | .undefined => .string "[UNDEFINED]"
    | .bigint value => .string ("[BIGINT:" ++ toString value ++ "]")
    | .unsupported => .string "[UNSUPPORTED]"
    | .bytes _ => .string "[BINARY_REDACTED]"
    | .date none => .string "[INVALID_DATE]"
    | .date (some iso) => .string iso
    | .circular => .string "[Circular]"
    | .error name message properties =>
      .object true (OrderedMap.ofList ([("name", .string (redactString name secrets)),
        ("message", .string (redactString message secrets))]
          ++ sanitizeProperties secrets (depth + 1) properties)).entries
    | .collection => .string "[UNSUPPORTED_COLLECTION]"
    | .array items => .object true (sanitizeItems secrets (depth + 1) 0 items)
    | .object _ properties => .object true (sanitizeProperties secrets (depth + 1) properties)

def sanitizeItems (secrets : List String) (depth : Nat) (index : Nat) :
    List Payload → List (String × Payload)
  | [] => []
  | v :: items => (toString index, sanitizeValue secrets depth v)
      :: sanitizeItems secrets depth (index + 1) items

def sanitizeProperties (secrets : List String) (depth : Nat) :
    List (String × Payload) → List (String × Payload)
  | [] => []
  | (key, v) :: properties =>
    (key, if sensitiveKey key then .string REDACTED else sanitizeValue secrets depth v)
      :: sanitizeProperties secrets depth properties

end

def sanitizeSecrets (v : Payload) (options : SecretSanitizerOptions) : Payload :=
  v.sanitizeValue (secretList options) 0

end Payload

example : (Payload.object true [("Api-Key", .null), ("note", .string "id=abcd, abcd."), ("list", .array [.bytes []])]
    |>.sanitizeSecrets { secrets := ["abc", "abcd"] }).canonicalize =
    .ok "\x7b\"Api-Key\":\"[REDACTED]\",\"list\":\x7b\"0\":\"[BINARY_REDACTED]\"\x7d,\"note\":\"id=[REDACTED], [REDACTED].\"\x7d" := by
  decide +kernel

/-!
# `verifyAuditChain` and `AuditLog`

Every entry of an audit log carries the hash of the one before it and its own, which is taken of the
canonical text of its other properties. SHA-256 is a parameter, of which only the form of its hexadecimal
digests is known.
-/

def AUDIT_LOG_FORMAT : String := "premise-security-audit/1"

def AUDIT_LOG_VERSION : Nat := 1

def AUDIT_GENESIS_HASH : String := "sha256:genesis"

def AUDIT_OUTCOMES : List String := ["allow", "deny", "allowed", "denied", "success", "failure"]

/-- `/^[0-9a-f]{64}$/` -/
def isHexDigest (l : List Char) : Bool :=
  l.length = 64 && l.all (fun c => c.isDigit || ('a' ≤ c && c ≤ 'f'))

/-- `AUDIT_HASH_PATTERN.test(value)`. -/
def isAuditHash (value : String) : Bool :=
  value.toList.take 7 = "sha256:".toList && isHexDigest (value.toList.drop 7)

/-- A hash function with hexadecimal digests of the length of SHA-256. -/
structure Sha256 where
  hex : String → String
  isHex : ∀ text, isHexDigest (hex text).toList = true

def Sha256.digest (sha : Sha256) (text : String) : String := "sha256:" ++ sha.hex text

namespace Payload

/-- The own enumerable properties of a value that is an object but no array. -/
def ownProperties : Payload → Option (List (String × Payload))
  | .object _ properties => some properties
  | .error _ _ properties => some properties
  | .bytes content => some (content.mapIdx (fun i b => (toString i, .number ⟨b.toNat, isDecimal_intCast b.toNat⟩)))
  | .date _ => some []
  | .collection => some []
  | .circular => some []
  | _ => none

/-- `value[key]`, for an own property. -/
def get (v : Payload) (key : String) : Option Payload :=
  (v.ownProperties.getD []).find? (fun p => p.1 = key) |>.map Prod.snd

/-- `value[key]`, when it is a text. -/
def text (v : Payload) (key : String) : Option String :=
  match v.get key with
  | some (.string s) => some s
  | _ => none

/-- `value[key]`, when it is a number. -/
def numeral (v : Payload) (key : String) : Option ℚ :=
  match v.get key with
  | some (.number value) => some value.val
  | _ => none

/-- `const { hash: _hash, ...withoutHash } = entry`. -/
def withoutHash (v : Payload) : Payload :=
  .object true ((v.ownProperties.getD []).filter (fun p => p.1 ≠ "hash"))

end Payload

def expectedKeys (hasSubject : Bool) : List String :=
  ["format", "version", "sequence", "eventId", "occurredAt", "tenantId"]
    ++ (if hasSubject then ["subjectId"] else [])
    ++ ["action", "outcome", "data", "previousHash", "hash"]

def auditHash (sha : Sha256) (unsigned : Payload) : Except SecurityError String :=
  unsigned.canonicalize.map sha.digest

def auditEntryShape (entry : Payload) (sequence : Nat) (previousHash : String) : Bool :=
  match entry.ownProperties with
  | none => false
  | some properties =>
    let actualKeys := properties.map Prod.fst
    let hasSubject := decide ("subjectId" ∈ actualKeys)
    if actualKeys.length ≠ (expectedKeys hasSubject).length
        || actualKeys.any (fun key => key ∉ expectedKeys hasSubject) then false
    else if entry.text "format" ≠ some AUDIT_LOG_FORMAT
        || entry.numeral "version" ≠ some (AUDIT_LOG_VERSION : ℚ)
        || entry.numeral "sequence" ≠ some (sequence : ℚ)
        || (entry.text "eventId").isNone
        || (entry.text "occurredAt").isNone
        || (entry.text "tenantId").isNone
        || (hasSubject && (entry.text "subjectId").isNone)
        || (entry.text "action").isNone
        || (entry.text "outcome").all (fun outcome => outcome ∉ AUDIT_OUTCOMES)
        || (entry.get "data").isNone
        || entry.text "previousHash" ≠ some previousHash
        || (previousHash ≠ AUDIT_GENESIS_HASH && !isAuditHash previousHash)
        || (entry.text "hash").all (fun hash => !isAuditHash hash) then false
    else
      (entry.text "eventId").any (fun eventId => (identifier eventId "eventId").isOk)
        && (entry.text "occurredAt").any (fun occurredAt => (printable occurredAt "occurredAt" 128).isOk)
        && (entry.text "tenantId").any (fun tenantId => (identifier tenantId "tenantId").isOk)
        && (entry.text "subjectId").all (fun subjectId => (identifier subjectId "subjectId").isOk)
        && (entry.text "action").any (fun action => (identifier action "action").isOk)

/-- What the loop of `verifyAuditChain` keeps: the entries so far, the hash of the last one, and the
    event ids and hashes that have occurred. -/
structure ChainState where
  index : Nat := 0
  previousHash : String := AUDIT_GENESIS_HASH
  eventIds : List String := []
  hashes : List String := []

/-- One round of the loop of `verifyAuditChain`; `none` is its `return false`. -/
def checkEntry (sha : Sha256) (s : ChainState) (entry : Payload) : Option ChainState :=
  if !auditEntryShape entry (s.index + 1) s.previousHash then none
  else
    match entry.text "eventId", entry.text "hash" with
    | some eventId, some hash =>
      if eventId ∈ s.eventIds || hash ∈ s.hashes then none
      else if auditHash sha entry.withoutHash ≠ .ok hash then none
      else some
        { index := s.index + 1
          previousHash := hash
          eventIds := s.eventIds ++ [eventId]
          hashes := s.hashes ++ [hash] }
    | _, _ => none

def verifyAuditChain (sha : Sha256) (entries : List Payload) : Bool :=
  (entries.foldlM (checkEntry sha) {}).isSome

/-- An event as it is given to `append`. What is not given is `undefined`. -/
structure AuditEventInput where
  tenantId : String
  subjectId : Option String := none
  action : String
  outcome : String
  eventId : Option String := none
  occurredAt : Option String := none
  data : Value := ⟨.undefined, trivial⟩
  details : Value := ⟨.undefined, trivial⟩

/-- `input.data !== undefined ? input.data : input.details !== undefined ? input.details : null`. -/
def AuditEventInput.sourceData (input : AuditEventInput) : Payload :=
  match input.data.val with
  | .undefined =>
    match input.details.val with
    | .undefined => .null
    | details => details
  | data => data

structure AuditLog where
  sanitizerOptions : SecretSanitizerOptions := {}
  records : List Payload := []

namespace AuditLog

def count (n : Nat) : Payload := .number ⟨n, isDecimal_intCast n⟩

/-- The entry that `append` makes, without its hash. -/
def unsignedEntry (log : AuditLog) (input : AuditEventInput) (eventId occurredAt : String) : List (String × Payload) :=
  [("format", .string AUDIT_LOG_FORMAT), ("version", count AUDIT_LOG_VERSION),
    ("sequence", count (log.records.length + 1)), ("eventId", .string eventId),
    ("occurredAt", .string occurredAt), ("tenantId", .string input.tenantId)]
    ++ input.subjectId.toList.map (fun subjectId => ("subjectId", .string subjectId))
    ++ [("action", .string input.action), ("outcome", .string input.outcome),
      ("data", input.sourceData.sanitizeSecrets log.sanitizerOptions),
      ("previousHash", .string ((log.records.getLast?.bind (fun entry => entry.text "hash")).getD
        AUDIT_GENESIS_HASH))]

/-- `append(input)`, with what the generator of event ids and the clock give. -/
def append (log : AuditLog) (sha : Sha256) (generated now : String) (input : AuditEventInput) :
    Except SecurityError (AuditLog × Payload) := do
  if !verifyAuditChain sha log.records then
    .error (.security .auditIntegrityError "Audit log integrity check failed")
  let _ ← identifier input.tenantId "tenantId"
  let _ ← input.subjectId.mapM (fun subjectId => identifier subjectId "subjectId")
  let _ ← identifier input.action "action"
  if input.outcome ∉ AUDIT_OUTCOMES then invalid "audit outcome is invalid"
  let eventId ← identifier (input.eventId.getD generated) "eventId"
  if log.records.any (fun entry => entry.text "eventId" = some eventId) then
    invalid "audit eventId must be unique"
  let occurredAt ← printable (input.occurredAt.getD now) "occurredAt" 128
  let unsigned := log.unsignedEntry input eventId occurredAt
  let hash ← auditHash sha (.object true unsigned)
  let entry := Payload.object true (unsigned ++ [("hash", .string hash)])
  return ({ log with records := log.records ++ [entry] }, entry)

end AuditLog

/-!
# What the audit chain promises

An accepted chain is determined by the hash of its last entry, up to what canonical texts do not tell
apart; and every log that is written is accepted.
-/

open Control

def serializations (entries : List Payload) : Set String :=
  {text | ∃ entry ∈ entries, entry.withoutHash.canonicalize = .ok text}

/-- The entries have the same properties, and data with the same canonical document. -/
structure SameEntry (entry entry' : Payload) : Prop where
  properties : ∀ key, key ≠ "data" → entry.get key = entry'.get key
  data : (entry.get "data").map Payload.document = (entry'.get "data").map Payload.document

def SameLastHash (entries entries' : List Payload) : Prop :=
  ∃ entry ∈ entries.getLast?, ∃ entry' ∈ entries'.getLast?, entry.get "hash" = entry'.get "hash"

/-- A call of `append`, with what the generator of event ids and the clock give. -/
structure AppendCall where
  generated : String
  now : String
  input : AuditEventInput

namespace AuditLog

/-- The logs of one sanitizer. A call that throws leaves the log. -/
def system (sha : Sha256) (sanitizerOptions : SecretSanitizerOptions) : System AuditLog AppendCall where
  init := fun log => log = { sanitizerOptions := sanitizerOptions }
  step := fun log call log' =>
    match log.append sha call.generated call.now call.input with
    | .ok (appended, _) => log' = appended
    | .error _ => log' = log

end AuditLog

/-- What an auditor is promised, where the digests of the texts at hand differ. -/
structure TamperEvident (sha : Sha256) : Prop where
  /-- The hash of the last entry determines the chain. -/
  binds : ∀ entries entries' : List Value,
    Set.InjOn sha.hex (serializations ((entries ++ entries').map Subtype.val)) →
    verifyAuditChain sha (entries.map Subtype.val) = true →
    verifyAuditChain sha (entries'.map Subtype.val) = true →
    SameLastHash (entries.map Subtype.val) (entries'.map Subtype.val) →
    List.Forall₂ SameEntry (entries.map Subtype.val) (entries'.map Subtype.val)
  /-- Every log is accepted. -/
  accepted : ∀ sanitizerOptions log, (AuditLog.system sha sanitizerOptions).Reachable log →
    Set.InjOn sha.hex (serializations log.records) → verifyAuditChain sha log.records = true

end Premise.Security
