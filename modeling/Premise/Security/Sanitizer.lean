import Premise.Security.Audit

/-!
# `sanitizeSecrets` at every depth

The sanitizer with its option `maxDepth`, the texts of a value, and what the sanitizer writes: texts that it redacts,
and texts that it does not.
-/

namespace Premise.Security

open Collections Js

namespace Payload

mutual

/-- `sanitizeValue(value, secrets, seen, depth, maxDepth)`. -/
def sanitizeTo (maxDepth : Nat) (secrets : List String) (depth : Nat) (v : Payload) : Payload :=
  if depth > maxDepth then .string "[TRUNCATED]"
  else
    match v with
    | .null => .null
    | .string s => .string (redactString s secrets)
    | .number value => .number value
    | .nonFinite => .nonFinite
    | .boolean b => .boolean b
    | .undefined => .string "[UNDEFINED]"
    | .bigint value => .string ("[BIGINT:" ++ toString value ++ "]")
    | .unsupported => .string "[UNSUPPORTED]"
    | .bytes _ => .string "[BINARY_REDACTED]"
    | .date none => .string "[INVALID_DATE]"
    | .date (some iso) => .string iso
    | .circular => .string "[Circular]"
    | .error name message properties =>
      .object true (OrderedMap.ofList ([("name", .string (redactString name secrets)),
        ("message", .string (redactString message secrets))]
          ++ sanitizePropertiesTo maxDepth secrets (depth + 1) properties)).entries
    | .collection => .string "[UNSUPPORTED_COLLECTION]"
    | .array items => .object true (sanitizeItemsTo maxDepth secrets (depth + 1) 0 items)
    | .object _ properties => .object true (sanitizePropertiesTo maxDepth secrets (depth + 1) properties)

def sanitizeItemsTo (maxDepth : Nat) (secrets : List String) (depth : Nat) (index : Nat) :
    List Payload → List (String × Payload)
  | [] => []
  | v :: items => (toString index, sanitizeTo maxDepth secrets depth v)
      :: sanitizeItemsTo maxDepth secrets depth (index + 1) items

def sanitizePropertiesTo (maxDepth : Nat) (secrets : List String) (depth : Nat) :
    List (String × Payload) → List (String × Payload)
  | [] => []
  | (key, v) :: properties =>
    (key, if sensitiveKey key then .string REDACTED else sanitizeTo maxDepth secrets depth v)
      :: sanitizePropertiesTo maxDepth secrets depth properties

end

/-- `sanitizeSecrets(value, options)`. -/
def sanitizeSecretsTo (v : Payload) (options : SecretSanitizerOptions) (maxDepth : Option Int) :
    Except SecurityError Payload :=
  let maxDepth := maxDepth.getD maxSanitizerDepth
  if isSafeInteger maxDepth = true ∧ 0 ≤ maxDepth then .ok (v.sanitizeTo maxDepth.toNat (secretList options) 0)
  else configuration "secret sanitizer maxDepth is invalid"

mutual

/-- The strings of a value: those that are values, and the keys of objects. -/
def texts : Payload → List String
  | .string s => [s]
  | .array items => textsOfItems items
  | .error name message properties => name :: message :: textsOfProperties properties
  | .object _ properties => textsOfProperties properties
  | _ => []

def textsOfItems : List Payload → List String
  | [] => []
  | v :: items => v.texts ++ textsOfItems items

def textsOfProperties : List (String × Payload) → List String
  | [] => []
  | (key, v) :: properties => key :: (v.texts ++ textsOfProperties properties)

end

/-- No string of a value contains a secret that is configured. -/
def FreeOf (v : Payload) (options : SecretSanitizerOptions) : Prop :=
  ∀ text ∈ v.texts, ∀ secret ∈ options.secrets ++ options.secretValues, secret ≠ "" →
    ¬ secret.toList <:+: text.toList

/-- A text that the sanitizer writes. -/
inductive Written
  /-- As it is: a key, a placeholder, or the text of a date. -/
  | asIs (text : String)
  /-- Redacted. -/
  | redacted (text : String)

mutual

def written (maxDepth depth : Nat) (v : Payload) : List Written :=
  if depth > maxDepth then [.asIs "[TRUNCATED]"]
  else
    match v with
    | .null => []
    | .string s => [.redacted s]
    | .number _ => []
    | .nonFinite => []
    | .boolean _ => []
    | .undefined => [.asIs "[UNDEFINED]"]
    | .bigint value => [.asIs ("[BIGINT:" ++ toString value ++ "]")]
    | .unsupported => [.asIs "[UNSUPPORTED]"]
    | .bytes _ => [.asIs "[BINARY_REDACTED]"]
    | .date none => [.asIs "[INVALID_DATE]"]
    | .date (some iso) => [.asIs iso]
    | .circular => [.asIs "[Circular]"]
    | .error name message properties =>
      -- A property in the place of the name or the message takes its place
      (OrderedMap.ofList ([("name", [.redacted name]), ("message", [.redacted message])]
        ++ writtenProperties maxDepth (depth + 1) properties)).entries.flatMap (fun p => .asIs p.1 :: p.2)
    | .collection => [.asIs "[UNSUPPORTED_COLLECTION]"]
    | .array items => (writtenItems maxDepth (depth + 1) 0 items).flatMap (fun p => .asIs p.1 :: p.2)
    | .object _ properties => (writtenProperties maxDepth (depth + 1) properties).flatMap (fun p => .asIs p.1 :: p.2)

def writtenItems (maxDepth depth : Nat) (index : Nat) : List Payload → List (String × List Written)
  | [] => []
  | v :: items => (toString index, written maxDepth depth v) :: writtenItems maxDepth depth (index + 1) items

def writtenProperties (maxDepth depth : Nat) : List (String × Payload) → List (String × List Written)
  | [] => []
  | (key, v) :: properties =>
    (key, if sensitiveKey key then [.asIs REDACTED] else written maxDepth depth v)
      :: writtenProperties maxDepth depth properties

end

end Payload

abbrev Marked := Char × Bool

/-- Replace a text by a marker wherever it occurs, as `replaceAll` does. -/
def replaceMarked (secret marker : List Char) : Nat → List Marked → List Marked
  | _, [] => []
  | skipped + 1, _ :: l => replaceMarked secret marker skipped l
  | 0, c :: l =>
    if secret.isPrefixOf ((c :: l).map Prod.fst) then
      marker.map (fun c => (c, true)) ++ replaceMarked secret marker (secret.length - 1) l
    else c :: replaceMarked secret marker 0 l

def redactMarked (text : String) (secrets : List String) : List Marked :=
  secrets.foldl (fun current secret => replaceMarked secret.toList REDACTED.toList 0 current)
    (text.toList.map (fun c => (c, false)))

/-- The secret occurs where a marker has been written: some of its characters are the marker's. -/
def AcrossMarker (secret : List Char) (text : List Marked) : Prop :=
  ∃ occurrence, occurrence <:+: text ∧ occurrence.map Prod.fst = secret ∧ ∃ c ∈ occurrence, c.2 = true

namespace Payload

def KeepsNoSecret (v : Payload) (options : SecretSanitizerOptions) (maxDepth : Nat) : Prop :=
  ∀ secret ∈ options.secrets ++ options.secretValues, secret ≠ "" →
    ∀ text, .asIs text ∈ v.written maxDepth 0 → ¬ secret.toList <:+: text.toList

def JoinsNoSecret (v : Payload) (options : SecretSanitizerOptions) (maxDepth : Nat) : Prop :=
  ∀ secret ∈ options.secrets ++ options.secretValues, secret ≠ "" →
    ∀ text, .redacted text ∈ v.written maxDepth 0 → ¬ AcrossMarker secret.toList (redactMarked text (secretList options))

end Payload

end Premise.Security
