import Premise.Js.Basic
import Premise.Js.JsonRead

/-!
# Checks of security inputs

The errors of the security package, and its checks of identifiers.
-/

namespace Premise.Security

open Collections Js

/-- The codes of the errors that the modelled functions throw. -/
inductive SecurityErrorCode
  | invalidInput
  | configurationError
  | auditIntegrityError
  | signingFailed
  | decryptionFailed
  | keyIdReuse
deriving DecidableEq, Repr

/-- What a call throws: a `SecurityError`, or an error of another class. -/
inductive SecurityError
  | security (code : SecurityErrorCode) (message : String)
  | other (message : String)
deriving DecidableEq, Repr

def invalid {α : Type} (message : String) : Except SecurityError α :=
  .error (.security .invalidInput message)

def configuration {α : Type} (message : String) : Except SecurityError α :=
  .error (.security .configurationError message)

/-- `/^[\x21-\x7e]+$/.test(value)`. -/
def isPrintable (value : String) : Bool :=
  value.toList ≠ [] && value.toList.all (fun c => 0x21 ≤ c.toNat && c.toNat ≤ 0x7e)

def printable (value label : String) (maxLength : Nat) : Except SecurityError String :=
  if (codeUnits value).length = 0 || (codeUnits value).length > maxLength || !isTrimmed value
      || !isPrintable value then
    invalid (label ++ " must be a printable non-empty value")
  else .ok value

def identifier (value label : String) : Except SecurityError String := do
  let result ← printable value label 256
  if result = "*" then invalid (label ++ " cannot be a wildcard")
  return result

theorem printable_eq_ok {value label result : String} {maxLength : Nat}
    (h : printable value label maxLength = .ok result) : result = value := by
  unfold printable at h
  split_ifs at h
  · cases h
  · exact (Except.ok.inj h).symm

theorem identifier_eq_ok {value label result : String} (h : identifier value label = .ok result) : result = value := by
  unfold identifier at h
  cases hprintable : printable value label 256 with
  | error err =>
    rw [hprintable] at h
    cases h
  | ok checked =>
    rw [hprintable] at h
    obtain rfl := printable_eq_ok hprintable
    dsimp only [bind, Except.bind] at h
    split_ifs at h
    · cases h
    · exact (Except.ok.inj h).symm

/-!
# Canonical texts

The values that signatures, encrypted payloads and audit hashes are taken of, and `canonicalize`. A
value is a finite tree: where an object contains itself, a leaf stands for the place where it is met
again. The canonical document of a value is the JSON document whose text the canonical text is.
-/

/-- A value of the language, as far as the package tells values apart. -/
inductive Payload
  | null
  | undefined
  | boolean (b : Bool)
  /-- A finite number, by the decimal of its text. -/
  | number (value : {q : ℚ // IsDecimal q})
  /-- `NaN` or an infinity. -/
  | nonFinite
  | string (s : String)
  | bigint (value : Int)
  /-- A symbol or a function. -/
  | unsupported
  /-- A `Uint8Array`. -/
  | bytes (content : List UInt8)
  /-- A `Date` by its ISO text, or an invalid one. -/
  | date (iso : Option String)
  /-- A `Map` or a `Set`. -/
  | collection
  /-- An object that encloses this place. -/
  | circular
  | array (items : List Payload)
  /-- An `Error` by its name, its message and its enumerable properties. -/
  | error (name message : String) (properties : List (String × Payload))
  /-- Any other object, by its own properties; `plain` when its prototype is the one of object literals. -/
  | object (plain : Bool) (properties : List (String × Payload))

namespace Payload

mutual

def WellFormed : Payload → Prop
  | .array items => WellFormedItems items
  | .error _ _ properties => (properties.map Prod.fst).Nodup ∧ WellFormedProperties properties
  | .object _ properties => (properties.map Prod.fst).Nodup ∧ WellFormedProperties properties
  | _ => True

def WellFormedItems : List Payload → Prop
  | [] => True
  | v :: items => v.WellFormed ∧ WellFormedItems items

def WellFormedProperties : List (String × Payload) → Prop
  | [] => True
  | (_, v) :: properties => v.WellFormed ∧ WellFormedProperties properties

end

end Payload

abbrev Value := {v : Payload // v.WellFormed}

def base64Char (n : Nat) : Char :=
  if n < 26 then Char.ofNat ('A'.toNat + n)
  else if n < 52 then Char.ofNat ('a'.toNat + (n - 26))
  else if n < 62 then Char.ofNat ('0'.toNat + (n - 52))
  else if n = 62 then '+'
  else '/'

/-- `Buffer.from(value).toString("base64")`. -/
def base64Encode : List UInt8 → List Char
  | [] => []
  | [a] => [base64Char (a.toNat / 4), base64Char (a.toNat % 4 * 16), '=', '=']
  | [a, b] => [base64Char (a.toNat / 4), base64Char (a.toNat % 4 * 16 + b.toNat / 16),
      base64Char (b.toNat % 16 * 4), '=']
  | a :: b :: c :: rest => base64Char (a.toNat / 4) :: base64Char (a.toNat % 4 * 16 + b.toNat / 16)
      :: base64Char (b.toNat % 16 * 4 + c.toNat / 64) :: base64Char (c.toNat % 64) :: base64Encode rest

/-- `texts.join(",")`. -/
def joinTexts : List (List Char) → List Char
  | [] => []
  | [text] => text
  | text :: rest => text ++ ',' :: joinTexts rest

/-- What is made of every property, in the order of the keys; the first failure in that order ends it. -/
def inKeyOrder {α β : Type} (make : String → α → β)
    (properties : List (String × Except SecurityError α)) : Except SecurityError (List β) :=
  (JsValue.sortByKey properties).mapM (fun p => p.2.map (make p.1))

namespace Payload

mutual

def canonicalFragment : Payload → Except SecurityError (List Char)
  | .null => .ok "null".toList
  | .string s => .ok (jsonString s)
  | .boolean b => .ok (Json.boolean b).stringify
  | .number value => .ok (numberText value.val)
  | .nonFinite => invalid "canonical payload contains a non-finite number"
  | .undefined => invalid "canonical payload cannot contain undefined"
  | .bigint _ => invalid "canonical payload contains an unsupported value"
  | .unsupported => invalid "canonical payload contains an unsupported value"
  | .bytes content =>
    .ok ("\x7b\"$bytes\":".toList ++ (jsonString (String.ofList (base64Encode content)) ++ ['}']))
  | .date none => invalid "canonical payload contains an invalid date"
  | .date (some iso) => .ok (jsonString iso)
  | .circular => invalid "canonical payload cannot contain cycles"
  | .array items => do
    let texts ← canonicalItems items
    return '[' :: (joinTexts texts ++ [']'])
  | .error _ _ _ => invalid "canonical payload must contain plain objects"
  | .collection => invalid "canonical payload must contain plain objects"
  | .object false _ => invalid "canonical payload must contain plain objects"
  | .object true properties => do
    let texts ← inKeyOrder (fun key text => jsonString key ++ ':' :: text) (canonicalProperties properties)
    return '{' :: (joinTexts texts ++ ['}'])

def canonicalItems : List Payload → Except SecurityError (List (List Char))
  | [] => .ok []
  | v :: items => do
    let text ← canonicalFragment v
    let texts ← canonicalItems items
    return text :: texts

def canonicalProperties : List (String × Payload) → List (String × Except SecurityError (List Char))
  | [] => []
  | (key, v) :: properties => (key, canonicalFragment v) :: canonicalProperties properties

end

def canonicalize (v : Payload) : Except SecurityError String := v.canonicalFragment.map String.ofList

mutual

/-- The document that the canonical text of a value denotes: a date is its ISO text, and bytes are an
    object with their base64 text. -/
def document : Payload → Except SecurityError Json
  | .null => .ok .null
  | .string s => .ok (.string s)
  | .boolean b => .ok (.boolean b)
  | .number value => .ok (.number value.val)
  | .nonFinite => invalid "canonical payload contains a non-finite number"
  | .undefined => invalid "canonical payload cannot contain undefined"
  | .bigint _ => invalid "canonical payload contains an unsupported value"
  | .unsupported => invalid "canonical payload contains an unsupported value"
  | .bytes content => .ok (.object [("$bytes", .string (String.ofList (base64Encode content)))])
  | .date none => invalid "canonical payload contains an invalid date"
  | .date (some iso) => .ok (.string iso)
  | .circular => invalid "canonical payload cannot contain cycles"
  | .array items => (documents items).map .array
  | .error _ _ _ => invalid "canonical payload must contain plain objects"
  | .collection => invalid "canonical payload must contain plain objects"
  | .object false _ => invalid "canonical payload must contain plain objects"
  | .object true properties => (inKeyOrder Prod.mk (fieldDocuments properties)).map .object

def documents : List Payload → Except SecurityError (List Json)
  | [] => .ok []
  | v :: items => do
    let doc ← document v
    let docs ← documents items
    return doc :: docs

def fieldDocuments : List (String × Payload) → List (String × Except SecurityError Json)
  | [] => []
  | (key, v) :: properties => (key, document v) :: fieldDocuments properties

end

end Payload

end Premise.Security
