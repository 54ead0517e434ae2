import Premise.Js.Basic
import Premise.Js.JsonText

/-!
# Checkpoint documents

`checkpoint.ts` on the documents that it is given: a checkpoint is made of its content and the digest of it, is
checked when it is read, and a recovery follows the cursors of a tail. The SHA-256 digest of a text and
`Date.parse` are parameters.
-/

namespace Premise.RuntimeCore

/-- `/^sha256:[0-9a-f]{64}$/u.test(digest)`. -/
def RuntimeOperationalCheckpoint.isSha256 (digest : String) : Bool :=
  "sha256:".toList.isPrefixOf digest.toList && decide ((digest.toList.drop 7).length = 64)
    && (digest.toList.drop 7).all (fun c => decide (('0' ≤ c ∧ c ≤ '9') ∨ ('a' ≤ c ∧ c ≤ 'f')))

inductive RuntimeCheckpointProblem
  | checkpoint
  | tailGap
  | tailReordered
  | tailCursor
deriving DecidableEq

end Premise.RuntimeCore

namespace Premise.RuntimeCore.Checkpoint

open Js

/-- A value of the type `RuntimeOperationalCheckpointInput`: the properties of an object, none of them a digest. -/
structure RuntimeOperationalCheckpointInput where
  properties : List (String × Json)
  wellFormed : (Json.object properties).WellFormed
  noDigest : "digest" ∉ properties.map Prod.fst

def RuntimeOperationalCheckpointInput.document (input : RuntimeOperationalCheckpointInput) : Json :=
  .object input.properties

/-- `typeof value === "object" && value !== null`. -/
def isObject : Json → Bool
  | .object _ => true
  | .array _ => true
  | _ => false

/-- `Number.isSafeInteger(value) && value >= 0`. -/
def isCounter (value : ℚ) : Bool := decide (value.den = 1 ∧ isSafeInteger value.num = true ∧ 0 ≤ value.num)

def numberField (key : String) (value : Json) : Option ℚ :=
  match value.field key with
  | some (.number q) => some q
  | _ => none

def assertTimestamp (dateParse : String → Option Int) : Option Json → Except JsError Unit
  | some (.string value) =>
    if (dateParse value).isSome then .ok ()
    else .error (.typeError "checkpoint.capturedAt must be an ISO timestamp")
  | _ => .error (.typeError "checkpoint.capturedAt must be an ISO timestamp")

def assertArray : Option Json → Except JsError Unit
  | some (.array _) => .ok ()
  | _ => .error (.typeError "checkpoint.activeRecords must be an array")

def assertCounter (value : Option ℚ) (name : String) : Except JsError Unit :=
  if value.any isCounter then .ok () else .error (.rangeError (name ++ " must be a non-negative safe integer"))

/-- A document is serializable; a field that is absent is not. -/
def assertJson (value : Option Json) (name : String) : Except JsError Unit :=
  if value.isSome then .ok () else .error (.typeError (name ++ " must be JSON serializable"))

def checkedInput (dateParse : String → Option Int) (value : Json) : Except JsError Json := do
  if isObject value = false then throw (.typeError "checkpoint must be an object")
  if value.field "format" ≠ some (.string "premise-runtime-checkpoint") ∨ value.field "version" ≠ some (.number 1) then
    throw (.error "unsupported PREMiSE runtime checkpoint")
  assertTimestamp dateParse (value.field "capturedAt")
  assertArray (value.field "activeRecords")
  assertCounter (numberField "eventCursor" value) "checkpoint.eventCursor"
  assertCounter (numberField "receiptEpoch" value) "checkpoint.receiptEpoch"
  assertJson (value.field "activeRecords") "checkpoint.activeRecords"
  assertJson (value.field "frontierState") "checkpoint.frontierState"
  assertJson (value.field "incarnations") "checkpoint.incarnations"
  assertJson (value.field "idempotencyState") "checkpoint.idempotencyState"
  assertJson (value.field "sourceVersions") "checkpoint.sourceVersions"
  assertJson (value.field "dependencyState") "checkpoint.dependencyState"
  return value

def digestInput (sha256 : String → String) (input : Json) : String :=
  "sha256:" ++ sha256 (String.ofList input.sorted.stringify)

/-- `{ ...value, digest }`. -/
def withDigest (value : Json) (digest : String) : Json :=
  match value with
  | .object properties => .object (setField properties "digest" (.string digest))
  | _ => .object [("digest", .string digest)]

/-- `const { digest, ...input } = value`. -/
def withoutDigest (value : Json) : Json :=
  match value with
  | .object properties => .object (properties.filter (fun p => p.1 ≠ "digest"))
  | value => value

def createRuntimeCheckpoint (sha256 : String → String) (dateParse : String → Option Int)
    (input : RuntimeOperationalCheckpointInput) : Except JsError Json := do
  let checked ← checkedInput dateParse input.document
  return withDigest checked (digestInput sha256 checked)

def parseRuntimeCheckpoint (sha256 : String → String) (dateParse : String → Option Int) (value : Json) :
    Except JsError Json := do
  if isObject value = false then throw (.typeError "checkpoint must be an object")
  match value.field "digest" with
  | some (.string digest) =>
    if RuntimeOperationalCheckpoint.isSha256 digest = false then
      throw (.typeError "checkpoint.digest must be a sha256 digest")
    let checked ← checkedInput dateParse (withoutDigest value)
    if digestInput sha256 checked ≠ digest then throw (.error "checkpoint digest mismatch")
    return withDigest checked digest
  | _ => throw (.typeError "checkpoint.digest must be a sha256 digest")

inductive RuntimeCheckpointRecovery
  | ready (checkpoint : Json) (finalCursor : ℚ)
  | invalid (reason : RuntimeCheckpointProblem)
deriving DecidableEq

/-- The final cursor of a tail from the cursor that is expected first, or what stands against the tail. -/
def followTail : ℚ → List Json → Except RuntimeCheckpointProblem ℚ
  | expected, [] => .ok (expected - 1)
  | expected, entry :: rest =>
    match numberField "cursor" entry with
    | none => .error .tailCursor
    | some cursor =>
      if isCounter cursor = false then .error .tailCursor
      else if cursor < expected then .error .tailReordered
      else if expected < cursor then .error .tailGap
      else followTail (expected + 1) rest

def eventCursor (checkpoint : Json) : ℚ := (numberField "eventCursor" checkpoint).getD 0

def verifyRuntimeCheckpointRecovery (sha256 : String → String) (dateParse : String → Option Int) (checkpoint : Json)
    (tail : List Json) : RuntimeCheckpointRecovery :=
  match parseRuntimeCheckpoint sha256 dateParse checkpoint with
  | .error _ => .invalid .checkpoint
  | .ok checked =>
    match followTail (eventCursor checked + 1) tail with
    | .error reason => .invalid reason
    | .ok finalCursor => .ready checked finalCursor

def Ready (sha256 : String → String) (dateParse : String → Option Int) (checkpoint : Json) (tail : List Json) : Prop :=
  ∃ checked finalCursor,
    verifyRuntimeCheckpointRecovery sha256 dateParse checkpoint tail = .ready checked finalCursor

/-- The cursors of the tail are `eventCursor + 1`, `eventCursor + 2` and so on. -/
def Contiguous (eventCursor : ℚ) (tail : List Json) : Prop :=
  tail.map (numberField "cursor") = (List.range tail.length).map (fun (i : ℕ) => some (eventCursor + 1 + i))

instance (cursor : ℚ) (tail : List Json) : Decidable (Contiguous cursor tail) :=
  inferInstanceAs (Decidable (tail.map (numberField "cursor")
    = (List.range tail.length).map (fun (i : ℕ) => some (cursor + 1 + i))))

def SafeCursors (tail : List Json) : Prop :=
  ∀ entry ∈ tail, ∀ cursor ∈ numberField "cursor" entry, cursor ≤ maxSafeInteger

/-- The content of the document passes the checks of a checkpoint. -/
def IsCheckpoint (dateParse : String → Option Int) (value : Json) : Prop :=
  checkedInput dateParse (withoutDigest value) = .ok (withoutDigest value)

/-- The digest of a checkpoint is the digest of its content. -/
def DigestMatches (sha256 : String → String) (value : Json) : Prop :=
  value.field "digest" = some (.string (digestInput sha256 (withoutDigest value)))

/-- A checkpoint that was made can be read back from its text, and a recovery follows a contiguous tail. -/
structure Recovers (sha256 : String → String) (dateParse : String → Option Int) : Prop where
  round_trip : ∀ input checkpoint, createRuntimeCheckpoint sha256 dateParse input = .ok checkpoint →
    ∃ value, parseJson checkpoint.stringify = some value ∧
      parseRuntimeCheckpoint sha256 dateParse value = .ok checkpoint
  made : ∀ input checkpoint, createRuntimeCheckpoint sha256 dateParse input = .ok checkpoint →
    IsCheckpoint dateParse checkpoint ∧ DigestMatches sha256 checkpoint
  ready : ∀ value tail, Ready sha256 dateParse value tail ↔
    IsCheckpoint dateParse value ∧ DigestMatches sha256 value ∧ Contiguous (eventCursor value) tail ∧ SafeCursors tail

end Premise.RuntimeCore.Checkpoint
