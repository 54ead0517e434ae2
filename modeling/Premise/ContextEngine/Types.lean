import Premise.Collections.OrderedMap
import Premise.Js.Basic
import Premise.Js.Document

/-!
# The data of the context engine

Requests, candidates and results, and the checks of single values. What the engine asks of its host is a
parameter: the lower case of its locale, the instant of a text, and the instant of its clock at each
reading.
-/

namespace Premise.ContextEngine

open Js

inductive ContextKind
  | summary
  | detail
deriving DecidableEq

inductive FreshnessStatus
  | fresh
  | stale
  | invalid
  | unknown
deriving DecidableEq

inductive FreshnessInput
  | status (status : FreshnessStatus)
  | obsolete
deriving DecidableEq

/-- A text, a number, or a date by its number. -/
inductive TimeValue
  | text (value : String)
  | number (value : Number)
deriving DecidableEq

structure Host where
  toLocaleLowerCase : String → String
  dateParse : String → Option ℚ
  /-- `Date.now()` at the `i`-th reading. -/
  now : Nat → ℚ

abbrev TokenEstimator := String → Except JsError Number

structure ContextInputChunk where
  id : Option String := none
  text : Option String := none
  content : Option String := none
  tokenCount : Option Number := none
  tokens : Option Number := none
  kind : Option ContextKind := none
  parentId : Option String := none
  dedupeKey : Option String := none

inductive InputChunk
  | text (value : String)
  | chunk (value : ContextInputChunk)

structure ContextCandidate where
  id : String
  text : Option String := none
  content : Option String := none
  summary : Option String := none
  chunks : Option (List InputChunk) := none
  kind : Option ContextKind := none
  parentId : Option String := none
  topic : Option String := none
  groupId : Option String := none
  score : Option Number := none
  relevance : Option Number := none
  priority : Option Number := none
  recency : Option Number := none
  freshness : Option FreshnessInput := none
  status : Option FreshnessInput := none
  observedAt : Option TimeValue := none
  expiresAt : Option TimeValue := none
  tokenCount : Option Number := none
  tokens : Option Number := none
  dedupeKey : Option String := none
  metadata : Option Json := none

structure FreshnessGate where
  allowStale : Option Bool := none
  allowStaleSummaries : Option Bool := none
  allowUnknown : Option Bool := none
  maxAgeMs : Option Number := none
  now : Option TimeValue := none

structure ContextEngineOptions where
  tokenEstimator : Option TokenEstimator := none
  chunkSizeTokens : Option Number := none
  freshnessGate : Option FreshnessGate := none
  diversityWeight : Option Number := none

structure ContextSelectionRequest where
  candidates : Option (List ContextCandidate) := none
  items : Option (List ContextCandidate) := none
  memories : Option (List ContextCandidate) := none
  tokenBudget : Option Number := none
  budget : Option Number := none
  reservedTokens : Option Number := none
  chunkSizeTokens : Option Number := none
  maxChunks : Option Number := none
  maxSources : Option Number := none
  diversityWeight : Option Number := none
  freshnessGate : Option FreshnessGate := none
  now : Option TimeValue := none
  tokenEstimator : Option TokenEstimator := none

inductive SelectionSkipReason
  | empty
  | stale
  | expired
  | unknownFreshness
  | invalidFreshness
  | duplicate
  | budget
  | parentNotSelected
  | parentMissing
  | hierarchyCycle
  | maxChunks
  | maxSources
deriving DecidableEq

inductive DegradationReason
  | tokenBudget
  | freshnessGate
  | deduplication
  | hierarchy
  | limits
deriving DecidableEq

def nonEmptyId (value label : String) : Except JsError String :=
  if nonEmpty value then .ok value else .error (.typeError (label ++ " must not be empty"))

def normalizedKind (value : Option ContextKind) : ContextKind := value.getD .detail

def normalizedFreshness : Option FreshnessInput → FreshnessStatus
  | none => .fresh
  | some .obsolete => .stale
  | some (.status status) => status

def textFrom (text content : Option String) (label : String) : Except JsError (Option String) :=
  if text.isSome ∧ content.isSome ∧ text ≠ content then
    .error (.typeError (label ++ ".text and " ++ label ++ ".content disagree"))
  else .ok (text <|> content)

def normalizedNumber (value : Option Number) (label : String) (fallback : ℚ) : Except JsError ℚ :=
  match value with
  | none => .ok fallback
  | some value =>
    match value.toFinite with
    | none => .error (.typeError (label ++ " must be finite"))
    | some value => .ok (max 0 (min 1 value))

def disagree (left right : Option Number) : Bool :=
  left.any (fun left => right.any (fun right => !left.same right))

def declaredTokenCount (tokenCount tokens : Option Number) (label : String) :
    Except JsError (Option Nat) :=
  if disagree tokenCount tokens then
    .error (.typeError (label ++ ".tokenCount and " ++ label ++ ".tokens disagree"))
  else
    match tokenCount <|> tokens with
    | none => .ok none
    | some count =>
      match count.toNatural with
      | none => .error (.typeError (label ++ ".tokenCount must be a non-negative integer"))
      | some count => .ok (some count)

def tokenCount (text : String) (estimator : TokenEstimator) : Except JsError Nat :=
  if text = "" then .ok 0
  else
    match estimator text with
    | .error err => .error err
    | .ok value =>
      match value.toFinite with
      | none => .error (.typeError "tokenEstimator must return a finite non-negative number")
      | some value =>
        if value < 0 then .error (.typeError "tokenEstimator must return a finite non-negative number")
        else .ok (max 1 ⌈value⌉.toNat)

def defaultTokenEstimator : TokenEstimator := fun text =>
  let length := (trim text).toList.length
  .ok (.finite (if length = 0 then 0 else max 1 ⌈(length : ℚ) / 4⌉))

def timeMillis (host : Host) (value : Option TimeValue) (label : String) :
    Except JsError (Option ℚ) :=
  match value with
  | none => .ok none
  | some value =>
    let result := match value with
      | .text value => host.dateParse value
      | .number value => value.toFinite
    match result with
    | none => .error (.typeError (label ++ " must be a valid date or timestamp"))
    | some result => .ok (some result)

def normalizedDedupeKey (host : Host) (value : String) : String :=
  collapseSpaces (host.toLocaleLowerCase (trim value))

def sourceScore (candidate : ContextCandidate) : Except JsError ℚ :=
  if candidate.score.isSome then
    normalizedNumber candidate.score (candidate.id ++ ".score") (1 / 2)
  else do
    let relevance ← normalizedNumber candidate.relevance (candidate.id ++ ".relevance") (1 / 2)
    let priority ← normalizedNumber candidate.priority (candidate.id ++ ".priority") (1 / 2)
    let recency ← normalizedNumber candidate.recency (candidate.id ++ ".recency") (1 / 2)
    return relevance * (3 / 5) + priority * (3 / 10) + recency * (1 / 10)

end Premise.ContextEngine
