import Premise.Js.Basic
import Premise.Js.KeyOrder

/-!
# Predicate dependencies

`predicateSemanticFingerprint`, `evaluatePredicate` and `classifyPredicateChange`. Values are JSON documents, and
`undefined` is `none`. The hash is a parameter.
-/

namespace Premise.Next.Predicates

open Collections Js

def predicateDependencySpecVersion : String := "premise-predicate/1"

inductive PredicateOperator
  | eq
  | neq
  | gt
  | gte
  | lt
  | lte
  | in_
  | exists_
deriving DecidableEq

namespace PredicateOperator

def text : PredicateOperator → String
  | .eq => "eq"
  | .neq => "neq"
  | .gt => "gt"
  | .gte => "gte"
  | .lt => "lt"
  | .lte => "lte"
  | .in_ => "in"
  | .exists_ => "exists"

/-- `["gt", "gte", "lt", "lte"].includes(operator)`. -/
def isOrdered (operator : PredicateOperator) : Bool := operator ∈ [.gt, .gte, .lt, .lte]

/-- What an ordering operator says about two values of one order. -/
def compare {κ : Type} [LinearOrder κ] (operator : PredicateOperator) (value expected : κ) : Bool :=
  if operator = .gt then decide (expected < value)
  else if operator = .gte then decide (expected ≤ value)
  else if operator = .lt then decide (value < expected)
  else decide (value ≤ expected)

end PredicateOperator

inductive PredicateEvaluation
  | answer (holds : Bool)
  | unknown
deriving DecidableEq

inductive PredicateChange
  | preserved
  | invalidated
  | unknown
deriving DecidableEq

structure Predicate where
  operator : PredicateOperator
  value : Option Json

def Predicate.json (predicate : Predicate) : Json :=
  .object (("operator", .string predicate.operator.text) :: Json.optional "value" predicate.value)

structure PredicateDependency where
  specVersion : String
  tenantId : String
  resourceId : String
  incarnationId : String
  aspect : String
  predicate : Predicate
  semanticFingerprint : String

def required (value name : String) : Except JsError String :=
  if nonEmpty value then pure value else throw (.typeError (name ++ " must be a non-empty string"))

mutual

/-- `canonical(value)`; it throws on no document. -/
def canonical : Json → List Char
  | .null => (Json.null).stringify
  | .boolean b => (Json.boolean b).stringify
  | .string s => (Json.string s).stringify
  | .number value => (Json.number value).stringify
  | .array items => '[' :: ([','].intercalate (canonicalItems items) ++ [']'])
  | .object fields =>
    '{' :: ([','].intercalate ((JsValue.sortByKey (canonicalFields fields)).map (fun p => jsonString p.1 ++ ':' :: p.2))
      ++ ['}'])

def canonicalItems : List Json → List (List Char)
  | [] => []
  | v :: items => canonical v :: canonicalItems items

def canonicalFields : List (String × Json) → List (String × List Char)
  | [] => []
  | (k, v) :: fields => (k, canonical v) :: canonicalFields fields

end

def validPredicate (predicate : Predicate) : Except JsError Unit := do
  if predicate.operator = .exists_ then
    match predicate.value with
    | none => return ()
    | some (.boolean _) => return ()
    | some _ => throw (.typeError "exists predicate value must be boolean")
  match predicate.value with
  | none => throw (.typeError "predicate value is required")
  | some value =>
    if predicate.operator = .in_ then
      match value with
      | .array (_ :: _) => pure ()
      | _ => throw (.typeError "in predicate requires a non-empty array")
    if predicate.operator.isOrdered then
      match value with
      | .number _ => pure ()
      | .string _ => pure ()
      | _ => throw (.typeError "ordered predicate values must be numbers or strings")

def sameValue (left right : Json) : Bool := canonical left = canonical right

def identity (dependency : PredicateDependency) : Json :=
  .object [("domain", .string predicateDependencySpecVersion), ("tenantId", .string dependency.tenantId),
    ("resourceId", .string dependency.resourceId), ("incarnationId", .string dependency.incarnationId),
    ("aspect", .string dependency.aspect), ("predicate", dependency.predicate.json)]

def predicateSemanticFingerprint (sha256 : String → String) (dependency : PredicateDependency) : Except JsError String := do
  let _ ← required dependency.tenantId "tenantId"
  let _ ← required dependency.resourceId "resourceId"
  let _ ← required dependency.incarnationId "incarnationId"
  let _ ← required dependency.aspect "aspect"
  validPredicate dependency.predicate
  pure ("sha256:" ++ sha256 (String.ofList (canonical (identity dependency))))

/-- `evaluatePredicate`, once the predicate is valid and the value is there. -/
def evaluateValue (value : Json) (operator : PredicateOperator) (expected : Json) : PredicateEvaluation :=
  match operator with
  | .eq => .answer (sameValue value expected)
  | .neq => .answer (!sameValue value expected)
  | .in_ =>
    match expected with
    | .array candidates => .answer (candidates.any (fun candidate => sameValue candidate value))
    | _ => .unknown
  | .gt | .gte | .lt | .lte =>
    match value, expected with
    | .number value, .number expected => .answer (operator.compare value expected)
    | .string value, .string expected => .answer (operator.compare (codeUnits value) (codeUnits expected))
    | _, _ => .unknown
  | .exists_ => .unknown

/-- `value !== undefined && value !== null`. -/
def present : Option Json → Bool
  | none => false
  | some .null => false
  | some _ => true

def evaluatePredicate (value : Option Json) (predicate : Predicate) : PredicateEvaluation :=
  match validPredicate predicate with
  | .error _ => .unknown
  | .ok () =>
    if predicate.operator = .exists_ then
      .answer (decide (predicate.value.getD (.boolean true) = .boolean (present value)))
    else
      match value, predicate.value with
      | some value, some expected => evaluateValue value predicate.operator expected
      | _, _ => .unknown

def classifyPredicateChange (sha256 : String → String) (dependency : PredicateDependency)
    (previousValue currentValue : Option Json) : PredicateChange :=
  if dependency.specVersion ≠ predicateDependencySpecVersion then .unknown
  else
    match predicateSemanticFingerprint sha256 dependency with
    | .error _ => .unknown
    | .ok fingerprint =>
      if dependency.semanticFingerprint ≠ fingerprint then .unknown
      else if evaluatePredicate previousValue dependency.predicate ≠ .answer true then .unknown
      else
        match evaluatePredicate currentValue dependency.predicate with
        | .answer true => .preserved
        | .answer false => .invalidated
        | .unknown => .unknown

end Premise.Next.Predicates
