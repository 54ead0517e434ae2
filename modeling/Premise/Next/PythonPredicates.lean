import Premise.Next.Predicates
import Premise.Next.PythonReceipts

/-!
# Predicate dependencies in the Python reference

`predicate_semantic_fingerprint`, `evaluate_predicate` and `classify_predicate_change` of the reference, on values
whose numbers are integers.
-/

namespace Premise.Next.Reference

open Collections Js Python Next.Predicates

/-- The escapes of `json.dumps` that have a letter of their own, by code point. -/
def escapes : List (Nat × Char) :=
  [(0x5C, '\\'), (0x22, '"'), (0x8, 'b'), (0xC, 'f'), (0xA, 'n'), (0xD, 'r'), (0x9, 't')]

def encodeChar (c : Char) : List Char :=
  match escapes.find? (fun p => p.1 = c.toNat) with
  | some (_, letter) => ['\\', letter]
  | none => if c.toNat < 0x20 then ['\\', 'u', '0', '0'] ++ hexPair c.toNat else [c]

/-- `json.dumps(value, ensure_ascii=False)` of a string. -/
def encodeString (value : String) : List Char := '"' :: (value.toList.flatMap encodeChar ++ ['"'])

/-- `repr` of an integer. -/
def intRepr (value : Int) : List Char := (if value < 0 then ['-'] else []) ++ Nat.toDigits 10 value.natAbs

mutual

/-- `_canonical(value)`. -/
def canonical : Json → List Char
  | .null => "null".toList
  | .boolean b => if b then "true".toList else "false".toList
  | .string s => encodeString s
  | .number value => intRepr value.num
  | .array items => '[' :: ([','].intercalate (canonicalItems items) ++ [']'])
  | .object fields =>
    '{' :: ([','].intercalate ((sortByKeyOf PointsLe (canonicalFields fields)).map
      (fun p => encodeString p.1 ++ ':' :: p.2)) ++ ['}'])

def canonicalItems : List Json → List (List Char)
  | [] => []
  | v :: items => canonical v :: canonicalItems items

def canonicalFields : List (String × Json) → List (String × List Char)
  | [] => []
  | (k, v) :: fields => (k, canonical v) :: canonicalFields fields

end

def digest (sha256 : String → String) (value : Json) : String := "sha256:" ++ sha256 (String.ofList (canonical value))

def predicateSpecVersion : String := "premise-predicate/1"

def validPredicate (predicate : Predicate) : Bool :=
  if predicate.operator ≠ .exists_ ∧ predicate.value.isNone then false
  else if predicate.operator = .in_ ∧ !(match predicate.value with | some (.array (_ :: _)) => true | _ => false) then false
  else if predicate.operator = .exists_ ∧ predicate.value.isSome
      ∧ !(match predicate.value with | some (.boolean _) => true | _ => false) then false
  else if predicate.operator.isOrdered
      ∧ !(match predicate.value with | some (.number _) => true | some (.string _) => true | _ => false) then false
  else true

def sameValue (left right : Json) : Bool := canonical left = canonical right

/-- `evaluate_predicate`, once the predicate is valid and the value is there. -/
def evaluateValue (candidate : Json) (operator : PredicateOperator) (expected : Json) : PredicateEvaluation :=
  if operator = .eq then .answer (sameValue candidate expected)
  else if operator = .neq then .answer (!sameValue candidate expected)
  else if operator = .in_ then
    match expected with
    | .array items => .answer (items.any (fun item => sameValue item candidate))
    | _ => .unknown
  else
    match candidate, expected with
    | .number candidate, .number expected => .answer (operator.compare candidate expected)
    | .string candidate, .string expected => .answer (operator.compare (codePoints candidate) (codePoints expected))
    | _, _ => .unknown

def evaluatePredicate (value : Option Json) (predicate : Predicate) : PredicateEvaluation :=
  if !validPredicate predicate then .unknown
  else if predicate.operator = .exists_ then
    .answer (decide (predicate.value.getD (.boolean true) = .boolean (value.isSome && decide (value ≠ some .null))))
  else
    match value, predicate.value with
    | some candidate, some expected => evaluateValue candidate predicate.operator expected
    | _, _ => .unknown

def predicateSemanticFingerprint (sha256 : String → String) (dependency : PredicateDependency) : Except String String := do
  let tenantId ← requiredText dependency.tenantId "tenantId"
  let resourceId ← requiredText dependency.resourceId "resourceId"
  let incarnationId ← requiredText dependency.incarnationId "incarnationId"
  let aspect ← requiredText dependency.aspect "aspect"
  if !validPredicate dependency.predicate then throw "invalid predicate"
  pure (digest sha256 (.object [("domain", .string predicateSpecVersion), ("tenantId", .string tenantId),
    ("resourceId", .string resourceId), ("incarnationId", .string incarnationId), ("aspect", .string aspect),
    ("predicate", dependency.predicate.json)]))

def validDependency (sha256 : String → String) (dependency : PredicateDependency) : Bool :=
  if dependency.specVersion ≠ predicateSpecVersion then false
  else
    match predicateSemanticFingerprint sha256 dependency with
    | .ok fingerprint => dependency.semanticFingerprint = fingerprint
    | .error _ => false

def classifyPredicateChange (sha256 : String → String) (dependency : PredicateDependency)
    (previousValue currentValue : Option Json) : PredicateChange :=
  if !validDependency sha256 dependency then .unknown
  else if evaluatePredicate previousValue dependency.predicate ≠ .answer true then .unknown
  else if evaluatePredicate currentValue dependency.predicate = .answer true then .preserved
  else if evaluatePredicate currentValue dependency.predicate = .answer false then .invalidated
  else .unknown

end Premise.Next.Reference

/-!
# Agreement on predicates

The values on which the runtime and the reference are compared, what their agreement is, and when they agree.
-/

namespace Premise.Next.Predicates

open Collections Js Python

def PortableNumber (value : ℚ) : Prop := value.den = 1 ∧ value.num.natAbs < 2 ^ 53

mutual

/-- No object has a key twice, and every number is an integer below 2^53 in magnitude. -/
def Portable : Json → Prop
  | .number value => PortableNumber value
  | .array items => PortableItems items
  | .object fields => (fields.map Prod.fst).Nodup ∧ PortableFields fields
  | .null | .boolean _ | .string _ => True

def PortableItems : List Json → Prop
  | [] => True
  | v :: items => Portable v ∧ PortableItems items

def PortableFields : List (String × Json) → Prop
  | [] => True
  | (_, v) :: fields => Portable v ∧ PortableFields fields

end

/-- The runtime and the reference give the same answers. -/
structure Agree (sha256 : String → String) (dependency : PredicateDependency) (previousValue currentValue : Option Json) :
    Prop where
  fingerprint : (predicateSemanticFingerprint sha256 dependency).toOption
    = (Reference.predicateSemanticFingerprint sha256 dependency).toOption
  previous : evaluatePredicate previousValue dependency.predicate
    = Reference.evaluatePredicate previousValue dependency.predicate
  current : evaluatePredicate currentValue dependency.predicate
    = Reference.evaluatePredicate currentValue dependency.predicate
  change : classifyPredicateChange sha256 dependency previousValue currentValue
    = Reference.classifyPredicateChange sha256 dependency previousValue currentValue

/-- The value of the predicate is one that its operator admits. -/
def Predicate.Valid (predicate : Predicate) : Prop :=
  match predicate.operator with
  | .exists_ => ∀ value ∈ predicate.value, ∃ b, value = .boolean b
  | .in_ => ∃ first rest, predicate.value = some (.array (first :: rest))
  | .eq | .neq => ∃ value, predicate.value = some value
  | .gt | .gte | .lt | .lte => ∃ value, predicate.value = some value
      ∧ ((∃ number, value = .number number) ∨ ∃ text, value = .string text)

/-- The texts of a dependency that must not be blank. -/
def PredicateDependency.texts (dependency : PredicateDependency) : List String :=
  [dependency.tenantId, dependency.resourceId, dependency.incarnationId, dependency.aspect]

/-- Code units and code points order the keys of every object of a value in the same way. -/
def KeysCoincide (value : Json) : Prop := value.KeysAlike UnitsLe PointsLe

/-- The fingerprints are the same: both are refused, or both are taken of the same text. -/
def FingerprintsCoincide (dependency : PredicateDependency) : Prop :=
  ¬ dependency.predicate.Valid
    ∨ ((∃ text ∈ dependency.texts, Js.nonEmpty text = false) ∧ ∃ text ∈ dependency.texts, Python.nonEmpty text = false)
    ∨ ((∀ text ∈ dependency.texts, Js.nonEmpty text = true ∧ Python.nonEmpty text = true)
      ∧ ∀ value ∈ dependency.predicate.value, KeysCoincide value)

/-- Two strings that an ordering operator compares are ordered in the same way by code units and by code points. -/
def OrdersCoincide (predicate : Predicate) (value : Option Json) : Prop :=
  predicate.operator.isOrdered = true → ∀ text expected, value = some (.string text) →
    predicate.value = some (.string expected) → (UnitsLe text expected ↔ PointsLe text expected)

def Coincide (dependency : PredicateDependency) (previous current : Option Json) : Prop :=
  FingerprintsCoincide dependency ∧ OrdersCoincide dependency.predicate previous
    ∧ OrdersCoincide dependency.predicate current

end Premise.Next.Predicates
