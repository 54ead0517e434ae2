import Premise.Collections.OrderedMap
import Premise.Js.Basic

/-!
# Documents of a hybrid index

Documents with their metadata, the filters on them, and what the index keeps of a document. The content of a
document is generic. A structured filter has the operators that its type allows; one without operators, or
with a number that is not finite, is refused when it is applied.
-/

namespace Premise.IndexHybrid

open Collections Js

inductive MetadataScalar
  | null
  | text (value : String)
  | boolean (value : Bool)
  | number (value : Number)
deriving DecidableEq

inductive MetadataValue
  | scalar (value : MetadataScalar)
  | list (values : List MetadataScalar)
deriving DecidableEq

abbrev Metadata := OrderedMap String MetadataValue

structure HybridDocument (T : Type) where
  id : String
  text : String
  metadata : Option Metadata := none
  content : Option T := none
deriving DecidableEq

structure MetadataOperators where
  eq : Option MetadataValue := none
  ne : Option MetadataValue := none
  among : Option (List MetadataScalar) := none
  nin : Option (List MetadataScalar) := none
  present : Option Bool := none
  gt : Option Number := none
  gte : Option Number := none
  lt : Option Number := none
  lte : Option Number := none
  contains : Option MetadataScalar := none
  beginning : Option String := none
deriving DecidableEq

inductive MetadataCondition
  | value (value : MetadataValue)
  | operators (operators : MetadataOperators)
deriving DecidableEq

/-- A structured filter, or a predicate of the caller, which may throw. -/
inductive MetadataFilter (T : Type)
  | fields (conditions : OrderedMap String MetadataCondition)
  | predicate (accepts : Option Metadata → HybridDocument T → Except JsError Bool)

def isMetadataScalar : MetadataScalar → Bool
  | .number value => value.toFinite.isSome
  | _ => true

def isMetadataValue : MetadataValue → Bool
  | .scalar value => isMetadataScalar value
  | .list values => values.all isMetadataScalar

variable {T : Type}

/-- The checks of `snapshotDocument`; the copy it returns is the document. -/
def snapshotDocument (input : HybridDocument T) : Except JsError (HybridDocument T) := do
  if (trim input.id).length = 0 then throw (.typeError "Hybrid document id must be a non-empty string")
  match input.metadata with
  | none => pure input
  | some metadata =>
    match metadata.entries.find? (fun p => p.1.length = 0 || !isMetadataValue p.2) with
    | some (key, _) => throw (.typeError ("Invalid metadata value: " ++ key))
    | none => pure input

def tokenize (tokenizer : String → List String) (text : String) : Except JsError (List String) :=
  let raw := tokenizer text
  if raw.any (fun token => token.length = 0) then throw (.typeError "Tokenizer must return non-empty strings")
  else pure raw

def termFrequency (tokens : List String) : OrderedMap String Nat :=
  tokens.foldl (fun counts token => counts.set token ((counts.get? token).getD 0 + 1)) ∅

/-- The vector that a provider answered with, or the error it rejected with. -/
def embed (answer : Except JsError (List Number)) : Except JsError (List ℚ) := do
  let result ← answer
  if result.length < 1 then throw (.typeError "Vector provider must return a non-empty vector")
  match result.mapM Number.toFinite with
  | none => throw (.typeError "Vector provider returned a non-finite component")
  | some vector => pure vector

def equalScalar : MetadataScalar → MetadataScalar → Bool
  | .number left, .number right => left.same right
  | left, right => left = right

def equalValue : MetadataValue → MetadataValue → Bool
  | .scalar left, .scalar right => equalScalar left right
  | .list left, .list right => left.length = right.length && (left.zip right).all (fun p => equalScalar p.1 p.2)
  | _, _ => false

def valueContains : MetadataValue → MetadataScalar → Bool
  | .list values, expected => values.any (fun entry => equalScalar entry expected)
  | .scalar (.text value), .text expected => decide (expected.toList <:+: value.toList)
  | _, _ => false

def valueIn (value : MetadataValue) (expected : List MetadataScalar) : Bool :=
  match value with
  | .list values => values.any (fun entry => expected.any (fun candidate => equalScalar entry candidate))
  | .scalar value => expected.any (fun candidate => equalScalar value candidate)

def validOperatorObject (value : MetadataOperators) : Bool :=
  value ≠ {} && value.eq.all isMetadataValue && value.ne.all isMetadataValue
    && value.among.all (fun values => values.all isMetadataScalar)
    && value.nin.all (fun values => values.all isMetadataScalar)
    && [value.gt, value.gte, value.lt, value.lte].all (fun bound => bound.all (fun number => number.toFinite.isSome))
    && value.contains.all isMetadataScalar

def comparesTo (test : ℚ → ℚ → Bool) (value : MetadataValue) (bound : Number) : Bool :=
  match value with
  | .scalar (.number entry) =>
    match entry.toFinite, bound.toFinite with
    | some entry, some target => test entry target
    | _, _ => false
  | _ => false

def beginsWith (value : MetadataValue) (beginning : String) : Bool :=
  match value with
  | .scalar (.text value) => decide (beginning.toList <+: value.toList)
  | _ => false

def matchesOperators (value : Option MetadataValue) (condition : MetadataOperators) : Bool :=
  match value with
  | none =>
    condition.present == some false && condition.eq.isNone && condition.among.isNone && condition.gt.isNone
      && condition.gte.isNone && condition.lt.isNone && condition.lte.isNone && condition.contains.isNone
      && condition.beginning.isNone
  | some value =>
    condition.present != some false && condition.eq.all (fun expected => equalValue value expected)
      && condition.ne.all (fun expected => !equalValue value expected)
      && condition.among.all (fun expected => valueIn value expected)
      && condition.nin.all (fun expected => !valueIn value expected)
      && condition.gt.all (fun target => comparesTo (fun entry target => entry > target) value target)
      && condition.gte.all (fun target => comparesTo (fun entry target => entry ≥ target) value target)
      && condition.lt.all (fun target => comparesTo (fun entry target => entry < target) value target)
      && condition.lte.all (fun target => comparesTo (fun entry target => entry ≤ target) value target)
      && condition.contains.all (fun expected => valueContains value expected)
      && condition.beginning.all (fun beginning => beginsWith value beginning)

/-- `matchesCondition`, with a field that is absent as `none`. -/
def matchesCondition (value : Option MetadataValue) : MetadataCondition → Except JsError Bool
  | .operators condition =>
    if validOperatorObject condition then pure (matchesOperators value condition)
    else throw (.typeError "Invalid metadata filter operator")
  | .value condition =>
    if isMetadataValue condition then pure (value.any (fun value => equalValue value condition))
    else throw (.typeError "Invalid metadata filter operator")

def matchesFields (metadata : Option Metadata) : List (String × MetadataCondition) → Except JsError Bool
  | [] => pure true
  | (key, condition) :: rest => do
    let matched ← matchesCondition (metadata.bind (fun fields => fields.get? key)) condition
    if matched then matchesFields metadata rest else pure false

def matchesFilter (filter : MetadataFilter T) (document : HybridDocument T) : Except JsError Bool :=
  match filter with
  | .predicate accepts => accepts document.metadata document
  | .fields conditions => matchesFields document.metadata conditions.entries

/-!
# The hybrid index

`HybridIndex` without its search: the stored documents and the corpus statistics that every change keeps up to
date. `upsert` waits for the embedding of the text between its checks and its write; the two halves are
`prepare` and `commit`.
-/

structure StoredDocument (T : Type) where
  document : HybridDocument T
  tokens : List String
  termFrequency : OrderedMap String Nat
  vector : List ℚ

structure HybridIndexOptions where
  tokenizer : String → List String
  lexicalWeight : Option Number := none
  vectorWeight : Option Number := none

structure HybridIndex (T : Type) where
  tokenizer : String → List String
  defaultLexicalWeight : ℚ
  defaultVectorWeight : ℚ
  documents : OrderedMap String (StoredDocument T) := ∅
  documentFrequency : OrderedMap String Int := ∅
  invertedIndex : OrderedMap String (OrderedSet String) := ∅
  totalDocumentLength : Int := 0
  vectorDimensions : Option Nat := none

def defaultWeight : ℚ := 1 / 2

def validateWeight (value : Number) (name : String) : Except JsError ℚ :=
  match value.toFinite with
  | some weight =>
    if weight < 0 then throw (.rangeError (name ++ " must be a finite non-negative number")) else pure weight
  | none => throw (.rangeError (name ++ " must be a finite non-negative number"))

structure Weights where
  lexicalWeight : ℚ
  vectorWeight : ℚ

def resolveWeights (lexicalWeight vectorWeight : Option Number) (defaultLexicalWeight defaultVectorWeight : ℚ) :
    Except JsError Weights := do
  let lexical ← validateWeight (lexicalWeight.getD (.finite defaultLexicalWeight)) "lexicalWeight"
  let vector ← validateWeight (vectorWeight.getD (.finite defaultVectorWeight)) "vectorWeight"
  if lexical + vector = 0 then throw (.rangeError "At least one fusion weight must be greater than zero")
  pure ⟨lexical, vector⟩

variable {T : Type}

namespace HybridIndex

/-- `new HybridIndex(options)`. -/
def new (options : HybridIndexOptions) : Except JsError (HybridIndex T) := do
  let weights ← resolveWeights options.lexicalWeight options.vectorWeight defaultWeight defaultWeight
  pure {
    tokenizer := options.tokenizer
    defaultLexicalWeight := weights.lexicalWeight
    defaultVectorWeight := weights.vectorWeight }

def addToken (id : String) (index : HybridIndex T) (token : String) : HybridIndex T :=
  { index with
    documentFrequency :=
      index.documentFrequency.set token ((index.documentFrequency.get? token).getD 0 + 1)
    invertedIndex :=
      index.invertedIndex.set token (((index.invertedIndex.get? token).getD ∅).add id) }

def addStatistics (index : HybridIndex T) (document : StoredDocument T) : HybridIndex T :=
  (unique document.tokens).foldl (addToken document.document.id)
    { index with totalDocumentLength := index.totalDocumentLength + document.tokens.length }

/-- The postings of a token without one document; an empty set of postings is dropped. -/
def removePosting (invertedIndex : OrderedMap String (OrderedSet String)) (token id : String) :
    OrderedMap String (OrderedSet String) :=
  match invertedIndex.get? token with
  | none => invertedIndex
  | some postings =>
    if (postings.erase id).size = 0 then invertedIndex.erase token
    else invertedIndex.set token (postings.erase id)

def removeToken (id : String) (index : HybridIndex T) (token : String) : HybridIndex T :=
  let next := (index.documentFrequency.get? token).getD 0 - 1
  { index with
    documentFrequency :=
      if next ≤ 0 then index.documentFrequency.erase token else index.documentFrequency.set token next
    invertedIndex := removePosting index.invertedIndex token id }

def removeStatistics (index : HybridIndex T) (document : StoredDocument T) : HybridIndex T :=
  (unique document.tokens).foldl (removeToken document.document.id)
    { index with totalDocumentLength := index.totalDocumentLength - document.tokens.length }

/-- What an `upsert` holds while it waits for the embedding. -/
structure Prepared (T : Type) where
  snapshot : HybridDocument T
  tokens : List String

/-- `upsert` up to its call of the provider. -/
def prepare (index : HybridIndex T) (document : HybridDocument T) : Except JsError (Prepared T) := do
  let snapshot ← snapshotDocument document
  let tokens ← tokenize index.tokenizer snapshot.text
  pure ⟨snapshot, tokens⟩

/-- The statistics without the document that is stored under an id. -/
def removePrevious (index : HybridIndex T) (id : String) : HybridIndex T :=
  match index.documents.get? id with
  | some previous => index.removeStatistics previous
  | none => index

def store (index : HybridIndex T) (id : String) (stored : StoredDocument T) : HybridIndex T :=
  let index := { index with documents := index.documents.set id stored }
  { index.addStatistics stored with vectorDimensions := some stored.vector.length }

def write (index : HybridIndex T) (pending : Prepared T) (vector : List ℚ) : HybridIndex T :=
  (index.removePrevious pending.snapshot.id).store pending.snapshot.id
    ⟨pending.snapshot, pending.tokens, termFrequency pending.tokens, vector⟩

/-- `upsert` from the provider's answer on. -/
def commit (index : HybridIndex T) (pending : Prepared T) (answer : Except JsError (List Number)) :
    Except JsError (HybridIndex T) := do
  let vector ← embed answer
  match index.vectorDimensions with
  | some dimensions =>
    if vector.length ≠ dimensions then
      throw (.rangeError ("Vector dimension changed from " ++ toString dimensions ++ " to " ++ toString vector.length))
    else pure (index.write pending vector)
  | none => pure (index.write pending vector)

/-- `upsert`, when no other call runs before it ends. -/
def upsert (index : HybridIndex T) (document : HybridDocument T) (answer : Except JsError (List Number)) :
    Except JsError (HybridIndex T) := do
  let pending ← index.prepare document
  index.commit pending answer

/-- The check that `update` makes before it calls `upsert`. -/
def checkUpdate (index : HybridIndex T) (document : HybridDocument T) : Except JsError Unit :=
  if index.documents.has document.id then pure ()
  else throw (.error ("Cannot update missing document: " ++ document.id))

def update (index : HybridIndex T) (document : HybridDocument T) (answer : Except JsError (List Number)) :
    Except JsError (HybridIndex T) := do
  index.checkUpdate document
  index.upsert document answer

def delete (index : HybridIndex T) (id : String) : HybridIndex T × Bool :=
  match index.documents.get? id with
  | none => (index, false)
  | some document =>
    let index := index.removeStatistics document
    let documents := index.documents.erase id
    ({ index with
        documents := documents
        vectorDimensions := if documents.size = 0 then none else index.vectorDimensions }, true)

def clear (index : HybridIndex T) : HybridIndex T :=
  { index with
    documents := ∅
    documentFrequency := ∅
    invertedIndex := ∅
    totalDocumentLength := 0
    vectorDimensions := none }

end HybridIndex

end Premise.IndexHybrid
