import Premise.Collections.CodeUnits
import Premise.Collections.WorstHeap
import Premise.Control.System
import Premise.IndexHybrid.Index

/-!
# Scores and their order

BM25, cosine similarity and their fusion, with the arithmetic of the host as a parameter: its numbers are
linearly ordered, and nothing is said here about how its operations round. The heap of the best results is the
one with the worst element at the root.
-/

namespace Premise.IndexHybrid

open Collections Js

/-- The numbers that scores are computed with. -/
class HostNumber (S : Type) extends LinearOrder S, Zero S, One S, Add S, Sub S, Mul S, Div S where
  ofRational : ℚ → S
  log : S → S
  sqrt : S → S

/-- What the comparison of scores with zero relies on. -/
structure HostNumber.Lawful (S : Type) [HostNumber S] : Prop where
  mul_zero : ∀ x : S, x * 0 = 0
  add_zero : ∀ x : S, x + 0 = x
  zero_div : ∀ x : S, x ≠ 0 → 0 / x = 0
  ofRational_zero : HostNumber.ofRational (0 : ℚ) = (0 : S)
  ofRational_ne_zero : ∀ value : ℚ, value ≠ 0 → HostNumber.ofRational value ≠ (0 : S)

variable {S T : Type} [HostNumber S]

open HostNumber (ofRational)

def bm25K1 : ℚ := 6 / 5

def bm25B : ℚ := 3 / 4

structure Bm25 (S : Type) where
  score : S
  matchedTokens : List String

def bm25Token (document : StoredDocument T) (documentCount : Nat) (documentFrequency : String → Int) (denominatorLength : S)
    (sum : Bm25 S) (token : String) : Bm25 S :=
  let frequency := (document.termFrequency.get? token).getD 0
  if frequency = 0 then sum
  else
    let documentFrequencyValue : S := ofRational (documentFrequency token)
    let inverseDocumentFrequency :=
      HostNumber.log (1 + (ofRational documentCount - documentFrequencyValue + ofRational (1 / 2)) / (documentFrequencyValue + ofRational (1 / 2)))
    { score := sum.score + inverseDocumentFrequency * (ofRational frequency * (ofRational bm25K1 + 1)) / (ofRational frequency + denominatorLength)
      matchedTokens := sum.matchedTokens ++ [token] }

/-- `bm25`; a token that the map of document frequencies lacks has frequency 0. -/
def bm25 (queryTokens : List String) (document : StoredDocument T) (documentCount : Nat) (documentFrequency : String → Int)
    (averageDocumentLength : S) : Bm25 S :=
  let denominatorLength : S :=
    ofRational bm25K1 * (1 - ofRational bm25B + ofRational bm25B * ofRational document.tokens.length / averageDocumentLength)
  (unique queryTokens).foldl (bm25Token document documentCount documentFrequency denominatorLength) ⟨0, []⟩

def normalizedBm25 (value : S) : S := if value ≤ 0 then 0 else value / (value + 1)

structure Products (S : Type) where
  dot : S
  leftMagnitude : S
  rightMagnitude : S

/-- `cosineSimilarity` of vectors of one dimension. -/
def cosine (left right : List ℚ) : S :=
  let products : Products S := (left.zip right).foldl
    (fun sums values =>
      { dot := sums.dot + ofRational values.1 * ofRational values.2
        leftMagnitude := sums.leftMagnitude + ofRational values.1 * ofRational values.1
        rightMagnitude := sums.rightMagnitude + ofRational values.2 * ofRational values.2 })
    ⟨0, 0, 0⟩
  if products.leftMagnitude = 0 ∨ products.rightMagnitude = 0 then 0
  else max (ofRational (-1)) (min 1 (products.dot / HostNumber.sqrt (products.leftMagnitude * products.rightMagnitude)))

def cosineSimilarity (left right : List ℚ) : Except JsError S :=
  if left.length ≠ right.length then throw (.error "Vector dimensions do not match") else pure (cosine left right)

structure ScoreParts (S : Type) where
  queryTokens : List String
  bm25 : S
  lexicalScore : S
  matchedTokens : List String
  tokenCoverage : S
  cosineSimilarity : S
  vectorScore : S
  score : S

structure ScoredDocument (T S : Type) where
  stored : StoredDocument T
  parts : ScoreParts S

def fuse (weights : Weights) (distinctQueryTokens : List String) (lexical : Bm25 S) (cosine : S) : ScoreParts S :=
  let vectorScore := max 0 cosine
  let lexicalScore := normalizedBm25 lexical.score
  { queryTokens := distinctQueryTokens
    bm25 := lexical.score
    lexicalScore := lexicalScore
    matchedTokens := lexical.matchedTokens
    tokenCoverage :=
      if distinctQueryTokens.length = 0 then 0
      else ofRational lexical.matchedTokens.length / ofRational distinctQueryTokens.length
    cosineSimilarity := cosine
    vectorScore := vectorScore
    score :=
      (ofRational weights.lexicalWeight * lexicalScore + ofRational weights.vectorWeight * vectorScore)
        / (ofRational weights.lexicalWeight + ofRational weights.vectorWeight) }

def compareDescending (left right : S) : Int := if left = right then 0 else if left > right then -1 else 1

def compareIds (left right : String) : Int :=
  if left = right then 0 else if codeUnits left < codeUnits right then -1 else 1

def compareScoredDocuments (left right : ScoredDocument T S) : Int :=
  orElse (compareDescending left.parts.score right.parts.score)
    (orElse (compareDescending left.parts.lexicalScore right.parts.lexicalScore)
      (orElse (compareDescending left.parts.vectorScore right.parts.vectorScore)
        (compareIds left.stored.document.id right.stored.document.id)))

def siftWorstUp (heap : Array (ScoredDocument T S)) (start : Nat) : Array (ScoredDocument T S) :=
  WorstHeap.siftUp compareScoredDocuments heap.size heap start

def siftWorstDown (heap : Array (ScoredDocument T S)) (start : Nat) : Array (ScoredDocument T S) :=
  WorstHeap.siftDown compareScoredDocuments heap.size heap start

def insertTopK (limit : Nat) (heap : Array (ScoredDocument T S)) (candidate : ScoredDocument T S) :
    Array (ScoredDocument T S) :=
  if heap.size < limit then siftWorstUp (heap.push candidate) heap.size
  else if h : 0 < heap.size then
    if 0 ≤ compareScoredDocuments candidate heap[0] then heap else siftWorstDown (heap.set 0 candidate) 0
  else heap

/-!
# Searching a hybrid index

`search`, when no other call runs before it ends: the candidates come from the postings when the vector weight
is zero, and the results from a heap of bounded size. The provider's answer to the query is an argument; it is
not asked for when the vector weight is zero or no candidate is left.
-/

variable {S T : Type} [HostNumber S]

structure SearchOptions (T : Type) where
  limit : Option Number := none
  candidateLimit : Option Number := none
  filter : Option (MetadataFilter T) := none
  filters : Option (MetadataFilter T) := none
  lexicalWeight : Option Number := none
  vectorWeight : Option Number := none
  minScore : Option Number := none

def defaultSearchLimit : Nat := 10

def maxSearchLimit : Nat := 10000

def maxSearchCandidateLimit : Nat := 10000

/-- `Number.isSafeInteger(value)` for a value from `minimum` to `maximum`, with the value. -/
def toBounded (value : Number) (minimum maximum : Nat) : Option Nat :=
  value.toInteger.bind (fun limit =>
    if isSafeInteger limit ∧ (minimum : Int) ≤ limit ∧ limit ≤ (maximum : Int) then some limit.toNat else none)

def validateLimit (value : Option Number) : Except JsError Nat :=
  match toBounded (value.getD (.finite defaultSearchLimit)) 0 maxSearchLimit with
  | some limit => pure limit
  | none => throw (.rangeError ("limit must be a safe integer from 0 to " ++ toString maxSearchLimit))

def validateCandidateLimit (value : Option Number) (resultLimit : Nat) : Except JsError Unit :=
  match value with
  | none => pure ()
  | some value =>
    let minimum := max 1 resultLimit
    match toBounded value minimum maxSearchCandidateLimit with
    | some _ => pure ()
    | none =>
      throw (.rangeError ("candidateLimit must be a safe integer from " ++ toString minimum ++ " to "
        ++ toString maxSearchCandidateLimit))

def validateMinScore (value : Option Number) : Except JsError ℚ :=
  match (value.getD (.finite 0)).toFinite with
  | some minimumScore =>
    if minimumScore < 0 then throw (.rangeError "minScore must be a finite non-negative number") else pure minimumScore
  | none => throw (.rangeError "minScore must be a finite non-negative number")

/-- Exactly one of `filter` and `filters`, or none. -/
def resolveFilter (options : SearchOptions T) : Except JsError (Option (MetadataFilter T)) :=
  match options.filter, options.filters with
  | some _, some _ => throw (.typeError "Use either filter or filters, not both")
  | some filter, none => pure (some filter)
  | none, filters => pure filters

def passing (filter : Option (MetadataFilter T)) : List (StoredDocument T) → Except JsError (List (StoredDocument T))
  | [] => pure []
  | stored :: rest => do
    let passes ← (filter.map (fun filter => matchesFilter filter stored.document)).getD (pure true)
    let others ← passing filter rest
    pure (if passes then stored :: others else others)

structure HybridSearchResult (T S : Type) where
  document : HybridDocument T
  parts : ScoreParts S
  weights : Weights
  filterApplied : Bool
  rank : Nat

/-- The results of ranked documents, with their ranks from 1. -/
def results (weights : Weights) (filterApplied : Bool) (scored : List (ScoredDocument T S)) :
    List (HybridSearchResult T S) :=
  scored.mapIdx (fun index entry => ⟨entry.stored.document, entry.parts, weights, filterApplied, index + 1⟩)

namespace HybridIndex

variable (index : HybridIndex T)

def candidateDocuments (weights : Weights) (distinctQueryTokens : List String) : List (StoredDocument T) :=
  if weights.vectorWeight = 0 then
    (unique (distinctQueryTokens.flatMap (fun token => ((index.invertedIndex.get? token).getD ∅).elems))).filterMap
      (fun id => index.documents.get? id)
  else index.documents.values

/-- The vector of the query, unless the vector weight is zero. -/
def queryVector (weights : Weights) (answer : Except JsError (List Number)) : Except JsError (Option (List ℚ)) :=
  if 0 < weights.vectorWeight then do
    let vector ← embed answer
    match index.vectorDimensions with
    | some dimensions =>
      if vector.length ≠ dimensions then
        throw (.rangeError ("Query vector dimension " ++ toString vector.length ++ " does not match indexed dimension "
          ++ toString dimensions))
      else pure (some vector)
    | none => pure (some vector)
  else pure none

def averageDocumentLength : S :=
  max 1 (HostNumber.ofRational index.totalDocumentLength / HostNumber.ofRational index.documents.size)

def lexical (queryTokens : List String) (stored : StoredDocument T) : Bm25 S :=
  bm25 queryTokens stored index.documents.size (fun token => (index.documentFrequency.get? token).getD 0)
    index.averageDocumentLength

def scoreCandidate (weights : Weights) (queryTokens : List String) (vector : Option (List ℚ)) (stored : StoredDocument T) :
    Except JsError (ScoredDocument T S) := do
  let similarity ← (vector.map (fun vector => cosineSimilarity vector stored.vector)).getD (pure 0)
  pure ⟨stored, fuse weights (unique queryTokens) (index.lexical queryTokens stored) similarity⟩

def kept (minimumScore : ℚ) (entry : ScoredDocument T S) : Bool :=
  !decide (entry.parts.score < HostNumber.ofRational minimumScore) && !decide (entry.parts.score ≤ 0)

def topK (weights : Weights) (queryTokens : List String) (vector : Option (List ℚ)) (minimumScore : ℚ) (limit : Nat)
    (candidates : List (StoredDocument T)) : Except JsError (Array (ScoredDocument T S)) :=
  candidates.foldlM
    (fun heap stored => do
      let entry ← index.scoreCandidate weights queryTokens vector stored
      pure (if kept minimumScore entry then insertTopK limit heap entry else heap))
    #[]

/-- `search` from its candidates on. -/
def rank (weights : Weights) (queryTokens : List String) (filterApplied : Bool) (minimumScore : ℚ) (limit : Nat)
    (answer : Except JsError (List Number)) (candidates : List (StoredDocument T)) :
    Except JsError (List (HybridSearchResult T S)) :=
  if candidates.length = 0 then pure []
  else do
    let vector ← index.queryVector weights answer
    let scored ← index.topK weights queryTokens vector minimumScore limit candidates
    pure (results weights filterApplied ((sortBy compareScoredDocuments scored.toList).take limit))

/-- `search` of a query that is not blank, in an index that is not empty. -/
def searchDocuments (query : String) (options : SearchOptions T) (limit : Nat) (answer : Except JsError (List Number)) :
    Except JsError (List (HybridSearchResult T S)) := do
  let weights ← resolveWeights options.lexicalWeight options.vectorWeight index.defaultLexicalWeight
    index.defaultVectorWeight
  let minimumScore ← validateMinScore options.minScore
  let filter ← resolveFilter options
  let queryTokens ← tokenize index.tokenizer query
  let candidates ← passing filter (index.candidateDocuments weights (unique queryTokens))
  index.rank weights queryTokens filter.isSome minimumScore limit answer candidates

def search (query : String) (options : SearchOptions T) (answer : Except JsError (List Number)) :
    Except JsError (List (HybridSearchResult T S)) := do
  let limit ← validateLimit options.limit
  validateCandidateLimit options.candidateLimit limit
  if limit = 0 ∨ (trim query).length = 0 ∨ index.documents.size = 0 then pure []
  else index.searchDocuments query options limit answer

end HybridIndex

/-!
# The naive search

What a recomputation from the stored documents gives, and the search that goes through all of them, recomputes
the statistics and sorts every result.
-/

open Control

variable {S T : Type} [HostNumber S]

/-- A call that ends before the next one starts. -/
inductive Change (T : Type)
  | upsert (document : HybridDocument T) (answer : Except JsError (List Number))
  | update (document : HybridDocument T) (answer : Except JsError (List Number))
  | delete (id : String)
  | clear

def HybridIndex.change (index : HybridIndex T) : Change T → HybridIndex T
  | .upsert document answer => (index.upsert document answer).toOption.getD index
  | .update document answer => (index.update document answer).toOption.getD index
  | .delete id => (index.delete id).1
  | .clear => index.clear

def changes (options : HybridIndexOptions) : System (HybridIndex T) (Change T) where
  init := fun index => HybridIndex.new options = .ok index
  step := fun index call index' => index' = index.change call

def recountFrequency (documents : List (StoredDocument T)) (token : String) : Nat :=
  documents.countP (fun stored => token ∈ stored.tokens)

def recountPostings (documents : List (StoredDocument T)) (token : String) : List String :=
  (documents.filter (fun stored => token ∈ stored.tokens)).map (fun stored => stored.document.id)

def recountLength (documents : List (StoredDocument T)) : Nat :=
  (documents.map (fun stored => stored.tokens.length)).sum

/-- The statistics are those of the documents. -/
structure Recounted (index : HybridIndex T) (documents : List (StoredDocument T)) : Prop where
  /-- A token that no document has is not in the map. -/
  frequency : ∀ token, index.documentFrequency.get? token
    = if recountFrequency documents token = 0 then none else some (recountFrequency documents token : Int)
  /-- A token that no document has has no set of postings. -/
  absent : ∀ token, index.invertedIndex.get? token = none ↔ recountPostings documents token = []
  /-- The postings are the documents with the token. -/
  postings : ∀ token postings, index.invertedIndex.get? token = some postings →
    ∀ id, id ∈ postings ↔ id ∈ recountPostings documents token
  length : index.totalDocumentLength = recountLength documents

/-- The options of a search that passed the checks. -/
structure Request (T : Type) where
  limit : Nat
  weights : Weights
  minimumScore : ℚ
  filter : Option (MetadataFilter T)
  queryTokens : List String

namespace HybridIndex

variable (index : HybridIndex T)

/-- The checks of the options and of the tokens of the query. -/
def request (query : String) (options : SearchOptions T) : Except JsError (Request T) := do
  let limit ← validateLimit options.limit
  validateCandidateLimit options.candidateLimit limit
  let weights ← resolveWeights options.lexicalWeight options.vectorWeight index.defaultLexicalWeight
    index.defaultVectorWeight
  let minimumScore ← validateMinScore options.minScore
  let filter ← resolveFilter options
  let queryTokens ← tokenize index.tokenizer query
  pure ⟨limit, weights, minimumScore, filter, queryTokens⟩

def passes (filter : Option (MetadataFilter T)) (stored : StoredDocument T) : Bool :=
  filter.all (fun filter => (matchesFilter filter stored.document).toOption == some true)

def naiveScore (request : Request T) (vector : Option (List ℚ)) (stored : StoredDocument T) : ScoredDocument T S :=
  let documents := index.documents.values
  let averageDocumentLength : S :=
    max 1 (HostNumber.ofRational (recountLength documents) / HostNumber.ofRational documents.length)
  ⟨stored, fuse request.weights (unique request.queryTokens)
    (bm25 request.queryTokens stored documents.length (fun token => recountFrequency documents token) averageDocumentLength)
    ((vector.map (fun vector => cosine vector stored.vector)).getD 0)⟩

/-- All documents that pass the filter and have a score that is kept, sorted. -/
def naiveList (request : Request T) (vector : Option (List ℚ)) : List (ScoredDocument T S) :=
  sortBy compareScoredDocuments
    (((index.documents.values.filter (passes request.filter)).map (index.naiveScore request vector)).filter
      (fun entry => 0 < entry.parts.score ∧ HostNumber.ofRational request.minimumScore ≤ entry.parts.score))

/-- The naive search; there is nothing to find when the options do not pass the checks. -/
def naiveSearch (query : String) (options : SearchOptions T) (answer : Except JsError (List Number)) :
    List (HybridSearchResult T S) :=
  match index.request query options with
  | .error _ => []
  | .ok request =>
    let vector := ((index.queryVector request.weights answer).toOption).getD none
    results request.weights request.filter.isSome ((index.naiveList request vector).take request.limit)

/-- The options pass the checks, the filter throws for no document, and the provider answers with a vector of
the indexed dimension. -/
def Answerable (query : String) (options : SearchOptions T) (answer : Except JsError (List Number)) : Prop :=
  ∃ request, index.request query options = .ok request
    ∧ (∃ vector, index.queryVector request.weights answer = .ok vector)
    ∧ ∀ stored ∈ index.documents.values, ∀ filter, request.filter = some filter →
        ∃ passes, matchesFilter filter stored.document = .ok passes

end HybridIndex

end Premise.IndexHybrid
