import Premise.ContextEngine.Types

/-!
# Sources

`expandCandidate`: a candidate becomes one source, or two when it brings a summary of its own.
-/

namespace Premise.ContextEngine

open Js

structure RawSegment where
  requestedId : Option String := none
  text : String
  tokenCount : Option Nat := none
  kind : Option ContextKind := none
  parentId : Option String := none
  dedupeKey : Option String := none

structure SourceDescriptor where
  sourceId : String
  memoryId : String
  kind : ContextKind
  parentId : Option String
  topic : String
  score : ℚ
  freshness : FreshnessStatus
  observedAt : Option TimeValue
  expiresAt : Option TimeValue
  dedupeKey : Option String
  metadata : Option Json
  segments : List RawSegment

/-- `value === undefined ? undefined : nonEmptyId(value, label)`. -/
def optionalId (value : Option String) (label : String) : Except JsError (Option String) :=
  match value with
  | none => .ok none
  | some value => (nonEmptyId value label).map some

def rawSegment (value : InputChunk) (candidateId : String) (index : Nat) : Except JsError RawSegment :=
  match value with
  | .text value => .ok { text := value }
  | .chunk value => do
    let label := candidateId ++ ".chunks[" ++ toString index ++ "]"
    match ← textFrom value.text value.content label with
    | none => .error (.typeError (label ++ " needs text or content"))
    | some text =>
      let parentId ← optionalId value.parentId (label ++ ".parentId")
      let dedupeKey ← optionalId value.dedupeKey (label ++ ".dedupeKey")
      let requestedId ← optionalId value.id (label ++ ".id")
      let tokenCount ← declaredTokenCount value.tokenCount value.tokens label
      return { requestedId, text, tokenCount, kind := value.kind, parentId, dedupeKey }

def sourceSegments (candidate : ContextCandidate) : Except JsError (List RawSegment) :=
  match candidate.chunks with
  | some chunks =>
    if candidate.text.isSome ∨ candidate.content.isSome ∨ candidate.summary.isSome then
      .error (.typeError (candidate.id ++ " cannot combine chunks with text, content, or summary"))
    else chunks.zipIdx.mapM (fun p => rawSegment p.1 candidate.id p.2)
  | none => do
    let kind := normalizedKind candidate.kind
    let text ← textFrom candidate.text candidate.content candidate.id
    match kind, text, candidate.summary with
    | .summary, none, some summary =>
      let tokenCount ← declaredTokenCount candidate.tokenCount candidate.tokens candidate.id
      return [{ text := summary, tokenCount, kind := some .summary }]
    | _, none, _ => return []
    | _, some text, _ =>
      let tokenCount ← declaredTokenCount candidate.tokenCount candidate.tokens candidate.id
      return [{ text, tokenCount }]

def sourceFrom (candidate : ContextCandidate) (sourceId memoryId : String) (kind : ContextKind)
    (parentId : Option String) (segments : List RawSegment) : Except JsError SourceDescriptor := do
  let dedupeKey ← optionalId candidate.dedupeKey (candidate.id ++ ".dedupeKey")
  let topic ← nonEmptyId ((candidate.topic <|> candidate.groupId).getD memoryId)
    (candidate.id ++ ".topic")
  let score ← sourceScore candidate
  return {
    sourceId, memoryId, kind, parentId, topic, score
    freshness := normalizedFreshness (candidate.freshness <|> candidate.status)
    observedAt := candidate.observedAt
    expiresAt := candidate.expiresAt
    dedupeKey
    metadata := candidate.metadata
    segments }

def expandCandidate (candidate : ContextCandidate) : Except JsError (List SourceDescriptor) := do
  let id ← nonEmptyId candidate.id "candidate.id"
  let kind := normalizedKind candidate.kind
  let parentId ← optionalId candidate.parentId (id ++ ".parentId")
  let segments ← sourceSegments candidate
  match candidate.chunks, kind, candidate.summary.filter nonEmpty with
  | none, .detail, some summary =>
    let summaryId := id ++ ":summary"
    let summarySource ← sourceFrom candidate summaryId id .summary parentId
      [{ text := summary, kind := some .summary, parentId }]
    let detailSource ← sourceFrom candidate id id .detail (some summaryId) segments
    return [summarySource, detailSource]
  | _, _, _ => return [← sourceFrom candidate id id kind parentId segments]

def collectSources (candidates : List ContextCandidate) : Except JsError (List SourceDescriptor) :=
  candidates.foldlM (fun sources candidate => do
    (← expandCandidate candidate).foldlM (fun sources source =>
      if source.sourceId ∈ sources.map SourceDescriptor.sourceId then
        .error (.rangeError ("duplicate context source id: " ++ source.sourceId))
      else .ok (sources ++ [source])) sources) []

/-!
# Units

`chunkText` and `materializeUnits`: the text of a source is cut into units that an estimator finds small
enough, and every unit gets an id of its own.
-/

open Collections

/-- Why a unit has no place in the hierarchy. -/
inductive HierarchyIssue
  | parentMissing
  | hierarchyCycle
deriving DecidableEq

/-- A candidate unit. -/
structure ContextUnit where
  id : String
  sourceId : String
  memoryId : String
  text : String
  tokens : Nat
  kind : ContextKind
  parentId : Option String
  topic : String
  freshness : FreshnessStatus
  score : ℚ
  dedupeKey : String
  metadata : Option Json
  ordinal : Nat
  depth : Nat := 0
  phase : Nat := 0
  hierarchyIssue : Option HierarchyIssue := none

/-- The parts of a word so far, and the one that is being read. -/
structure WordParts where
  parts : List String := []
  part : String := ""

def WordParts.close (w : WordParts) (maxTokens : Nat) (estimator : TokenEstimator) :
    Except JsError WordParts := do
  if (← tokenCount w.part estimator) > maxTokens then return ⟨w.parts ++ [w.part], ""⟩
  return w

def WordParts.push (maxTokens : Nat) (estimator : TokenEstimator) (w : WordParts) (character : Char) :
    Except JsError WordParts := do
  let next := w.part ++ String.singleton character
  if w.part ≠ "" then
    if (← tokenCount next estimator) > maxTokens then
      return ← WordParts.close ⟨w.parts ++ [w.part], String.singleton character⟩ maxTokens estimator
  WordParts.close ⟨w.parts, next⟩ maxTokens estimator

def splitOversizedWord (word : String) (maxTokens : Nat) (estimator : TokenEstimator) :
    Except JsError (List String) := do
  let w ← word.toList.foldlM (WordParts.push maxTokens estimator) {}
  return if w.part ≠ "" then w.parts ++ [w.part] else w.parts

/-- The chunks so far, and the one that is being filled. -/
structure Chunks where
  chunks : List String := []
  current : String := ""

def Chunks.closed (c : Chunks) : List String :=
  if c.current ≠ "" then c.chunks ++ [c.current] else c.chunks

def Chunks.push (maxTokens : Nat) (estimator : TokenEstimator) (c : Chunks) (word : String) :
    Except JsError Chunks := do
  let candidate := if c.current = "" then word else c.current ++ " " ++ word
  if (← tokenCount candidate estimator) ≤ maxTokens then
    return { c with current := candidate }
  if (← tokenCount word estimator) ≤ maxTokens then return ⟨c.closed, word⟩
  return ⟨c.closed ++ (← splitOversizedWord word maxTokens estimator), ""⟩

/-- `chunkText(text, maxTokens, estimator)`, for a positive `maxTokens`. -/
def chunkText (text : String) (maxTokens : Nat) (estimator : TokenEstimator) :
    Except JsError (List String) :=
  if trim text = "" then .ok []
  else do
    let c ← (words (trim text)).foldlM (Chunks.push maxTokens estimator) {}
    return c.closed

/-- The first of `baseId`, `baseId~1`, `baseId~2`, … that is not in use. -/
def freshId (usedIds : OrderedSet String) (baseId : String) : String :=
  (((baseId :: (List.range usedIds.size).map (fun i => baseId ++ "~" ++ toString (i + 1))).find?
    (fun id => decide (id ∉ usedIds))).getD baseId)

/-- The pieces of a segment, each with its number of tokens. -/
def segmentPieces (sourceId : String) (segment : RawSegment) (chunkSizeTokens : Nat)
    (estimator : TokenEstimator) : Except JsError (List (String × Nat)) := do
  let text := trim segment.text
  if text ≠ "" ∧ segment.tokenCount = some 0 then
    .error (.rangeError (sourceId ++ ".tokenCount must be positive for non-empty text"))
  let estimated ← tokenCount text estimator
  -- A declared count that exceeds the size of a chunk is not used.
  let usable := segment.tokenCount.filter (fun declared => decide (declared ≤ chunkSizeTokens))
  let pieces ← if text = "" then pure []
    else if estimated ≤ chunkSizeTokens ∧ (segment.tokenCount.isNone ∨ usable.isSome) then pure [text]
    else chunkText text chunkSizeTokens estimator
  match pieces with
  | [] => return [("", 0)]
  | [piece] =>
    if piece = "" then return [("", 0)]
    match usable with
    | some declared => return [(piece, declared)]
    | none =>
      if piece = text then return [(piece, estimated)]
      return [(piece, ← tokenCount piece estimator)]
  | pieces => pieces.mapM (fun piece => do
      return (piece, ← if piece = "" then pure 0 else tokenCount piece estimator))

/-- The units that are there so far, and the ids in use. -/
structure Materialized where
  units : List ContextUnit := []
  usedIds : OrderedSet String := ∅

def baseIdOf (source : SourceDescriptor) (segment : RawSegment) (pieces index : Nat) : String :=
  if pieces = 1 ∧ segment.requestedId.isNone then source.sourceId
  else source.sourceId ++ "#" ++ segment.requestedId.getD (toString (index + 1))

def Materialized.push (host : Host) (source : SourceDescriptor) (segment : RawSegment) (pieces : Nat)
    (m : Materialized) (piece : (String × Nat) × Nat) : Materialized :=
  let id := freshId m.usedIds (baseIdOf source segment pieces piece.2)
  { units := m.units ++
      [{ id
         sourceId := source.sourceId
         memoryId := source.memoryId
         text := piece.1.1
         tokens := piece.1.2
         kind := segment.kind.getD source.kind
         parentId := segment.parentId <|> source.parentId
         topic := source.topic
         freshness := source.freshness
         score := source.score
         dedupeKey := normalizedDedupeKey host
           ((segment.dedupeKey <|> source.dedupeKey).getD piece.1.1)
         metadata := source.metadata
         ordinal := m.units.length }]
    usedIds := m.usedIds.add id }

def Materialized.segment (host : Host) (source : SourceDescriptor) (chunkSizeTokens : Nat)
    (estimator : TokenEstimator) (m : Materialized) (segment : RawSegment) :
    Except JsError Materialized := do
  let pieces ← segmentPieces source.sourceId segment chunkSizeTokens estimator
  return pieces.zipIdx.foldl (Materialized.push host source segment pieces.length) m

/-- `materializeUnits(source, chunkSizeTokens, estimator, startOrdinal, usedIds)`: a source without
    segments gets an empty one. -/
def materializeUnits (host : Host) (chunkSizeTokens : Nat) (estimator : TokenEstimator)
    (m : Materialized) (source : SourceDescriptor) : Except JsError Materialized :=
  let segments := if source.segments = [] then [{ text := "", tokenCount := some 0 }] else source.segments
  segments.foldlM (Materialized.segment host source chunkSizeTokens estimator) m

end Premise.ContextEngine
