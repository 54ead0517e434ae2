import Premise.ContextEngine.Selection

/-!
# `ContextEngine`

`select`: the checks of the request, the phases, and the report.
-/

namespace Premise.ContextEngine

open Collections Js

/-! ## Results -/

inductive SelectionReason
  | selected
  | skipped (reason : SelectionSkipReason)
deriving DecidableEq

inductive TraceDecision
  | selected
  | skipped
deriving DecidableEq

structure SelectionTraceEntry where
  id : String
  sourceId : String
  memoryId : String
  decision : TraceDecision
  reason : SelectionReason
  tokens : Nat
  kind : ContextKind
  topic : String
  freshness : FreshnessStatus
  score : ℚ
  phase : Nat
  parentId : Option String
  duplicateOf : Option String
  order : Option Nat

structure SelectedContextChunk where
  id : String
  sourceId : String
  memoryId : String
  text : String
  content : String
  tokens : Nat
  kind : ContextKind
  topic : String
  freshness : FreshnessStatus
  score : ℚ
  order : Nat
  parentId : Option String
  metadata : Option Json

structure ContextSelectionStats where
  candidateCount : Nat
  sourceCount : Nat
  chunkCount : Nat
  selectedChunkCount : Nat
  selectedSourceCount : Nat
  selectedTopicCount : Nat

structure ContextSelectionResult where
  selected : List SelectedContextChunk
  trace : List SelectionTraceEntry
  omitted : List SelectionTraceEntry
  tokenBudget : Nat
  usableTokenBudget : Nat
  reservedTokens : Nat
  tokensUsed : Nat
  remainingTokens : Int
  degraded : Bool
  degradationReasons : List DegradationReason
  stats : ContextSelectionStats

/-- The decision and the reason of a record; a pending one counts as out of budget. -/
def Decision.report : Decision → TraceDecision × SelectionReason
  | .pending => (.skipped, .skipped .budget)
  | .selected _ => (.selected, .selected)
  | .skipped reason _ => (.skipped, .skipped reason)

def Decision.duplicateOf : Decision → Option String
  | .skipped _ duplicateOf => duplicateOf
  | _ => none

def Decision.order : Decision → Option Nat
  | .selected order => some order
  | _ => none

def publicTrace (record : InternalTrace) : SelectionTraceEntry where
  id := record.unit.id
  sourceId := record.unit.sourceId
  memoryId := record.unit.memoryId
  decision := record.decision.report.1
  reason := record.decision.report.2
  tokens := record.unit.tokens
  kind := record.unit.kind
  topic := record.unit.topic
  freshness := record.unit.freshness
  score := record.unit.score
  phase := record.unit.phase
  parentId := record.unit.parentId
  duplicateOf := record.decision.duplicateOf
  order := record.decision.order

def publicSelected (unit : ContextUnit) (order : Nat) : SelectedContextChunk where
  id := unit.id
  sourceId := unit.sourceId
  memoryId := unit.memoryId
  text := unit.text
  content := unit.text
  tokens := unit.tokens
  kind := unit.kind
  topic := unit.topic
  freshness := unit.freshness
  score := unit.score
  order := order
  parentId := unit.parentId
  metadata := unit.metadata

def degradationReason : SelectionReason → Option DegradationReason
  | .selected => none
  | .skipped .empty => none
  | .skipped .budget => some .tokenBudget
  | .skipped .stale => some .freshnessGate
  | .skipped .expired => some .freshnessGate
  | .skipped .unknownFreshness => some .freshnessGate
  | .skipped .invalidFreshness => some .freshnessGate
  | .skipped .duplicate => some .deduplication
  | .skipped .parentNotSelected => some .hierarchy
  | .skipped .parentMissing => some .hierarchy
  | .skipped .hierarchyCycle => some .hierarchy
  | .skipped .maxChunks => some .limits
  | .skipped .maxSources => some .limits

def requestCandidates (request : ContextSelectionRequest) : List ContextCandidate :=
  (request.candidates <|> request.items <|> request.memories).getD []

def validatePositiveInteger (value : Number) (label : String) : Except JsError Nat :=
  match value.toNatural.filter (fun value => decide (value ≠ 0)) with
  | none => .error (.rangeError (label ++ " must be a positive integer"))
  | some value => .ok value

def validateNonNegativeInteger (value : Number) (label : String) : Except JsError Nat :=
  match value.toNatural with
  | none => .error (.rangeError (label ++ " must be a non-negative integer"))
  | some value => .ok value

def requestBudget (request : ContextSelectionRequest) : Except JsError Nat :=
  if disagree request.tokenBudget request.budget then
    .error (.rangeError "tokenBudget and budget disagree")
  else
    match request.tokenBudget <|> request.budget with
    | none => .error (.rangeError "tokenBudget is required")
    | some budget => validatePositiveInteger budget "tokenBudget"

def optionalLimit (value : Option Number) (label : String) : Except JsError (Option Nat) :=
  match value with
  | none => .ok none
  | some value => (validateNonNegativeInteger value label).map some

def requestLimits (chunkSize maxChunks maxSources diversityWeight : Option Number)
    (effectiveBudget : Nat) : Except JsError SelectionLimits := do
  let configuredChunkSize ←
    validatePositiveInteger (chunkSize.getD (.finite (min 512 (max 1 effectiveBudget) : Nat)))
      "chunkSizeTokens"
  let maxChunks ← optionalLimit maxChunks "maxChunks"
  let maxSources ← optionalLimit maxSources "maxSources"
  match (diversityWeight.getD (.finite (7 / 20))).toFinite.filter
      (fun weight => decide (0 ≤ weight ∧ weight ≤ 1)) with
  | none => .error (.rangeError "diversityWeight must be between 0 and 1")
  | some diversityWeight =>
    return { chunkSizeTokens := min configuredChunkSize (max 1 effectiveBudget)
             maxChunks, maxSources, diversityWeight }

def mergeGate (base override : Option FreshnessGate) (now : Option TimeValue) : FreshnessGate :=
  let base := base.getD {}
  let override := override.getD {}
  { allowStale := override.allowStale <|> base.allowStale
    allowStaleSummaries := override.allowStaleSummaries <|> base.allowStaleSummaries
    allowUnknown := override.allowUnknown <|> base.allowUnknown
    maxAgeMs := override.maxAgeMs <|> base.maxAgeMs
    now := now <|> override.now <|> base.now }

/-- The check of `maxAgeMs`. -/
def validGate (gate : FreshnessGate) : Bool :=
  gate.maxAgeMs.all (fun maxAgeMs => maxAgeMs.toFinite.any (fun maxAgeMs => decide (0 ≤ maxAgeMs)))

/-- What a request asks for, once it is checked. -/
structure CheckedRequest where
  tokenBudget : Nat
  reservedTokens : Nat
  limits : SelectionLimits
  estimator : TokenEstimator
  gate : FreshnessGate
  candidates : List ContextCandidate

def CheckedRequest.usableTokenBudget (c : CheckedRequest) : Nat := c.tokenBudget - c.reservedTokens

def checkRequest (options : ContextEngineOptions) (request : ContextSelectionRequest) :
    Except JsError CheckedRequest := do
  let tokenBudget ← requestBudget request
  let reservedTokens ←
    validateNonNegativeInteger (request.reservedTokens.getD (.finite 0)) "reservedTokens"
  if tokenBudget < reservedTokens then
    .error (.rangeError "reservedTokens cannot exceed tokenBudget")
  let limits ← requestLimits (request.chunkSizeTokens <|> options.chunkSizeTokens) request.maxChunks
    request.maxSources (request.diversityWeight <|> options.diversityWeight)
    (tokenBudget - reservedTokens)
  let gate := mergeGate options.freshnessGate request.freshnessGate request.now
  if validGate gate = false then
    .error (.rangeError "freshnessGate.maxAgeMs must be a non-negative finite number")
  return {
    tokenBudget, reservedTokens, limits, gate
    estimator := (request.tokenEstimator <|> options.tokenEstimator).getD defaultTokenEstimator
    candidates := requestCandidates request }

def sourceMap (sources : List SourceDescriptor) : Sources :=
  OrderedMap.ofList (sources.map (fun source => (source.sourceId, source)))

def candidateUnits (host : Host) (c : CheckedRequest) (sources : List SourceDescriptor) :
    Except JsError (List ContextUnit) := do
  let m ← sources.foldlM (materializeUnits host c.limits.chunkSizeTokens c.estimator) {}
  return placeUnits (sourceMap sources) m.units

def report (c : CheckedRequest) (sources : List SourceDescriptor) (records : Records) (s : Selecting) :
    ContextSelectionResult :=
  let trace := records.map publicTrace
  let omitted := trace.filter (fun entry => decide (entry.decision = .skipped))
  let reasons := unique (omitted.filterMap (fun entry => degradationReason entry.reason))
  { selected := s.selectedUnits.zipIdx.map (fun p => publicSelected p.1 p.2)
    trace, omitted
    tokenBudget := c.tokenBudget
    usableTokenBudget := c.usableTokenBudget
    reservedTokens := c.reservedTokens
    tokensUsed := s.tokensUsed
    remainingTokens := c.usableTokenBudget - s.tokensUsed
    degraded := decide (reasons ≠ [])
    degradationReasons := reasons
    stats :=
      { candidateCount := c.candidates.length
        sourceCount := sources.length
        chunkCount := records.length
        selectedChunkCount := s.selectedUnits.length
        selectedSourceCount := s.selectedSources.size
        selectedTopicCount := s.selectedTopics.size } }

def gateUnits (host : Host) (gate : FreshnessGate) (sources : Sources) (units : List ContextUnit) :
    Except JsError Gated :=
  units.foldlM (Gated.step host gate sources) { records := units.map (fun unit => ⟨unit, .pending⟩) }

def selectUnits (c : CheckedRequest) (sources : List SourceDescriptor) (g : Gated) :
    Except JsError ContextSelectionResult :=
  let ordered := orderedUnits g.deduplicated.values c.limits.diversityWeight
  let outcome := Selecting.run c.limits c.usableTokenBudget { records := g.records } ordered
  if c.usableTokenBudget < outcome.1.tokensUsed then
    .error (.error "context selection exceeded its token budget")
  else .ok (report c sources (finishRecords ordered outcome) outcome.1)

/-- `new ContextEngine(options).select(request)`. -/
def select (host : Host) (options : ContextEngineOptions) (request : ContextSelectionRequest) :
    Except JsError ContextSelectionResult := do
  let c ← checkRequest options request
  let sources ← collectSources c.candidates
  let units ← candidateUnits host c sources
  let g ← gateUnits host c.gate (sourceMap sources) units
  selectUnits c sources g

/-!
# What a selection promises

The selected units are candidate units that may be offered, in an order in which parents come first; they
stay within the budget and the limits, and every candidate unit is accounted for.
-/

def instantOf (host : Host) (value : Option TimeValue) : Option ℚ :=
  value.bind (fun value => match value with
    | .text value => host.dateParse value
    | .number value => value.toFinite)

def gateInstant (host : Host) (gate : FreshnessGate) (unit : ContextUnit) : ℚ :=
  (instantOf host gate.now).getD (host.now unit.ordinal)

def Outdated (host : Host) (gate : FreshnessGate) (source : SourceDescriptor) (now : ℚ) : Prop :=
  (∃ expiresAt, instantOf host source.expiresAt = some expiresAt ∧ expiresAt ≤ now) ∨
    ∃ maxAgeMs observedAt, gate.maxAgeMs = some (.finite maxAgeMs) ∧
      instantOf host source.observedAt = some observedAt ∧ maxAgeMs ≤ now - observedAt

def Allowed (gate : FreshnessGate) (kind : ContextKind) : FreshnessStatus → Prop
  | .fresh => True
  | .stale => gate.allowStale = some true ∨ (gate.allowStaleSummaries = some true ∧ kind = .summary)
  | .unknown => gate.allowUnknown = some true
  | .invalid => False

/-- The unit is offered with the freshness that it has at its instant, and may be. -/
structure PassesGate (host : Host) (gate : FreshnessGate) (source : SourceDescriptor)
    (unit : ContextUnit) (freshness : FreshnessStatus) : Prop where
  text : unit.text ≠ ""
  outdated : unit.freshness = .fresh → Outdated host gate source (gateInstant host gate unit) →
    freshness = .stale
  current : ¬ (unit.freshness = .fresh ∧ Outdated host gate source (gateInstant host gate unit)) →
    freshness = unit.freshness
  allowed : Allowed gate unit.kind freshness

/-- The unit is a candidate unit that passes the gate, with its freshness. -/
def Offered (host : Host) (gate : FreshnessGate) (sources : List SourceDescriptor)
    (units : List ContextUnit) (chosen : ContextUnit) : Prop :=
  ∃ unit ∈ units, chosen = { unit with freshness := chosen.freshness } ∧
    ∃ source ∈ sources, source.sourceId = unit.sourceId ∧
      PassesGate host gate source unit chosen.freshness

/-- The units that are selected, in their order. -/
structure SoundChoice (host : Host) (c : CheckedRequest) (sources : List SourceDescriptor)
    (units chosen : List ContextUnit) (tokensUsed : Nat) : Prop where
  offered : ∀ unit ∈ chosen, Offered host c.gate sources units unit
  tokens : (chosen.map ContextUnit.tokens).sum = tokensUsed
  budget : tokensUsed ≤ c.usableTokenBudget
  maxChunks : ∀ maxChunks, c.limits.maxChunks = some maxChunks → chosen.length ≤ maxChunks
  maxSources : ∀ maxSources, c.limits.maxSources = some maxSources →
    (chosen.map ContextUnit.sourceId).dedup.length ≤ maxSources
  dedupe : (chosen.map ContextUnit.dedupeKey).Nodup
  parents : ∀ (i : Nat) (unit : ContextUnit) parentId, chosen[i]? = some unit → unit.parentId = some parentId →
    ∃ (j : Nat) (parent : ContextUnit), j < i ∧ chosen[j]? = some parent ∧ parent.sourceId = parentId

/-- The entry says whether its unit is selected, or why not. -/
def Accounts (chosen : List ContextUnit) (entry : SelectionTraceEntry) : Prop :=
  (entry.decision = .selected ∧ entry.reason = .selected ∧ ∃ unit ∈ chosen, unit.id = entry.id) ∨
  (entry.decision = .skipped ∧ (∃ reason, entry.reason = .skipped reason) ∧
    ∀ unit ∈ chosen, unit.id ≠ entry.id)

/-- The report of a selection. -/
structure SoundReport (units chosen : List ContextUnit) (result : ContextSelectionResult) : Prop where
  selected : result.selected = chosen.zipIdx.map (fun p => publicSelected p.1 p.2)
  trace : result.trace.map SelectionTraceEntry.id = units.map ContextUnit.id
  distinct : (units.map ContextUnit.id).Nodup
  accounted : ∀ entry ∈ result.trace, Accounts chosen entry
  omitted : result.omitted = result.trace.filter (fun entry => decide (entry.decision = .skipped))

/-- What `select` returns is a sound selection from the candidate units of the request. -/
def SoundSelection (host : Host) (options : ContextEngineOptions) (request : ContextSelectionRequest)
    (result : ContextSelectionResult) : Prop :=
  ∃ c sources units chosen, checkRequest options request = .ok c ∧
    collectSources c.candidates = .ok sources ∧ candidateUnits host c sources = .ok units ∧
    result.usableTokenBudget = c.tokenBudget - c.reservedTokens ∧
    SoundChoice host c sources units chosen result.tokensUsed ∧ SoundReport units chosen result

end Premise.ContextEngine
