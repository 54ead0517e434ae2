import Premise.ContextEngine.Units
import Premise.Control.Loop

/-!
# The hierarchy of sources

`inspectSourceHierarchy` follows the parents of a source, and remembers what it has found. A source that is
met again while its own parents are followed is on a cycle.
-/

namespace Premise.ContextEngine

open Collections Js

abbrev Sources := OrderedMap String SourceDescriptor

structure HierarchyInfo where
  depth : Nat
  issue : Option HierarchyIssue
deriving DecidableEq

/-- What the recursion remembers. -/
structure HierarchyMemo where
  memo : OrderedMap String HierarchyInfo := ∅
  visiting : OrderedSet String := ∅

def HierarchyInfo.below (parent : HierarchyInfo) : HierarchyInfo :=
  match parent.issue with
  | none => ⟨parent.depth + 1, none⟩
  | some issue => ⟨0, some issue⟩

/-- `inspectSourceHierarchy(sourceId, sources, memo, states)`, at most `depth` calls deep. -/
def inspectSourceHierarchy (sources : Sources) :
    Nat → HierarchyMemo → String → HierarchyInfo × HierarchyMemo
  | 0, m, _ => (⟨0, some .hierarchyCycle⟩, m)
  | depth + 1, m, sourceId =>
    match m.memo.get? sourceId with
    | some cached => (cached, m)
    | none =>
      if sourceId ∈ m.visiting then (⟨0, some .hierarchyCycle⟩, m)
      else
        match sources.get? sourceId with
        | none =>
          let missing : HierarchyInfo := ⟨0, some .parentMissing⟩
          (missing, { m with memo := m.memo.set sourceId missing })
        | some source =>
          let m := { m with visiting := m.visiting.add sourceId }
          let inspected : HierarchyInfo × HierarchyMemo := match source.parentId with
            | none => (⟨0, none⟩, m)
            | some parentId =>
              if sources.has parentId then
                let parent := inspectSourceHierarchy sources depth m parentId
                (parent.1.below, parent.2)
              else (⟨0, some .parentMissing⟩, m)
          (inspected.1, ⟨inspected.2.memo.set sourceId inspected.1, inspected.2.visiting.erase sourceId⟩)

/-- `inspectSourceHierarchy` from outside. -/
def inspectHierarchy (sources : Sources) (m : HierarchyMemo) (sourceId : String) :
    HierarchyInfo × HierarchyMemo :=
  inspectSourceHierarchy sources (sources.size + 1) m sourceId

def unitHierarchy (sources : Sources) (m : HierarchyMemo) (unit : ContextUnit) :
    HierarchyInfo × HierarchyMemo :=
  match unit.parentId with
  | none => inspectHierarchy sources m unit.sourceId
  | some parentId =>
    if parentId = unit.sourceId then (⟨0, some .hierarchyCycle⟩, m)
    else
      let parent := inspectHierarchy sources m parentId
      (parent.1.below, parent.2)

def placeUnit (unit : ContextUnit) (hierarchy : HierarchyInfo) : ContextUnit :=
  { unit with
      depth := hierarchy.depth
      phase := hierarchy.depth * 2 + if unit.kind = .summary then 0 else 1
      hierarchyIssue := hierarchy.issue }

def placeUnits (sources : Sources) (units : List ContextUnit) : List ContextUnit :=
  (units.foldl (fun (p : List ContextUnit × HierarchyMemo) unit =>
    let hierarchy := unitHierarchy sources p.2 unit
    (p.1 ++ [placeUnit unit hierarchy.1], hierarchy.2)) ([], {})).1

/-!
# The order in which units are considered

`orderedUnits`: by phase, and within a phase by `compareUnits`; a diversity weight makes the topics of a
phase take turns.
-/

open Control

def compareUnits (left right : ContextUnit) : ℚ :=
  if left.kind ≠ right.kind then (if left.kind = .summary then -1 else 1)
  else if left.score ≠ right.score then right.score - left.score
  else if left.tokens ≠ right.tokens then left.tokens - right.tokens
  else left.ordinal - right.ordinal

/-- `units.sort(compareUnits)`. -/
def sortUnits (units : List ContextUnit) : List ContextUnit :=
  units.insertionSort (fun left right => compareUnits left right ≤ 0)

/-- The units by a key, in the order in which the keys occur. -/
def groupBy {κ : Type} [DecidableEq κ] (key : ContextUnit → κ) (units : List ContextUnit) :
    OrderedMap κ (List ContextUnit) :=
  units.foldl (fun groups unit =>
    groups.set (key unit) ((groups.get? (key unit)).getD [] ++ [unit])) ∅

/-- The groups whose turn it is, with what they have left, and the units so far. -/
structure Turns where
  groups : List (List ContextUnit)
  ordered : List ContextUnit := []

def Turns.next (t : Turns) : Turns where
  groups := t.groups.map List.tail
  ordered := t.ordered ++ t.groups.filterMap List.head?

def turnsBody (t : Turns) : Step Turns (List ContextUnit) :=
  if (t.groups.map List.length).sum = 0 then .done t.ordered else .again t.next

def takeTurns (groups : List (List ContextUnit)) : List ContextUnit :=
  (run turnsBody ((groups.map List.length).sum + 1) ⟨groups, []⟩).getD []

/-- The first unit of a group is not after that of another one. -/
def FirstLe (left right : List ContextUnit) : Prop :=
  ∀ l ∈ left.head?, ∀ r ∈ right.head?, compareUnits l r ≤ 0

instance : DecidableRel FirstLe := fun left right =>
  inferInstanceAs (Decidable (∀ l ∈ left.head?, ∀ r ∈ right.head?, compareUnits l r ≤ 0))

/-- The groups of the topics, in the order of their first units. -/
def sortGroups (groups : List (List ContextUnit)) : List (List ContextUnit) :=
  groups.insertionSort FirstLe

def orderStage (diversityWeight : ℚ) (stage : List ContextUnit) : List ContextUnit :=
  if diversityWeight ≤ 0 then sortUnits stage
  else takeTurns (sortGroups (groupBy ContextUnit.topic (sortUnits stage)).values)

def orderedUnits (units : List ContextUnit) (diversityWeight : ℚ) : List ContextUnit :=
  let stages := groupBy ContextUnit.phase units
  (stages.keys.insertionSort (fun left right => left ≤ right)).flatMap
    (fun stageKey => orderStage diversityWeight ((stages.get? stageKey).getD []))

/-!
# Selection

The gate, the deduplication and the selection of units. What is decided about a unit is kept in its trace
record.
-/

/-- What has been decided about a unit. -/
inductive Decision
  | pending
  | selected (order : Nat)
  | skipped (reason : SelectionSkipReason) (duplicateOf : Option String)
deriving DecidableEq

structure InternalTrace where
  unit : ContextUnit
  decision : Decision

abbrev Records := List InternalTrace

namespace Records

/-- `recordsById.get(unitId)`. -/
def decisionOf (records : Records) (unitId : String) : Option Decision :=
  (records.find? (fun r => decide (r.unit.id = unitId))).map InternalTrace.decision

def settle (records : Records) (unitId : String) (decision : Decision) : Records :=
  records.map (fun r => if r.unit.id = unitId then { r with decision } else r)

def refresh (records : Records) (unit : ContextUnit) : Records :=
  records.map (fun r => if r.unit.id = unit.id then { r with unit } else r)

end Records

/-- `gateUnit(unit, source, gate)`: the reason to skip the unit, and the unit. -/
def gateUnit (host : Host) (gate : FreshnessGate) (source : SourceDescriptor) (unit : ContextUnit) :
    Except JsError (Option SelectionSkipReason × ContextUnit) :=
  if unit.text = "" then .ok (some .empty, unit)
  else if unit.freshness = .invalid then .ok (some .invalidFreshness, unit)
  else do
    let now := (← timeMillis host gate.now "freshnessGate.now").getD (host.now unit.ordinal)
    let expiresAt ← timeMillis host source.expiresAt (source.sourceId ++ ".expiresAt")
    let observedAt ← timeMillis host source.observedAt (source.sourceId ++ ".observedAt")
    let expired := expiresAt.any (fun expiresAt => decide (expiresAt ≤ now))
    let tooOld := (gate.maxAgeMs.bind Number.toFinite).any (fun maxAgeMs =>
      observedAt.any (fun observedAt => decide (maxAgeMs ≤ now - observedAt)))
    let freshness := if unit.freshness = .fresh ∧ (expired ∨ tooOld) then .stale else unit.freshness
    let unit := { unit with freshness }
    if freshness = .stale ∧ gate.allowStale ≠ some true
        ∧ ¬ (gate.allowStaleSummaries = some true ∧ unit.kind = .summary) then
      return (some (if expired ∨ tooOld then .expired else .stale), unit)
    else if freshness = .unknown ∧ gate.allowUnknown ≠ some true then
      return (some .unknownFreshness, unit)
    else return (none, unit)

def betterDuplicate (left right : ContextUnit) : Bool :=
  if left.score ≠ right.score then decide (right.score < left.score)
  else if left.depth ≠ right.depth then decide (left.depth < right.depth)
  else if left.kind ≠ right.kind then decide (left.kind = .summary)
  else decide (left.ordinal < right.ordinal)

structure Gated where
  records : Records
  deduplicated : OrderedMap String ContextUnit := ∅

def HierarchyIssue.reason : HierarchyIssue → SelectionSkipReason
  | .parentMissing => .parentMissing
  | .hierarchyCycle => .hierarchyCycle

/-- A unit that has passed the gate is compared with the one that has its key. -/
def Gated.deduplicate (g : Gated) (unit : ContextUnit) : Gated :=
  match g.deduplicated.get? unit.dedupeKey with
  | none => { g with deduplicated := g.deduplicated.set unit.dedupeKey unit }
  | some previous =>
    if betterDuplicate unit previous then
      { records := g.records.settle previous.id (.skipped .duplicate (some unit.id))
        deduplicated := g.deduplicated.set unit.dedupeKey unit }
    else { g with records := g.records.settle unit.id (.skipped .duplicate (some previous.id)) }

def Gated.enter (g : Gated) (reason : Option SelectionSkipReason) (unit : ContextUnit) : Gated :=
  let g := { g with records := g.records.refresh unit }
  match reason <|> unit.hierarchyIssue.map HierarchyIssue.reason with
  | some reason => { g with records := g.records.settle unit.id (.skipped reason none) }
  | none => g.deduplicate unit

def Gated.step (host : Host) (gate : FreshnessGate) (sources : Sources) (g : Gated) (unit : ContextUnit) :
    Except JsError Gated :=
  match sources.get? unit.sourceId with
  | none => .error (.typeError "Cannot read properties of undefined (reading 'expiresAt')")
  | some source => (gateUnit host gate source unit).map (fun p => g.enter p.1 p.2)

structure SelectionLimits where
  chunkSizeTokens : Nat
  maxChunks : Option Nat
  maxSources : Option Nat
  diversityWeight : ℚ

structure Selecting where
  records : Records
  selectedUnits : List ContextUnit := []
  selectedSources : OrderedSet String := ∅
  selectedTopics : OrderedSet String := ∅
  tokensUsed : Nat := 0

namespace Selecting

def skip (s : Selecting) (unit : ContextUnit) (reason : SelectionSkipReason) : Selecting :=
  { s with records := s.records.settle unit.id (.skipped reason none) }

def select (s : Selecting) (unit : ContextUnit) : Selecting where
  records := s.records.settle unit.id (.selected s.selectedUnits.length)
  selectedUnits := s.selectedUnits ++ [unit]
  selectedSources := s.selectedSources.add unit.sourceId
  selectedTopics := s.selectedTopics.add unit.topic
  tokensUsed := s.tokensUsed + unit.tokens

def consider (limits : SelectionLimits) (usableTokenBudget : Nat) (s : Selecting) (unit : ContextUnit) :
    Selecting :=
  if unit.parentId.any (fun parentId => decide (parentId ∉ s.selectedSources)) then
    s.skip unit .parentNotSelected
  else if unit.sourceId ∉ s.selectedSources
      ∧ limits.maxSources.any (fun maxSources => decide (maxSources ≤ s.selectedSources.size)) then
    s.skip unit .maxSources
  else if (usableTokenBudget : Int) - s.tokensUsed < unit.tokens then s.skip unit .budget
  else s.select unit

/-- The loop over the ordered units, with whether it ended at the number of chunks. -/
def run (limits : SelectionLimits) (usableTokenBudget : Nat) :
    Selecting → List ContextUnit → Selecting × Bool
  | s, [] => (s, false)
  | s, unit :: rest =>
    if s.records.decisionOf unit.id ≠ some .pending then run limits usableTokenBudget s rest
    else if limits.maxChunks.any (fun maxChunks => decide (maxChunks ≤ s.selectedUnits.length)) then
      (s, true)
    else run limits usableTokenBudget (s.consider limits usableTokenBudget unit) rest

end Selecting

def skipPending (reason : SelectionSkipReason) (records : Records) (units : List ContextUnit) : Records :=
  units.foldl (fun records unit =>
    if records.decisionOf unit.id = some .pending then
      records.settle unit.id (.skipped reason none) else records) records

def finishRecords (ordered : List ContextUnit) (outcome : Selecting × Bool) : Records :=
  let records := if outcome.2 then skipPending .maxChunks outcome.1.records ordered else outcome.1.records
  records.map (fun r => if r.decision = .pending then { r with decision := .skipped .budget none } else r)

end Premise.ContextEngine
