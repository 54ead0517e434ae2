import Premise.RuntimeCore.Mutations

/-!
# Actions

What a runtime answers before a connector is asked to commit.
-/

namespace Premise.RuntimeCore

open Collections Control FrontierEngine Js Protocol

inductive ActionRefusal
  | versionMismatch
  | reject
  | revalidate
  | casRequired
deriving DecidableEq

namespace PremiseRuntime

variable {P K : Type} (host : RuntimeHost) (o : RuntimeOptions P K)

/-- `revalidateAndAct(memoryId, request)` until the connector is asked to commit, with the record that it is given,
or why it is not asked. -/
def revalidateAndAct (memoryId expectedVersion : String) (commits : Bool) :
    RuntimeCommand (Except ActionRefusal RuntimeRecord) := do
  let record ← require o memoryId
  let versions := record.envelope.evidence.filterMap (fun evidence => evidence.version.map VersionReference.token)
  if versions = [] ∨ ∃ version ∈ versions, version ≠ expectedVersion then return .error .versionMismatch
  let status := record.envelope.validity.status
  emitDecision host o { memoryId, status, decision := usability status }
  match usability status with
  | .reject => return .error .reject
  | .revalidate => return .error .revalidate
  | .usable => return if commits then .ok record else .error .casRequired

end PremiseRuntime

/-!
# What a session exchanges with its adapter

The premises of a session, the observations of its adapter, and the results of actions.
-/

/-- A premise; a runtime whose principal is of another tenant has no record to show. -/
structure PremiseSessionPremise where
  memoryId : String
  record : Option RuntimeRecord

structure PremiseSessionDeriveInput where
  claim : String
  premises : List PremiseSessionPremise

structure PremiseSessionObservation where
  tenantId : String
  resource : String
  value : Json
  version : Option VersionReference
  observedAt : String
  evidence : List EvidenceReference
  memoryId : Option String := none

structure PremiseSessionAction where
  premise : PremiseSessionPremise
  action : Json
  resource : Option String := none
  expectedVersion : Option VersionReference := none

structure PremisePreparedAction where
  premise : PremiseSessionPremise
  resource : String
  action : Json

def PremisePreparedAction.input (prepared : PremisePreparedAction) : PremiseSessionAction where
  premise := prepared.premise
  action := prepared.action
  resource := some prepared.resource

/-- What a conditional action is given: the record, and the request. -/
structure ConditionalCommit where
  record : RuntimeRecord
  resource : String
  expectedVersion : VersionReference
  action : Json

structure RuntimeActionCommitResult where
  accepted : Bool
  reason : Option ActionRefusal := none
  observedVersion : Option String := none
  result : Option Json := none

structure RuntimeActionResult where
  accepted : Bool
  memoryId : String
  expectedVersion : String
  reason : Option ActionRefusal := none
  observedVersion : Option String := none
  result : Option Json := none

inductive AdapterRefusal
  | versionMismatch
  | reject
  | unknown
deriving DecidableEq

inductive PremiseGuardedWriteCode
  | staleSource
  | validationUnavailable
  | actionNotAtomic
  | policyDenied
  | idempotencyConflict
deriving DecidableEq

inductive PremiseGuardedWriteResult
  | committed (memoryId expectedVersion : String) (result : Option Json)
  | blocked (code : PremiseGuardedWriteCode) (message : String) (memoryId expectedVersion observedVersion : Option String)
      (retryable : Bool)

def guardedWriteCode : Option ActionRefusal → PremiseGuardedWriteCode
  | some .versionMismatch => .staleSource
  | some .revalidate => .staleSource
  | some .casRequired => .actionNotAtomic
  | some .reject => .policyDenied
  | none => .validationUnavailable

def blockedMessage : Option ActionRefusal → String
  | some .versionMismatch => "The source changed before the conditional action was accepted."
  | some .casRequired => "The adapter does not expose an atomic conditional action."
  | some .reject => "The current premise or policy does not allow this action."
  | _ => "PREMiSE could not prove that the action was safe to commit."

def guardedWriteResult (result : RuntimeActionResult) : PremiseGuardedWriteResult :=
  if result.accepted then .committed result.memoryId result.expectedVersion result.result
  else .blocked (guardedWriteCode result.reason) (blockedMessage result.reason) (some result.memoryId)
    (some result.expectedVersion) result.observedVersion
    (decide (result.reason = some .versionMismatch ∨ result.reason = some .revalidate))

/-!
# `PremiseSession`

A façade over a runtime of the session's tenant. What its adapter answers is a parameter: a call goes on once the
answer is there.
-/

def required (value name : String) : Except RuntimeError String :=
  if nonEmpty value then .ok value else .error (.typeError (name ++ " must be a non-empty string"))

def sessionMemoryId (host : RuntimeHost) (kind : String) (parts : List String) : String :=
  kind ++ ":" ++ host.sha256 (String.intercalate "\x00" parts)

def evidenceVersion (record : RuntimeRecord) : Except RuntimeError VersionReference :=
  let versions := record.envelope.evidence.filterMap EvidenceReference.version
  match versions with
  | [] => .error (.error "Action requires one consistent evidence version")
  | first :: _ =>
    if ∃ version ∈ versions, version ≠ first then .error (.error "Action requires one consistent evidence version")
    else .ok first

def matchesEvidenceVersion (record : RuntimeRecord) (expected : VersionReference) : Prop :=
  record.envelope.evidence ≠ [] ∧ ∀ evidence ∈ record.envelope.evidence, evidence.version = some expected

instance (record : RuntimeRecord) (expected : VersionReference) : Decidable (matchesEvidenceVersion record expected) :=
  inferInstanceAs (Decidable (_ ∧ _))

def derivedRecord (host : RuntimeHost) (tenant claim : String) (sources : List RuntimeRecord) : RuntimeRecord :=
  let dependsOn := unique (sources.map (fun source => source.envelope.memoryId))
  let items := sources.flatMap (fun source => source.envelope.evidence)
  let evidence := (OrderedMap.ofList (items.map (fun item => (item.evidenceId, item)))).values
  let asOf := ((sortStrings (sources.map (fun source => source.envelope.temporal.asOf))).getLast?).getD ""
  { envelope := {
      tenantId := tenant
      memoryId := sessionMemoryId host "session:derived" (tenant :: claim :: dependsOn)
      evidence
      confidence := { score := none, method := "session-derive", assessedAt := some asOf }
      conflicts := []
      temporal := { asOf }
      validity := { status := .fresh, policy := .manual, checkedAt := asOf }
      dependsOn
      signatures := [] }
    content := .string claim }

namespace PremiseSession

variable {P K : Type} (host : RuntimeHost) (o : RuntimeOptions P K)

def premiseOf (memoryId : String) : RuntimeCommand PremiseSessionPremise := do
  let record ← PremiseRuntime.get o.principalTenant memoryId
  return { memoryId, record }

/-- The current record of a premise that a memory is derived from. -/
def currentSource (premise : PremiseSessionPremise) : RuntimeCommand RuntimeRecord := do
  .rejectIf (premise.memoryId = "" ∨ premise.record.map (fun record => record.envelope.memoryId) ≠ some premise.memoryId)
    (.typeError "from contains an invalid premise")
  match (← PremiseRuntime.get o.principalTenant premise.memoryId) with
  | some current => return current
  | none => .throw (.error ("Premise is not registered in this session: " ++ premise.memoryId))

def derive (input : PremiseSessionDeriveInput) : RuntimeCommand PremiseSessionPremise := do
  .rejectIf (nonEmpty input.claim = false) (.typeError "claim must be a non-empty string")
  .rejectIf (input.premises = []) (.typeError "from must contain at least one premise")
  let sources ← Command.mapEach (currentSource o) input.premises
  let record := derivedRecord host o.tenantId input.claim sources
  let memoryId := record.envelope.memoryId
  PremiseRuntime.derive host o record (some ("session:derive:" ++ memoryId))
  premiseOf o memoryId

/-- The result of an action for which the connector is not asked. -/
def refusedAction (memoryId expectedVersion : String) (reason : ActionRefusal) : RuntimeActionResult where
  accepted := false
  memoryId := memoryId
  expectedVersion := expectedVersion
  reason := some reason

/-- The resource that an action names, else the first source. -/
def namedResource (current : RuntimeRecord) : Option String → Except RuntimeError (Option String)
  | none => .ok (current.envelope.evidence.head?.map EvidenceReference.sourceUri)
  | some resource => (required resource "resource").map some

def actionResource (current : RuntimeRecord) (resource : Option String) : Except RuntimeError String := do
  let resource ← namedResource current resource
  match resource.filter (fun resource => current.envelope.evidence.any (fun evidence => evidence.sourceUri = resource)) with
  | some resource => return resource
  | none => throw (RuntimeError.error "Action resource must be present in the premise evidence")

/-- `act(input)` until the adapter's `conditionalAction` is called, with what it is given. -/
def act (conditionalAction : Bool) (input : PremiseSessionAction) :
    RuntimeCommand (Except RuntimeActionResult ConditionalCommit) := do
  let memoryId := input.premise.memoryId
  match input.premise.record with
  | none => .throw (.typeError "Cannot read properties of undefined (reading 'envelope')")
  | some record => do
    .rejectIf (record.envelope.memoryId ≠ memoryId) (.typeError "act requires a registered premise")
    .rejectIf (conditionalAction = false)
      (.error "Adapter does not provide a conditionalAction; PREMiSE will not execute an unguarded action")
    match (← PremiseRuntime.get o.principalTenant memoryId) with
    | none => .throw (.error ("Premise is not registered in this session: " ++ memoryId))
    | some current => do
      let expectedVersion ← .lift (match input.expectedVersion with
        | some version => .ok version
        | none => evidenceVersion current)
      if matchesEvidenceVersion current expectedVersion then do
        let resource ← .lift (actionResource current input.resource)
        match (← PremiseRuntime.revalidateAndAct host o memoryId expectedVersion.token true) with
        | .error reason => return .error (refusedAction memoryId expectedVersion.token reason)
        | .ok record => return .ok { record, resource, expectedVersion, action := input.action }
      else return .error (refusedAction current.envelope.memoryId expectedVersion.token .versionMismatch)

def messageOf : RuntimeError → String
  | .thrown error => error.message
  | .invalid issues => "Invalid PREMiSE v2 contract (" ++ toString issues.length
      ++ (if issues.length = 1 then " issue)" else " issues)")
  | .signature issues => "Invalid PREMiSE v2 signature set (" ++ toString issues.length
      ++ (if issues.length = 1 then " issue)" else " issues)")

/-- `/conditionalAction|conditional action|CAS/i.test(message)`. -/
def namesConditionalAction (message : String) : Bool :=
  let text := message.toList.map Char.toLower
  ["conditionalaction", "conditional action", "cas"].any (fun word => decide (word.toList <:+: text))

def failedWrite (memoryId : String) (e : RuntimeError) : PremiseGuardedWriteResult :=
  .blocked (if namesConditionalAction (messageOf e) then .actionNotAtomic else .validationUnavailable) (messageOf e)
    (some memoryId) none none false

/-- `commitIfFresh()` of a prepared action, until the adapter's `conditionalAction` is called. -/
def commitIfFresh (conditionalAction : Bool) (prepared : PremisePreparedAction) :
    RuntimeCommand (Except PremiseGuardedWriteResult ConditionalCommit) := fun w =>
  match act host o conditionalAction prepared.input w with
  | (w', .error e) => (w', .ok (.error (failedWrite prepared.premise.memoryId e)))
  | (w', .ok (.error result)) => (w', .ok (.error (guardedWriteResult result)))
  | (w', .ok (.ok commit)) => (w', .ok (.ok commit))

end PremiseSession

end Premise.RuntimeCore
