import Premise.Control.System
import Premise.Protocol.Envelope
import Premise.ValidationScope.Scope

/-!
# `FencedSingleFlightCoordinator`

Flights are listed in the order in which they were started, and known by their place in the list. The
calls of the coordinator, the reactions to aborts and timers, and the jobs of a flight are separate
operations.
-/

namespace Premise.SingleFlight

open Collections Js Protocol ValidationScope

inductive FencedValidationResult
  | unchanged
  | changed
  | missing
  | unknown
deriving DecidableEq

inductive UnknownReason
  | timeout
  | aborted
  | fenced
  | sourceUnknown
deriving DecidableEq

structure FencedValidationOutcome (T : Type) where
  result : FencedValidationResult
  fencingToken : Nat
  value : Option T := none
  version : Option VersionReference := none
  reason : Option UnknownReason := none
deriving DecidableEq

/-- Texts that are not given, or are not strings, are `none`. A number that is not finite stands as a
    negative one. -/
structure FencedValidationRequest where
  scope : Option PremiseValidationScope := none
  tenantId : Option String := none
  resource : Option String := none
  expectedVersion : Option VersionReference := none
  /-- Whether a signal is given, and has been aborted. -/
  aborted : Option Bool := none
  timeoutMs : Option Int := none

structure NormalizedRequest where
  tenantId : String
  resource : String
  expectedVersion : VersionReference
  scope : Option PremiseValidationScope
  aborted : Option Bool
  timeoutMs : Option Int
deriving DecidableEq

/-- `required(value, name)` of the coordinator. -/
def required (value : Option String) (name : String) : Except JsError String :=
  match value with
  | some value =>
    if nonEmpty value then .ok value else .error (.typeError (name ++ " must be a non-empty string"))
  | none => .error (.typeError (name ++ " must be a non-empty string"))

def checkTimeout (timeoutMs : Option Int) : Except JsError Unit :=
  if timeoutMs.any (fun timeoutMs => decide (timeoutMs < 0)) then
    .error (.rangeError "timeoutMs must be a finite non-negative number")
  else .ok ()

def requiredOr (value : Option String) (name field : String) : Except JsError String :=
  if value = none then .ok field else required value name

def normalizeRequest (request : FencedValidationRequest) : Except JsError NormalizedRequest :=
  match request.scope with
  | some scope => do
    let scope ← normalizePremiseValidationScope scope
    let tenantId ← requiredOr request.tenantId "tenantId" scope.tenantId
    let resource ← requiredOr request.resource "resource" scope.resourceId
    let scheme ← requiredOr (request.expectedVersion.map (fun v => v.scheme))
      "expectedVersion.scheme" scope.versionScheme
    let token ← requiredOr (request.expectedVersion.map (fun v => v.token))
      "expectedVersion.token" scope.versionToken
    if tenantId ≠ scope.tenantId ∨ resource ≠ scope.resourceId ∨ scheme ≠ scope.versionScheme
        ∨ token ≠ scope.versionToken then
      .error (.typeError "validation request fields do not match its complete scope")
    else
      checkTimeout request.timeoutMs
      .ok ⟨tenantId, resource, ⟨scheme, token⟩, some scope, request.aborted, request.timeoutMs⟩
  | none => do
    let tenantId ← required request.tenantId "tenantId"
    let resource ← required request.resource "resource"
    let scheme ← required (request.expectedVersion.map (fun v => v.scheme)) "expectedVersion.scheme"
    let token ← required (request.expectedVersion.map (fun v => v.token)) "expectedVersion.token"
    checkTimeout request.timeoutMs
    .ok ⟨tenantId, resource, ⟨scheme, token⟩, none, request.aborted, request.timeoutMs⟩

def resourceKey (tenantId resource : String) : String :=
  String.ofList (jsonArray jsonString [tenantId, resource])

/-- `unknown(fencingToken, reason)`. -/
def unknownOutcome {T : Type} (fencingToken : Nat) (reason : UnknownReason) :
    FencedValidationOutcome T where
  result := .unknown
  fencingToken := fencingToken
  reason := some reason

/-- How the operation of a flight ends: with what the source answers (`none` where that is no object),
    or with an error, which may look like an abort. -/
inductive OperationResult (T : Type)
  | outcome (outcome : Option (FencedValidationOutcome T))
  | threw (abortLike : Bool)
deriving DecidableEq

inductive FlightPhase (T : Type)
  /-- The operation is to start. -/
  | scheduled
  /-- The source has been called. -/
  | calling
  | returned (result : OperationResult T)
  /-- The reaction to the result has run, and the flight is to be cleaned up. -/
  | handled
  | finished
deriving DecidableEq

/-- How the public promise of a flight is settled. -/
inductive Settlement (T : Type)
  | outcome (outcome : FencedValidationOutcome T)
  | rejected
deriving DecidableEq

structure Flight (T : Type) where
  request : NormalizedRequest
  key : String
  resourceKey : String
  supersessionKey : String
  fencingToken : Nat
  timeoutTriggered : Bool := false
  abortTriggered : Bool := false
  settled : Option (Settlement T) := none
  phase : FlightPhase T := .scheduled

structure CurrentResourceVersion where
  supersessionKey : String
  fencingToken : Nat
deriving DecidableEq

structure Coordinator (T : Type) where
  /-- Every flight that was started. -/
  started : List (Flight T) := []
  flights : OrderedMap String Nat := ∅
  latestByResource : OrderedMap String CurrentResourceVersion := ∅
  nextFencingToken : Nat := 0
  legacyFlight : Nat := 0
  defaultTimeoutMs : Option Int := none

namespace Flight

variable {T : Type}

def settle (f : Flight T) (outcome : FencedValidationOutcome T) : Flight T :=
  if f.settled.isSome then f else { f with settled := some (.outcome outcome) }

def fail (f : Flight T) : Flight T :=
  if f.settled.isSome then f else { f with settled := some .rejected }

/-- `abortAsUnknown("ABORTED")`. -/
def abort (f : Flight T) : Flight T :=
  if f.settled.isSome then f
  else settle { f with abortTriggered := true } (unknownOutcome f.fencingToken .aborted)

/-- `abortAsUnknown("TIMEOUT")`. -/
def timeout (f : Flight T) : Flight T :=
  if f.settled.isSome then f
  else settle { f with timeoutTriggered := true } (unknownOutcome f.fencingToken .timeout)

def operate (f : Flight T) : Flight T :=
  if f.abortTriggered || f.timeoutTriggered then
    let reason := if f.abortTriggered then UnknownReason.aborted else .timeout
    { f with phase := .returned (.outcome (some (unknownOutcome f.fencingToken reason))) }
  else { f with phase := .calling }

/-- The reaction to the result of the operation, with the latest version of the resource. -/
def handle (f : Flight T) (latest : Option CurrentResourceVersion) (result : OperationResult T) :
    Flight T :=
  let f := { f with phase := .handled }
  if f.settled.isSome then f
  else
    match result with
    | .outcome outcome =>
      if latest ≠ some ⟨f.supersessionKey, f.fencingToken⟩ then
        f.settle (unknownOutcome f.fencingToken .fenced)
      else
        match outcome with
        | none => f
        | some outcome =>
          if outcome.fencingToken ≠ f.fencingToken then
            f.settle (unknownOutcome f.fencingToken .fenced)
          else f.settle outcome
    | .threw abortLike =>
      if f.timeoutTriggered then f.settle (unknownOutcome f.fencingToken .timeout)
      else if f.abortTriggered || abortLike then f.settle (unknownOutcome f.fencingToken .aborted)
      else f.fail

end Flight

namespace Coordinator

variable {T : Type}

def modify (c : Coordinator T) (i : Nat) (g : Flight T → Flight T) : Coordinator T :=
  { c with started := c.started.modify i g }

/-- The fencing token of a flight, and the last token that is in use with it. -/
def fencingTokenFor (c : Coordinator T) (resource supersession : String) : Nat × Nat :=
  match c.latestByResource.get? resource with
  | some current =>
    if current.supersessionKey = supersession then (current.fencingToken, c.nextFencingToken)
    else (c.nextFencingToken + 1, c.nextFencingToken + 1)
  | none => (c.nextFencingToken + 1, c.nextFencingToken + 1)

def start (c : Coordinator T) (request : NormalizedRequest) (key supersession : String) :
    Coordinator T :=
  let resource := resourceKey request.tenantId request.resource
  let token := c.fencingTokenFor resource supersession
  let flight : Flight T := {
    request := request
    key := key
    resourceKey := resource
    supersessionKey := supersession
    fencingToken := token.1 }
  { c with
    started := c.started ++ [if request.aborted = some true then flight.abort else flight]
    flights := c.flights.set key c.started.length
    latestByResource := c.latestByResource.set resource ⟨supersession, token.1⟩
    nextFencingToken := token.2 }

/-- `validate(input)`: the flight whose promise is returned. -/
def validate (digest : String → String) (c : Coordinator T) (input : FencedValidationRequest) :
    Coordinator T × Except JsError Nat :=
  match normalizeRequest input with
  | .error err => (c, .error err)
  | .ok request =>
    match request.scope with
    | none =>
      let c := { c with legacyFlight := c.legacyFlight + 1 }
      let key := "legacy-isolated:" ++ toString c.legacyFlight
      match c.flights.get? key with
      | some i => (c, .ok i)
      | none => (c.start request key key, .ok c.started.length)
    | some scope =>
      match premiseValidationScopeKey digest scope with
      | .error err => (c, .error err)
      | .ok key =>
        match c.flights.get? key with
        | some i => (c, .ok i)
        | none =>
          match premiseValidationSupersessionKey digest scope with
          | .error err => (c, .error err)
          | .ok supersession => (c.start request key supersession, .ok c.started.length)

/-- The reaction to the result of the operation of the flight `i`. -/
def handle (c : Coordinator T) (i : Nat) (f : Flight T) (result : OperationResult T) :
    Coordinator T :=
  c.modify i (fun _ => f.handle (c.latestByResource.get? f.resourceKey) result)

/-- The `finally` of the flight `i`. -/
def cleanUp (c : Coordinator T) (i : Nat) (f : Flight T) : Coordinator T :=
  let flights := if c.flights.get? f.key = some i then c.flights.erase f.key else c.flights
  let anotherFlightForResource := flights.values.any (fun j =>
    (c.started[j]?).any (fun other => decide (other.resourceKey = f.resourceKey)))
  let c' := c.modify i (fun f => { f with phase := .finished })
  { c' with
    flights := flights
    latestByResource :=
      if anotherFlightForResource then c.latestByResource
      else c.latestByResource.erase f.resourceKey }

end Coordinator

/-!
# What a fenced single flight promises

The calls, the aborts and timers, and the jobs of the flights in any order, watched from outside: which
request was given which flight, how many requests had been made when the source of a flight settled,
and for which flights the source was called.
-/

open Control

structure Watched (T : Type) where
  coordinator : Coordinator T
  /-- The requests in their order, each with the flight whose promise it was given. -/
  requests : List (NormalizedRequest × Nat) := []
  /-- How many requests had been made when the source validation of a flight settled. -/
  sourceSettled : Nat → Option Nat := fun _ => none
  sourceCalls : List Nat := []

inductive FlightStep (T : Type)
  | validate (input : FencedValidationRequest)
  | abort (i : Nat)
  | timeout (i : Nat)
  | operate (i : Nat)
  | sourceSettles (i : Nat) (result : OperationResult T)
  | handle (i : Nat)
  | cleanUp (i : Nat)

variable {T : Type}

/-- The flight `i`. -/
def Watched.flight? (w : Watched T) (i : Nat) : Option (Flight T) := w.coordinator.started[i]?

def Watched.modify (w : Watched T) (i : Nat) (g : Flight T → Flight T) : Watched T :=
  { w with coordinator := w.coordinator.modify i g }

def NormalizedRequest.texts (request : NormalizedRequest) : Set String :=
  fun text => ∃ scope ∈ request.scope,
    text = String.ofList (scopeText scope) ∨ text = String.ofList (supersessionText scope)

/-- The steps of a coordinator that is called with requests whose digested texts are among `texts`. -/
inductive Step (digest : String → String) (texts : Set String) (w : Watched T) :
    FlightStep T → Watched T → Prop
  | validate {input : FencedValidationRequest} {request : NormalizedRequest} {c : Coordinator T}
      {i : Nat} : normalizeRequest input = .ok request → request.texts ⊆ texts →
      w.coordinator.validate digest input = (c, .ok i) →
      Step digest texts w (.validate input)
        { w with coordinator := c, requests := w.requests ++ [(request, i)] }
  | refuse {input : FencedValidationRequest} {c : Coordinator T} {err : JsError} :
      w.coordinator.validate digest input = (c, .error err) →
      Step digest texts w (.validate input) { w with coordinator := c }
  /-- The signal of the request that started the flight is aborted. -/
  | abort {i : Nat} {f : Flight T} : w.flight? i = some f → f.request.aborted.isSome →
      f.phase ≠ .finished → Step digest texts w (.abort i) (w.modify i (fun f => f.abort))
  | timeout {i : Nat} {f : Flight T} : w.flight? i = some f →
      (f.request.timeoutMs.or w.coordinator.defaultTimeoutMs).isSome → f.phase ≠ .finished →
      Step digest texts w (.timeout i) (w.modify i (fun f => f.timeout))
  /-- The operation starts: it calls the source, unless the flight has been aborted. -/
  | operate {i : Nat} {f : Flight T} : w.flight? i = some f → f.phase = .scheduled →
      Step digest texts w (.operate i)
        { w.modify i (fun f => f.operate) with
          sourceCalls :=
            if f.abortTriggered || f.timeoutTriggered then w.sourceCalls
            else w.sourceCalls ++ [i] }
  | sourceSettles {i : Nat} {f : Flight T} {result : OperationResult T} :
      w.flight? i = some f → f.phase = .calling →
      Step digest texts w (.sourceSettles i result)
        { w.modify i (fun f => { f with phase := .returned result }) with
          sourceSettled := Function.update w.sourceSettled i (some w.requests.length) }
  | handle {i : Nat} {f : Flight T} {result : OperationResult T} :
      w.flight? i = some f → f.phase = .returned result →
      Step digest texts w (.handle i)
        { w with coordinator := w.coordinator.handle i f result }
  | cleanUp {i : Nat} {f : Flight T} : w.flight? i = some f → f.phase = .handled →
      Step digest texts w (.cleanUp i) { w with coordinator := w.coordinator.cleanUp i f }

def system (T : Type) (digest : String → String) (texts : Set String) :
    System (Watched T) (FlightStep T) where
  init := fun w => ∃ defaultTimeoutMs, w = { coordinator := { defaultTimeoutMs := defaultTimeoutMs } }
  step := Step digest texts

/-- The requests are for one resource of one tenant, but for different versions or incarnations. -/
def NormalizedRequest.Rival (r s : NormalizedRequest) : Prop :=
  r.tenantId = s.tenantId ∧ r.resource = s.resource ∧
    (r.expectedVersion ≠ s.expectedVersion ∨
      ∃ scope ∈ r.scope, ∃ scope' ∈ s.scope, scope.incarnationId ≠ scope'.incarnationId)

namespace Watched

/-- After the flight `i` had been started, and before its source validation settled, a request was made
    for a different version or incarnation. -/
def Overtaken (w : Watched T) (i : Nat) : Prop :=
  ∃ j k r r' i', w.requests[j]? = some (r, i) ∧ w.requests[k]? = some (r', i') ∧ j < k ∧
    (∀ n ∈ w.sourceSettled i, k < n) ∧ r.Rival r'

/-- No caller of the flight `i` has been given an outcome other than `UNKNOWN`. -/
def Withheld (w : Watched T) (i : Nat) : Prop :=
  ∀ f, w.flight? i = some f → ∀ outcome, f.settled = some (.outcome outcome) →
    outcome.result = .unknown

/-- The flight is the latest one of its resource, and may still answer what its source answers. -/
def Answerable (w : Watched T) (i : Nat) (f : Flight T) : Prop :=
  w.flight? i = some f ∧ w.sourceSettled i = none ∧ f.settled = none ∧
    w.coordinator.latestByResource.get? f.resourceKey = some ⟨f.supersessionKey, f.fencingToken⟩

/-- A request joins a flight only where no rival flight is answerable. -/
def JoinsSettled (w : Watched T) (i : FlightStep T) (w' : Watched T) : Prop :=
  match i with
  | .validate input => ∀ request, normalizeRequest input = .ok request →
      w'.coordinator.started.length = w.coordinator.started.length →
      ∀ j f, w.Answerable j f → ¬ f.request.Rival request
  | _ => True

end Watched

/-- What a coordinator promises, in every run; the fence holds in the runs in which requests join only
    where no rival flight is answerable. -/
structure Fenced (T : Type) (digest : String → String) (texts : Set String) : Prop where
  fence : ∀ w, ((system T digest texts).restrict Watched.JoinsSettled).Reachable w →
    ∀ i, w.Overtaken i → w.Withheld i
  /-- A request with the scope of a flight in progress is given the promise of that flight. -/
  sharing : ∀ w, (system T digest texts).Reachable w → ∀ i f, w.flight? i = some f →
    f.phase ≠ .finished → ∀ scope ∈ f.request.scope, ∀ input request,
      normalizeRequest input = .ok request → request.scope = some scope →
      w.coordinator.validate digest input = (w.coordinator, .ok i)
  one_call : ∀ w, (system T digest texts).Reachable w → w.sourceCalls.Nodup
  /-- Requests that are given one flight have one complete scope. -/
  isolated : ∀ w, (system T digest texts).Reachable w →
    ∀ (j k : Nat) (r r' : NormalizedRequest) (i : Nat), j ≠ k →
    w.requests[j]? = some (r, i) → w.requests[k]? = some (r', i) →
    r.scope = r'.scope ∧ r.scope ≠ none

end Premise.SingleFlight
