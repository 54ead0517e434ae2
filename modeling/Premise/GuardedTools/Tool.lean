import Premise.Collections.OrderedMap
import Premise.Control.System
import Premise.Protocol.Envelope

/-!
# `GuardedTool`

Guarded tools that share one idempotency store. The objects that a tool hands out as proofs are known
by a reference; what a caller passes is read from its fields. A call answers at once, or with the
promise of an action; the actions that have been claimed are listed in the order of their claims, and
the jobs that work them off stand in the same module as separate operations.
-/

namespace Premise.GuardedTools

open Collections Js Protocol

inductive GuardedToolState
  | fresh
  | stale
  | invalid
  | unknown
  | missing
deriving DecidableEq

inductive RevalidationOutcome
  | fresh
  | changed
  | missing
  | unknown
  | versionMismatch
deriving DecidableEq

inductive ActionOutcome
  | applied
  | versionMismatch
  | rejected
  | unknown
deriving DecidableEq

structure GuardedToolResource where
  tenantId : String
  resource : String
deriving DecidableEq

/-- `GuardedToolActionRequest`, without its abort signal. -/
structure ActionRequest where
  resource : GuardedToolResource
  expectedVersion : VersionReference
  idempotencyKey : String
  action : JsValue

/-- `GuardedToolActionResult`. -/
structure ActionResult (R : Type) where
  accepted : Bool
  outcome : ActionOutcome
  resource : GuardedToolResource
  expectedVersion : Option VersionReference := none
  observedVersion : Option VersionReference := none
  result : Option R := none
  reason : Option String := none
deriving DecidableEq

/-- `validVersion(value)`; a value of another type is one with empty texts. -/
def validVersion (version : VersionReference) : Bool :=
  nonEmpty version.scheme && nonEmpty version.token

/-- `resourceFrom(input) ?? { tenantId: "", resource: "" }`. -/
def resourceFrom (resource : GuardedToolResource) : GuardedToolResource :=
  if nonEmpty resource.tenantId && nonEmpty resource.resource then resource else ⟨"", ""⟩

mutual

/-- `canonicalJson` throws on functions, symbols, bigints and cycles. -/
def serializable : JsValue → Bool
  | .unserializable => false
  | .array items => serializableItems items
  | .object properties => serializableProperties properties
  | .null | .undefined | .boolean _ | .number _ | .string _ | .exotic _ => true

def serializableItems : List JsValue → Bool
  | [] => true
  | v :: items => serializable v && serializableItems items

def serializableProperties : List (String × JsValue) → Bool
  | [] => true
  | (_, v) :: properties => serializable v && serializableProperties properties

end

mutual

/-- What `canonicalJson` returns where it does not throw. -/
def canonicalText : JsValue → List Char
  | .null => "null".toList
  | .undefined => "undefined".toList
  | .boolean b => if b then "true".toList else "false".toList
  | .number n => n.json
  | .string s => jsonString s
  | .array items => '[' :: List.intercalate [','] (canonicalItems items) ++ [']']
  | .object properties =>
    '{' :: List.intercalate [','] ((JsValue.sortByKey (canonicalProperties properties)).map
      (fun p => jsonString p.1 ++ ':' :: p.2)) ++ ['}']
  | .exotic _ => "{}".toList
  | .unserializable => []

def canonicalItems : List JsValue → List (List Char)
  | [] => []
  | v :: items => canonicalText v :: canonicalItems items

def canonicalProperties : List (String × JsValue) → List (String × List Char)
  | [] => []
  | (k, v) :: properties => (k, canonicalText v) :: canonicalProperties properties

end

/-- An entry is pending until it has a result. -/
structure BoundedIdempotencyEntry (R : Type) where
  fingerprint : String
  result : Option (ActionResult R)

inductive IdempotencyClaim (R : Type)
  | new
  | pending
  | completed (result : ActionResult R)
  | conflict
  | full

structure BoundedGuardedToolIdempotencyStore (R : Type) where
  entries : OrderedMap String (BoundedIdempotencyEntry R)
  maxEntries : Int

namespace BoundedGuardedToolIdempotencyStore

variable {R : Type}

/-- `new BoundedGuardedToolIdempotencyStore({ maxEntries })`. -/
def create (maxEntries : Option Int) : Except JsError (BoundedGuardedToolIdempotencyStore R) :=
  let maxEntries := maxEntries.getD 1024
  if !isSafeInteger maxEntries || maxEntries < 1 then
    .error (.rangeError "maxEntries must be a positive safe integer")
  else .ok ⟨∅, maxEntries⟩

def claim (s : BoundedGuardedToolIdempotencyStore R) (key fingerprint : String) :
    Except JsError (BoundedGuardedToolIdempotencyStore R × IdempotencyClaim R) :=
  if !nonEmpty key || !nonEmpty fingerprint then
    .error (.typeError "idempotency key and fingerprint must be non-empty")
  else
    match s.entries.get? key with
    | some existing =>
      if existing.fingerprint ≠ fingerprint then .ok (s, .conflict)
      else
        match existing.result with
        | none => .ok (s, .pending)
        | some result => .ok (s, .completed result)
    | none =>
      if (s.entries.size : Int) ≥ s.maxEntries then .ok (s, .full)
      else .ok ({ s with entries := s.entries.set key ⟨fingerprint, none⟩ }, .new)

def complete (s : BoundedGuardedToolIdempotencyStore R) (key fingerprint : String)
    (result : ActionResult R) : Except JsError (BoundedGuardedToolIdempotencyStore R) :=
  match s.entries.get? key with
  | some existing =>
    if existing.fingerprint = fingerprint ∧ existing.result.isNone then
      .ok { s with entries := s.entries.set key ⟨fingerprint, some result⟩ }
    else .error (.error "idempotency completion does not match a pending claim")
  | none => .error (.error "idempotency completion does not match a pending claim")

end BoundedGuardedToolIdempotencyStore

/-! ## Tools -/

/-- What `checks` keeps for a check result. -/
structure CheckedResource where
  resource : GuardedToolResource
  state : GuardedToolState
  version : Option VersionReference

structure ProofResource where
  resource : GuardedToolResource
  version : VersionReference

/-- An action in flight, by its place in the list of claimed actions. -/
structure InFlightAction where
  fingerprint : String
  action : Nat

structure GuardedTool where
  checks : OrderedMap Nat CheckedResource := ∅
  ready : OrderedMap Nat ProofResource := ∅
  inFlight : OrderedMap String InFlightAction := ∅

/-- How far the promise chain of a claimed action is. -/
inductive ActionPhase (R : Type)
  /-- `performAction` is to run. -/
  | scheduled
  /-- The timer runs, and the callback is to be called. -/
  | performing
  /-- The callback has been called. -/
  | calling
  | performed (response : ActionResult R)
  /-- The promise has its value, and the action is to leave `inFlight`. -/
  | settled (result : ActionResult R)
  | finished (result : ActionResult R)

structure ClaimedAction (R : Type) where
  tool : Nat
  request : ActionRequest
  phase : ActionPhase R

/-- The tools of one store, the actions that their calls have claimed, and the requests with which
    the external callback has been called. -/
structure SharedTools (R : Type) where
  store : BoundedGuardedToolIdempotencyStore R
  tools : Nat → GuardedTool := fun _ => {}
  nextRef : Nat := 0
  actions : List (ClaimedAction R) := []
  invocations : List ActionRequest := []

/-- What a callback answers: `none` when it throws or answers no object. -/
structure CheckAnswer where
  resource : GuardedToolResource
  /-- `none` for a state that is not one of the known ones. -/
  state : Option GuardedToolState
  version : Option VersionReference

structure RevalidateAnswer where
  resource : GuardedToolResource
  outcome : Option RevalidationOutcome
  observedVersion : Option VersionReference

inductive ActAnswer (R : Type)
  | threw
  | notAnObject
  | response (resource : GuardedToolResource) (outcome : Option ActionOutcome)
      (observedVersion : Option VersionReference) (result : Option R) (reason : Option String)

/-- An object that a caller passes as the result of a check or as a proof. -/
structure PassedObject where
  ref : Nat
  resource : GuardedToolResource
  version : Option VersionReference

/-- How a call answers. -/
inductive ActReply (R : Type)
  | resolved (result : ActionResult R)
  /-- The result that the store has recorded. -/
  | recorded (result : ActionResult R)
  /-- The promise of a claimed action. -/
  | promise (action : Nat)
  | threw (err : JsError)

/-- The text that stands for a request: resource, version and action, with NUL between them. -/
def ActionRequest.fingerprint (request : ActionRequest) : String :=
  String.ofList (request.resource.resource.toList ++ '\x00' :: (request.expectedVersion.scheme.toList
    ++ '\x00' :: (request.expectedVersion.token.toList ++ '\x00' :: canonicalText request.action)))

/-- The tenant and the idempotency key, with NUL between them. -/
def ActionRequest.key (request : ActionRequest) : String :=
  String.ofList (request.resource.tenantId.toList ++ '\x00' :: request.idempotencyKey.toList)

namespace SharedTools

variable {R : Type}

def updateTool (w : SharedTools R) (t : Nat) (f : GuardedTool → GuardedTool) : SharedTools R :=
  { w with tools := Function.update w.tools t (f (w.tools t)) }

def setPhase (w : SharedTools R) (i : Nat) (phase : ActionPhase R) : SharedTools R :=
  { w with actions := w.actions.modify i (fun a => { a with phase := phase }) }

/-- `check(input)` of tool `t`, with the answer of the callback. -/
def check (w : SharedTools R) (t : Nat) (input : GuardedToolResource)
    (answer : Option CheckAnswer) : SharedTools R :=
  if !(nonEmpty input.tenantId && nonEmpty input.resource) then w
  else
    match answer with
    | none => w
    | some answer =>
      if answer.resource ≠ input then w
      else
        match answer.state with
        | none => w
        | some state =>
          if (state = .fresh ∨ state = .stale) ∧ !answer.version.any validVersion then w
          else if !answer.version.all validVersion then w
          else
            let w' := w.updateTool t (fun tool =>
              { tool with checks := tool.checks.set w.nextRef ⟨input, state, answer.version⟩ })
            { w' with nextRef := w.nextRef + 1 }

/-- `revalidate(input)` of tool `t`, with the answer of the callback. -/
def revalidate (w : SharedTools R) (t : Nat) (input : PassedObject)
    (answer : Option RevalidateAnswer) : SharedTools R :=
  match (w.tools t).checks.get? input.ref with
  | none => w
  | some stored =>
    let resource := resourceFrom input.resource
    if stored.resource ≠ resource then w
    else if stored.state = .missing ∨ stored.state = .unknown ∨ stored.state = .invalid then w
    else if !stored.version.any validVersion then w
    else
      match answer with
      | none => w
      | some answer =>
        if answer.resource ≠ resource then w
        else if answer.outcome ≠ some .fresh then w
        else
          match answer.observedVersion with
          | none => w
          | some version =>
            if !validVersion version then w
            else
              let w' := w.updateTool t (fun tool =>
                { tool with ready := tool.ready.set w.nextRef ⟨resource, version⟩ })
              { w' with nextRef := w.nextRef + 1 }

/-- The request that `act` makes of its arguments, or the refusal of one that is not well formed. -/
def requestOf (w : SharedTools R) (t : Nat) (input : PassedObject) (action : JsValue)
    (idempotencyKey : String) : Except (ActionResult R) ActionRequest :=
  let resource := resourceFrom input.resource
  match (w.tools t).ready.get? input.ref with
  | none => .error {
      accepted := false
      outcome := .rejected
      resource := resource
      reason := some "INVALID_REVALIDATION" }
  | some stored =>
    if stored.resource ≠ resource ∨ !input.version.any validVersion then .error {
      accepted := false
      outcome := .rejected
      resource := resource
      reason := some "INVALID_REVALIDATION" }
    else if !nonEmpty idempotencyKey then .error {
      accepted := false
      outcome := .rejected
      resource := resource
      expectedVersion := some stored.version
      reason := some "IDEMPOTENCY_KEY_REQUIRED" }
    else if !serializable action then .error {
      accepted := false
      outcome := .rejected
      resource := resource
      expectedVersion := some stored.version
      reason := some "INVALID_ACTION" }
    else .ok ⟨resource, stored.version, idempotencyKey, action⟩

def refusal (request : ActionRequest) (outcome : ActionOutcome) (reason : String) :
    ActionResult R where
  accepted := false
  outcome := outcome
  resource := request.resource
  expectedVersion := some request.expectedVersion
  reason := some reason

/-- `act` of tool `t` from the fingerprint on. -/
def actOn (w : SharedTools R) (t : Nat) (request : ActionRequest) : SharedTools R × ActReply R :=
  match (w.tools t).inFlight.get? request.key with
  | some pending =>
    if pending.fingerprint = request.fingerprint then (w, .promise pending.action)
    else (w, .resolved (refusal request .rejected "IDEMPOTENCY_CONFLICT"))
  | none =>
    match w.store.claim request.key request.fingerprint with
    | .error err => (w, .threw err)
    | .ok (_, .completed result) => (w, .recorded result)
    | .ok (_, .conflict) => (w, .resolved (refusal request .rejected "IDEMPOTENCY_CONFLICT"))
    | .ok (_, .pending) => (w, .resolved (refusal request .unknown "IDEMPOTENCY_IN_PROGRESS"))
    | .ok (_, .full) => (w, .resolved (refusal request .rejected "IDEMPOTENCY_RETENTION_FULL"))
    | .ok (store, .new) =>
      let i := w.actions.length
      let w' := w.updateTool t (fun tool =>
        { tool with inFlight := tool.inFlight.set request.key ⟨request.fingerprint, i⟩ })
      ({ w' with
        store := store
        actions := w.actions ++ [⟨t, request, .scheduled⟩] }, .promise i)

/-- `act(input, action, idempotencyKey)` of tool `t`. -/
def act (w : SharedTools R) (t : Nat) (input : PassedObject) (action : JsValue)
    (idempotencyKey : String) : SharedTools R × ActReply R :=
  match w.requestOf t input action idempotencyKey with
  | .error refused => (w, .resolved refused)
  | .ok request => w.actOn t request

/-- What `performAction` makes of the answer of the callback. -/
def performed (request : ActionRequest) : ActAnswer R → ActionResult R
  | .threw => refusal request .unknown "SIDE_EFFECT_UNKNOWN"
  | .notAnObject => refusal request .unknown "ACT_RESOURCE_MISMATCH"
  | .response resource outcome observedVersion result reason =>
    if resource ≠ request.resource then refusal request .unknown "ACT_RESOURCE_MISMATCH"
    else
      match outcome with
      | none => refusal request .unknown "ACT_OUTCOME_INVALID"
      | some outcome =>
        if !observedVersion.all validVersion then refusal request .unknown "ACT_VERSION_INVALID"
        else {
          accepted := decide (outcome = .applied)
          outcome := outcome
          resource := request.resource
          expectedVersion := some request.expectedVersion
          observedVersion := observedVersion
          result := result
          reason := reason }

/-- `performAction` calls the external callback. -/
def invoke (w : SharedTools R) (i : Nat) (request : ActionRequest) : SharedTools R :=
  let w' := w.setPhase i .calling
  { w' with invocations := w.invocations ++ [request] }

/-- The reaction to the response of `performAction`, in `act`. -/
def complete (w : SharedTools R) (i : Nat) (request : ActionRequest) (response : ActionResult R) :
    SharedTools R :=
  match w.store.complete request.key request.fingerprint response with
  | .ok store =>
    let w' := w.setPhase i (.settled response)
    { w' with store := store }
  | .error _ => w.setPhase i (.settled (refusal request .unknown "IDEMPOTENCY_STORE_UNAVAILABLE"))

/-- The `finally` of `act`. -/
def clean (w : SharedTools R) (i : Nat) (t : Nat) (request : ActionRequest)
    (result : ActionResult R) : SharedTools R :=
  let w' := w.setPhase i (.finished result)
  match (w.tools t).inFlight.get? request.key with
  | some pending =>
    if pending.action = i then w'.updateTool t (fun tool =>
      { tool with inFlight := tool.inFlight.erase request.key })
    else w'
  | none => w'

end SharedTools

/-!
# What guarded tools promise

The calls of the tools and the jobs of their actions in any order, and what a call is to answer once an
action has been claimed for its tenant and idempotency key.
-/

open Collections Control Js
open SharedTools (refusal)

inductive ToolStep (R : Type)
  | check (t : Nat) (input : GuardedToolResource) (answer : Option CheckAnswer)
  | revalidate (t : Nat) (input : PassedObject) (answer : Option RevalidateAnswer)
  | act (t : Nat) (input : PassedObject) (action : JsValue) (idempotencyKey : String)
  | perform (i : Nat)
  | invoke (i : Nat)
  | answer (i : Nat) (answer : ActAnswer R)
  | timeout (i : Nat)
  | complete (i : Nat)
  | clean (i : Nat)

variable {R : Type}

namespace SharedTools

inductive Step (w : SharedTools R) : ToolStep R → SharedTools R → Prop
  | check {t : Nat} {input : GuardedToolResource} {answer : Option CheckAnswer} :
      Step w (.check t input answer) (w.check t input answer)
  | revalidate {t : Nat} {input : PassedObject} {answer : Option RevalidateAnswer} :
      Step w (.revalidate t input answer) (w.revalidate t input answer)
  | act {t : Nat} {input : PassedObject} {action : JsValue} {idempotencyKey : String} :
      Step w (.act t input action idempotencyKey) (w.act t input action idempotencyKey).1
  | perform {i t : Nat} {request : ActionRequest} :
      w.actions[i]? = some ⟨t, request, .scheduled⟩ → Step w (.perform i) (w.setPhase i .performing)
  | invoke {i t : Nat} {request : ActionRequest} :
      w.actions[i]? = some ⟨t, request, .performing⟩ → Step w (.invoke i) (w.invoke i request)
  | answer {i t : Nat} {request : ActionRequest} {answer : ActAnswer R} :
      w.actions[i]? = some ⟨t, request, .calling⟩ →
      Step w (.answer i answer) (w.setPhase i (.performed (performed request answer)))
  | timeout {i t : Nat} {request : ActionRequest} :
      w.actions[i]? = some ⟨t, request, .calling⟩ →
      Step w (.timeout i)
        (w.setPhase i (.performed (refusal request .unknown "SIDE_EFFECT_TIMEOUT")))
  | complete {i t : Nat} {request : ActionRequest} {response : ActionResult R} :
      w.actions[i]? = some ⟨t, request, .performed response⟩ →
      Step w (.complete i) (w.complete i request response)
  | clean {i t : Nat} {request : ActionRequest} {result : ActionResult R} :
      w.actions[i]? = some ⟨t, request, .settled result⟩ →
      Step w (.clean i) (w.clean i t request result)

/-- Any number of tools that share a store of `maxEntries` entries. -/
def system (R : Type) (maxEntries : Option Int) : System (SharedTools R) (ToolStep R) where
  init := fun w => ∃ store, BoundedGuardedToolIdempotencyStore.create maxEntries = .ok store ∧
    w = { store := store }
  step := Step

end SharedTools

def ActionPhase.value : ActionPhase R → Option (ActionResult R)
  | .scheduled => none
  | .performing => none
  | .calling => none
  | .performed _ => none
  | .settled result => some result
  | .finished result => some result

/-- The requests ask for the same. -/
structure ActionRequest.Same (r s : ActionRequest) : Prop where
  resource : r.resource = s.resource
  expectedVersion : r.expectedVersion = s.expectedVersion
  idempotencyKey : r.idempotencyKey = s.idempotencyKey
  action : r.action.Same s.action

def ActionRequest.SameScope (r s : ActionRequest) : Prop :=
  r.resource.tenantId = s.resource.tenantId ∧ r.idempotencyKey = s.idempotencyKey

instance (r s : ActionRequest) : Decidable (r.SameScope s) :=
  inferInstanceAs (Decidable (_ ∧ _))

def ActReply.isPromise : ActReply R → Bool
  | .promise _ => true
  | _ => false

/-- What a call of tool `t` with `request` is answered when the action `i` was claimed before. -/
structure ClaimedAction.Answers (i : Nat) (a : ClaimedAction R) (t : Nat) (request : ActionRequest)
    (reply : ActReply R) : Prop where
  different : ¬ request.Same a.request →
    reply = .resolved (refusal request .rejected "IDEMPOTENCY_CONFLICT")
  sharing : request.Same a.request → a.phase.value = none → a.tool = t → reply = .promise i
  in_progress : request.Same a.request → a.phase.value = none → a.tool ≠ t →
    reply = .resolved (refusal request .unknown "IDEMPOTENCY_IN_PROGRESS")
  /-- The promise of the action has the same value. -/
  recorded : request.Same a.request → ∀ result, a.phase.value = some result →
    reply = .recorded result ∨ reply = .promise i

namespace SharedTools

/-- How often the callback has been called for the key of `request`. -/
def invoked (w : SharedTools R) (request : ActionRequest) : Nat :=
  w.invocations.countP (fun r => r.SameScope request)

/-- A call for whose tenant and idempotency key an action has been claimed is answered by that action,
    and leaves everything as it is. -/
def Promised (w : SharedTools R) (t : Nat) (input : PassedObject) (action : JsValue)
    (idempotencyKey : String) : Prop :=
  ∀ request, w.requestOf t input action idempotencyKey = .ok request →
    ∀ (i : Nat) (a : ClaimedAction R), w.actions[i]? = some a → request.SameScope a.request →
      (w.act t input action idempotencyKey).1 = w ∧
        a.Answers i t request (w.act t input action idempotencyKey).2

/-- No action that has been claimed for the tenant and the idempotency key of the call was claimed with
    another request of the same fingerprint. -/
def Distinguished (w : SharedTools R) (t : Nat) (input : PassedObject) (action : JsValue)
    (idempotencyKey : String) : Prop :=
  ∀ request, w.requestOf t input action idempotencyKey = .ok request →
    ∀ a ∈ w.actions, request.SameScope a.request →
      request.fingerprint = a.request.fingerprint → request.Same a.request

/-- The callback is called at most once for a tenant and an idempotency key, and a call is answered as
    promised exactly where it is distinguished. -/
structure AtMostOnce (R : Type) (maxEntries : Option Int) : Prop where
  once : ∀ w, (system R maxEntries).Reachable w → ∀ request, w.invoked request ≤ 1
  /-- A call that is answered otherwise than by the promise of an action leaves everything as it is,
      also where the store is full. -/
  unchanged : ∀ w, (system R maxEntries).Reachable w → ∀ t input action idempotencyKey,
    (∀ i, (w.act t input action idempotencyKey).2 ≠ .promise i) →
      (w.act t input action idempotencyKey).1 = w
  promised : ∀ w, (system R maxEntries).Reachable w → ∀ t input action idempotencyKey,
    w.Promised t input action idempotencyKey ↔ w.Distinguished t input action idempotencyKey

end SharedTools

end Premise.GuardedTools
