import Premise.GuardedTools.Tool
import Premise.Js.Value

/-!
# What ties the calls of a guarded tool together

The external callback is called at the end of a chain of calls on one tool: a check result, a proof
from its revalidation, and an action that was claimed with the proof. A chain is read off the log of a
run. Further, what a call may be answered with when an action has been claimed before.

At the start, what `JSON.stringify` makes of the action of a request, and what is left of the action in the text of
`canonicalJson`, which does not ask an object for its `toJSON`.
-/

namespace Premise.Js

/-- `JSON.stringify` reads a number as this one, or as `null`. -/
def JsNumber.asJson : JsNumber → JsValue
  | .nan => .null
  | .infinity _ => .null
  | .negativeZero => .number (.finite "0")
  | .finite text => .number (.finite text)

namespace JsValue

mutual

/-- The value that `JSON.stringify` writes. `toJSON` gives it for the objects without enumerable
    properties: the text of a date, the empty object for a map. -/
def asJson (toJSON : Nat → JsValue) : JsValue → JsValue
  | .array items => .array (asJsonItems toJSON items)
  | .object properties => .object (asJsonProperties toJSON properties)
  | .number n => n.asJson
  | .exotic identity => toJSON identity
  | .null => .null
  | .undefined => .undefined
  | .boolean b => .boolean b
  | .string s => .string s
  | .unserializable => .unserializable

def asJsonItems (toJSON : Nat → JsValue) : List JsValue → List JsValue
  | [] => []
  | .undefined :: items => .null :: asJsonItems toJSON items
  | v :: items => v.asJson toJSON :: asJsonItems toJSON items

def asJsonProperties (toJSON : Nat → JsValue) : List (String × JsValue) → List (String × JsValue)
  | [] => []
  | (_, .undefined) :: properties => asJsonProperties toJSON properties
  | (k, v) :: properties => (k, v.asJson toJSON) :: asJsonProperties toJSON properties

end

def SameJson (toJSON : Nat → JsValue) (v w : JsValue) : Prop := (v.asJson toJSON).Same (w.asJson toJSON)

mutual

/-- What `canonicalJson` keeps of a value: an object without enumerable properties is written as the
    empty object, and `undefined` stays. -/
def written : JsValue → JsValue
  | .array items => .array (writtenItems items)
  | .object properties => .object (writtenProperties properties)
  | .number n => n.asJson
  | .exotic _ => .object []
  | .null => .null
  | .undefined => .undefined
  | .boolean b => .boolean b
  | .string s => .string s
  | .unserializable => .unserializable

def writtenItems : List JsValue → List JsValue
  | [] => []
  | v :: items => v.written :: writtenItems items

def writtenProperties : List (String × JsValue) → List (String × JsValue)
  | [] => []
  | (k, v) :: properties => (k, v.written) :: writtenProperties properties

end

end JsValue

def isNumberChar (c : Char) : Bool :=
  c.isDigit || c == '-' || c == '+' || c == '.' || c == 'e'

def JsNumber.Typed : JsNumber → Prop
  | .finite text => text.toList ≠ [] ∧ ∀ c ∈ text.toList, isNumberChar c = true
  | _ => True

mutual

def JsValue.Typed : JsValue → Prop
  | .number n => n.Typed
  | .array items => JsValue.TypedItems items
  | .object properties => JsValue.TypedProperties properties
  | _ => True

def JsValue.TypedItems : List JsValue → Prop
  | [] => True
  | v :: items => v.Typed ∧ JsValue.TypedItems items

def JsValue.TypedProperties : List (String × JsValue) → Prop
  | [] => True
  | (_, v) :: properties => v.Typed ∧ JsValue.TypedProperties properties

end

end Premise.Js

namespace Premise.GuardedTools

open Collections Control Js Protocol

variable {R : Type}

namespace SharedTools

/-- A step of a run and the state before it. -/
abbrev Event (R : Type) := SharedTools R × ToolStep R

/-- Tool `t` makes the check result `ref` for `resource`, with state `FRESH` or `STALE`. -/
def MakesCheck (t : Nat) (resource : GuardedToolResource) (ref : Nat) (e : Event R) : Prop :=
  ∃ answer : CheckAnswer, e.2 = .check t resource (some answer) ∧
    (answer.state = some .fresh ∨ answer.state = some .stale) ∧
    e.1.nextRef = ref ∧ (e.1.check t resource (some answer)).nextRef = ref + 1

/-- Tool `t` is passed the check result `checkRef`, its callback answers `FRESH` with `version` for
    `resource`, and it makes the proof `ref`. -/
def MakesProof (t : Nat) (resource : GuardedToolResource) (version : VersionReference)
    (checkRef ref : Nat) (e : Event R) : Prop :=
  ∃ input : PassedObject, e.2 = .revalidate t input (some ⟨resource, some .fresh, some version⟩) ∧
    input.ref = checkRef ∧ e.1.nextRef = ref ∧
    (e.1.revalidate t input (some ⟨resource, some .fresh, some version⟩)).nextRef = ref + 1

/-- Tool `t` is passed the proof `ref` and claims the action `i` for `request`. -/
def ClaimsAction (t : Nat) (request : ActionRequest) (ref i : Nat) (e : Event R) : Prop :=
  ∃ input : PassedObject, e.2 = .act t input request.action request.idempotencyKey ∧
    input.ref = ref ∧ e.1.requestOf t input request.action request.idempotencyKey = .ok request ∧
    e.1.actions.length = i

/-- The log holds, in this order, a check of tool `t`, a revalidation of its result that answers with
    the version of the request, and the claim of the action `i` with the proof. -/
def Chained (t : Nat) (request : ActionRequest) (i : Nat) (log : List (Event R)) : Prop :=
  ∃ (checkRef ref : Nat) (check revalidate act : Event R), [check, revalidate, act].Sublist log ∧
    MakesCheck t request.resource checkRef check ∧
    MakesProof t request.resource request.expectedVersion checkRef ref revalidate ∧
    ClaimsAction t request ref i act

/-- The request with which a step calls the external callback. -/
def invocation (e : Event R) : Option ActionRequest :=
  match e.2 with
  | .invoke i => (e.1.actions[i]?).map (fun a => a.request)
  | _ => none

/-- The callback is called at the end of a chain only, and an object that the tool has not made as a
    proof leads nowhere. -/
structure ProofChain (R : Type) (maxEntries : Option Int) : Prop where
  logged : ∀ w log, (system R maxEntries).recorded.Reachable (w, log) →
    w.invocations = log.filterMap invocation
  chained : ∀ w log, (system R maxEntries).recorded.Reachable (w, log) →
    ∀ before w' i after, log = before ++ (w', .invoke i) :: after →
      ∃ t request, w'.actions[i]? = some ⟨t, request, .performing⟩ ∧ Chained t request i before
  unproved : ∀ w log, (system R maxEntries).recorded.Reachable (w, log) →
    ∀ t (input : PassedObject), (∀ e ∈ log, ∀ resource version checkRef,
        ¬ MakesProof t resource version checkRef input.ref e) →
      ∀ action idempotencyKey, ∃ refused : ActionResult R, refused.accepted = false ∧
        w.act t input action idempotencyKey = (w, .resolved refused)

end SharedTools

/-- The requests ask for the same, their actions being taken as JSON values. -/
structure ActionRequest.SameJson (toJSON : Nat → JsValue) (r s : ActionRequest) : Prop where
  resource : r.resource = s.resource
  expectedVersion : r.expectedVersion = s.expectedVersion
  idempotencyKey : r.idempotencyKey = s.idempotencyKey
  action : r.action.SameJson toJSON s.action

/-- The texts that `act` compares do not tell the requests apart: the tenant and the idempotency key
    run together, and so do the resource and the version; the actions are written alike. -/
structure ActionRequest.RunsTogether (r s : ActionRequest) : Prop where
  key : r.resource.tenantId ++ "\x00" ++ r.idempotencyKey
    = s.resource.tenantId ++ "\x00" ++ s.idempotencyKey
  version : r.resource.resource ++ "\x00" ++ r.expectedVersion.scheme ++ "\x00"
      ++ r.expectedVersion.token
    = s.resource.resource ++ "\x00" ++ s.expectedVersion.scheme ++ "\x00" ++ s.expectedVersion.token
  action : r.action.written.Same s.action.written

namespace SharedTools

/-- The reply gives the result of the claimed action `i` to `request`: its promise, or the result that
    the store has recorded for its key. -/
def GivesResult (i : Nat) (a : ClaimedAction R) (request : ActionRequest) (reply : ActReply R) : Prop :=
  reply = .promise i ∨
    (a.request.key = request.key ∧ ∃ result, a.phase.value = some result ∧ reply = .recorded result)

/-- A call is given the result of an action that was claimed before only if it asks for the same. -/
def ReplaysOwn (toJSON : Nat → JsValue) (w : SharedTools R) (t : Nat) (input : PassedObject)
    (action : JsValue) (idempotencyKey : String) : Prop :=
  ∀ request, w.requestOf t input action idempotencyKey = .ok request →
    ∀ (i : Nat) (a : ClaimedAction R), w.actions[i]? = some a →
      GivesResult i a request (w.act t input action idempotencyKey).2 →
        request.SameJson toJSON a.request

/-- An action that was claimed before runs together with the call only where both ask for the same,
    or where it is still pending at another tool. -/
def Separated (toJSON : Nat → JsValue) (w : SharedTools R) (t : Nat) (input : PassedObject)
    (action : JsValue) (idempotencyKey : String) : Prop :=
  ∀ request, w.requestOf t input action idempotencyKey = .ok request →
    ∀ a ∈ w.actions, a.tool = t ∨ a.phase.value.isSome →
      request.RunsTogether a.request → request.SameJson toJSON a.request

/-- The runs in which every number of an action is one. -/
def typedSystem (R : Type) (maxEntries : Option Int) : System (SharedTools R) (ToolStep R) :=
  (system R maxEntries).restrict (fun _ step _ =>
    match step with
    | .act _ _ action _ => action.Typed
    | _ => True)

end SharedTools

end Premise.GuardedTools
