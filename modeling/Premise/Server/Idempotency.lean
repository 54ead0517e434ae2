import Premise.Collections.OrderedMap
import Premise.Control.System
import Premise.Js.Basic
import Premise.Js.Document

/-!
# HTTP idempotency

`InMemoryHttpIdempotencyStore`, and the calls of `executeMutation` that carry an idempotency key. A call
claims its key at once; its action, the wait for durability, and the completion or the release of the
claim are jobs of their own. The digest of a document and the copy of a response are parameters.
-/

namespace Premise.Server

open Collections Js

/-- The operations of the mutation routes. -/
inductive MutationOperation
  | register
  | derive
  | revalidate
  | sourceChanged
deriving DecidableEq

def MutationOperation.text : MutationOperation → String
  | .register => "register"
  | .derive => "derive"
  | .revalidate => "revalidate"
  | .sourceChanged => "source-changed"

/-- The pattern of `requestIdempotencyKey`: 1 to 256 visible ASCII characters. -/
def validIdempotencyKey (value : String) : Bool :=
  decide (1 ≤ value.length) && decide (value.length ≤ 256)
    && value.toList.all (fun c => decide (0x21 ≤ c.toNat) && decide (c.toNat ≤ 0x7e))

/-- A key that `requestIdempotencyKey` lets through. -/
structure IdempotencyKey where
  text : String
  valid : validIdempotencyKey text = true
deriving DecidableEq

structure RuntimePrincipal where
  tenantId : String
  subjectId : Option String := none
  roles : Option (List String) := none
deriving DecidableEq

/-- What `executeMutation` is called with, apart from the action. -/
structure MutationInput where
  idempotencyKey : IdempotencyKey
  operation : MutationOperation
  pathname : String
  principal : RuntimePrincipal
  payload : Json

structure HttpIdempotencyRequest where
  tenantId : String
  operation : MutationOperation
  key : IdempotencyKey
  requestHash : String
deriving DecidableEq

/-- `requestHash(operation, pathname, principal, payload)`; `digestOf` is the hexadecimal digest of the
    canonical text of a document. -/
def requestHash (digestOf : Json → String) (input : MutationInput) : String :=
  "sha256:http-v1:" ++ digestOf (.object
    [("protocol", .string "premise-http-idempotency/1"),
      ("operation", .string input.operation.text),
      ("pathname", .string input.pathname),
      ("tenantId", .string input.principal.tenantId),
      ("subjectId", Json.nullable input.principal.subjectId),
      ("roles", Json.strings (input.principal.roles.getD [])),
      ("payload", input.payload)])

def MutationInput.request (digestOf : Json → String) (input : MutationInput) :
    HttpIdempotencyRequest :=
  ⟨input.principal.tenantId, input.operation, input.idempotencyKey, requestHash digestOf input⟩

@[irreducible] def HttpIdempotencyRequest.scope (request : HttpIdempotencyRequest) : String :=
  String.ofList (request.tenantId.toList
    ++ '\x00' :: (request.operation.text.toList ++ '\x00' :: request.key.text.toList))

structure CompletedMutation (R : Type) where
  requestHash : String
  response : R
deriving DecidableEq

structure ActiveMutation where
  requestHash : String
  token : String
deriving DecidableEq

structure InMemoryHttpIdempotencyStore (R : Type) where
  completed : OrderedMap String (CompletedMutation R) := ∅
  active : OrderedMap String ActiveMutation := ∅

inductive HttpIdempotencyClaim (R : Type)
  | new (token : String)
  | replay (response : R)
  | conflict
  | inProgress
deriving DecidableEq

namespace InMemoryHttpIdempotencyStore

variable {R : Type}

/-- `claimHttpIdempotency(input)`; `uuid` is the answer of `randomUUID`. -/
def claimHttpIdempotency (s : InMemoryHttpIdempotencyStore R) (request : HttpIdempotencyRequest)
    (uuid : String) : InMemoryHttpIdempotencyStore R × HttpIdempotencyClaim R :=
  match s.completed.get? request.scope with
  | some completed =>
    if completed.requestHash = request.requestHash then (s, .replay completed.response)
    else (s, .conflict)
  | none =>
    match s.active.get? request.scope with
    | some active =>
      if active.requestHash ≠ request.requestHash then (s, .conflict) else (s, .inProgress)
    | none =>
      ({ s with active := s.active.set request.scope ⟨request.requestHash, uuid⟩ }, .new uuid)

/-- The claim under `token` is the active one. -/
def Owns (s : InMemoryHttpIdempotencyStore R) (request : HttpIdempotencyRequest) (token : String) :
    Prop :=
  s.active.get? request.scope = some ⟨request.requestHash, token⟩

instance (s : InMemoryHttpIdempotencyStore R) (request : HttpIdempotencyRequest) (token : String) :
    Decidable (s.Owns request token) :=
  inferInstanceAs (Decidable (_ = _))

/-- `completeHttpIdempotency(input)`, with the response already copied. -/
def completeHttpIdempotency (s : InMemoryHttpIdempotencyStore R) (request : HttpIdempotencyRequest)
    (token : String) (response : R) : Except JsError (InMemoryHttpIdempotencyStore R) :=
  if s.Owns request token then
    .ok { s with
      completed := s.completed.set request.scope ⟨request.requestHash, response⟩
      active := s.active.erase request.scope }
  else .error (.error ("Idempotency claim is no longer owned: " ++ request.key.text))

def releaseHttpIdempotency (s : InMemoryHttpIdempotencyStore R) (request : HttpIdempotencyRequest)
    (token : String) : InMemoryHttpIdempotencyStore R :=
  if s.Owns request token then { s with active := s.active.erase request.scope } else s

end InMemoryHttpIdempotencyStore

/-- What a call can throw: an `HttpError`, or what its action or the wait for durability threw. -/
inductive MutationError
  | http (status : Nat) (code : String) (message : String) (headers : List (String × String))
  | thrown (err : JsError)
deriving DecidableEq

/-- Where a call stands. From the claim to the completion or the release it holds the claim `token`. -/
inductive MutationPhase (R : Type)
  | claimed (token : String)
  | acting (token : String)
  | acted (token : String) (result : R)
  | durable (token : String) (result : R)
  | failing (token : String) (err : MutationError)
  | returned (response : R)
  | threw (err : MutationError)
deriving DecidableEq

structure MutationCall (R : Type) where
  request : HttpIdempotencyRequest
  phase : MutationPhase R
deriving DecidableEq

/-- A server's idempotency store, and the calls made so far in their order. -/
structure Mutations (R : Type) where
  store : InMemoryHttpIdempotencyStore R := {}
  calls : List (MutationCall R) := []

def claimPhase {R : Type} (request : HttpIdempotencyRequest) :
    HttpIdempotencyClaim R → MutationPhase R
  | .new token => .claimed token
  | .replay response => .returned response
  | .conflict => .threw (.http 409 "IDEMPOTENCY_CONFLICT"
      ("Idempotency-Key already belongs to another request: " ++ request.key.text) [])
  | .inProgress => .threw (.http 425 "IDEMPOTENCY_IN_PROGRESS"
      "The same idempotent request is already in progress" [("retry-after", "1")])

namespace Mutations

variable {R : Type}

/-- `executeMutation(input)` up to its first `await`. -/
def executeMutation (w : Mutations R) (request : HttpIdempotencyRequest) (uuid : String) :
    Mutations R :=
  { store := (w.store.claimHttpIdempotency request uuid).1
    calls := w.calls
      ++ [⟨request, claimPhase request (w.store.claimHttpIdempotency request uuid).2⟩] }

def setPhase (w : Mutations R) (i : Nat) (phase : MutationPhase R) : Mutations R :=
  { w with calls := w.calls.modify i (fun c => { c with phase := phase }) }

/-- The completion of the claim; `copied` is what `cloneJson(result)` gives. -/
def complete (w : Mutations R) (i : Nat) (request : HttpIdempotencyRequest) (token : String)
    (result : R) (copied : Except JsError R) : Mutations R :=
  match copied with
  | .error err => w.setPhase i (.failing token (.thrown err))
  | .ok response =>
    match w.store.completeHttpIdempotency request token response with
    | .error err => w.setPhase i (.failing token (.thrown err))
    | .ok store => { w.setPhase i (.returned result) with store := store }

/-- The `catch` branch: the claim is released, and the error thrown again. -/
def release (w : Mutations R) (i : Nat) (request : HttpIdempotencyRequest) (token : String)
    (err : MutationError) : Mutations R :=
  { w.setPhase i (.threw err) with store := w.store.releaseHttpIdempotency request token }

end Mutations

/-!
# What HTTP idempotency promises

The calls of `executeMutation` and the jobs of the calls in any order. An action, the wait for durability
and the copy of a response may succeed or throw.
-/

open Control

inductive MutationStep (R : Type)
  | call (input : MutationInput) (uuid : String)
  | act (i : Nat)
  | settle (i : Nat) (result : Except MutationError R)
  | awaitDurability (i : Nat) (result : Except MutationError Unit)
  | complete (i : Nat) (copied : Except JsError R)
  | release (i : Nat)

variable {R : Type}

namespace Mutations

inductive Step (digestOf : Json → String) (w : Mutations R) : MutationStep R → Mutations R → Prop
  | call {input : MutationInput} {uuid : String} :
      Step digestOf w (.call input uuid) (w.executeMutation (input.request digestOf) uuid)
  /-- The action starts. -/
  | act {i : Nat} {request : HttpIdempotencyRequest} {token : String} :
      w.calls[i]? = some ⟨request, .claimed token⟩ →
      Step digestOf w (.act i) (w.setPhase i (.acting token))
  | settle {i : Nat} {request : HttpIdempotencyRequest} {token : String}
      {result : Except MutationError R} :
      w.calls[i]? = some ⟨request, .acting token⟩ →
      Step digestOf w (.settle i result) (w.setPhase i
        (match result with
          | .ok r => .acted token r
          | .error err => .failing token err))
  | awaitDurability {i : Nat} {request : HttpIdempotencyRequest} {token : String} {r : R}
      {result : Except MutationError Unit} :
      w.calls[i]? = some ⟨request, .acted token r⟩ →
      Step digestOf w (.awaitDurability i result) (w.setPhase i
        (match result with
          | .ok () => .durable token r
          | .error err => .failing token err))
  | complete {i : Nat} {request : HttpIdempotencyRequest} {token : String} {r : R}
      {copied : Except JsError R} :
      w.calls[i]? = some ⟨request, .durable token r⟩ →
      Step digestOf w (.complete i copied) (w.complete i request token r copied)
  | release {i : Nat} {request : HttpIdempotencyRequest} {token : String} {err : MutationError} :
      w.calls[i]? = some ⟨request, .failing token err⟩ →
      Step digestOf w (.release i) (w.release i request token err)

def system (R : Type) (digestOf : Json → String) : System (Mutations R) (MutationStep R) where
  init := fun w => w = {}
  step := Step digestOf

end Mutations

/-- The requests are for one tenant, operation and idempotency key. -/
def HttpIdempotencyRequest.SameKey (r s : HttpIdempotencyRequest) : Prop :=
  r.tenantId = s.tenantId ∧ r.operation = s.operation ∧ r.key = s.key

def MutationPhase.token? : MutationPhase R → Option String
  | .claimed token => some token
  | .acting token => some token
  | .acted token _ => some token
  | .durable token _ => some token
  | .failing token _ => some token
  | .returned _ => none
  | .threw _ => none

namespace Mutations

/-- The call `i` has claimed the key of `request`, and has not given the claim up. -/
def InFlight (w : Mutations R) (i : Nat) (request : HttpIdempotencyRequest) : Prop :=
  ∃ c token, w.calls[i]? = some c ∧ c.phase.token? = some token ∧ c.request.SameKey request

/-- A request with this hash was completed with this response under the key of `request`. -/
def Recorded (w : Mutations R) (request : HttpIdempotencyRequest) (hash : String) (response : R) :
    Prop :=
  w.store.completed.get? request.scope = some ⟨hash, response⟩

end Mutations

/-- What idempotency keys promise, in every run. -/
structure Idempotent (R : Type) (digestOf : Json → String) : Prop where
  /-- Calls with one key share a claim only with themselves, so one action at most is in flight. -/
  one_action : ∀ w, (Mutations.system R digestOf).Reachable w → ∀ i j request,
    w.InFlight i request → w.InFlight j request → i = j
  /-- The claim of a call in flight is the active one, with the hash of the call. -/
  claimed : ∀ w, (Mutations.system R digestOf).Reachable w →
    ∀ (i : Nat) (c : MutationCall R) (token : String), w.calls[i]? = some c →
      c.phase.token? = some token → w.store.Owns c.request token
  /-- A call that has answered does not act any more. -/
  answered : ∀ w, (Mutations.system R digestOf).Reachable w →
    ∀ w', ((Mutations.system R digestOf).startingAt w).Reachable w' →
      ∀ (i : Nat) (c : MutationCall R), w.calls[i]? = some c → c.phase.token? = none →
        w'.calls[i]? = some c
  /-- A call whose request has the hash of the recorded one answers the recorded response, and changes
      nothing else. -/
  replayed : ∀ w, (Mutations.system R digestOf).Reachable w → ∀ request response uuid,
    w.Recorded request request.requestHash response →
      w.executeMutation request uuid
        = { w with calls := w.calls ++ [⟨request, .returned response⟩] }
  /-- While a call holds the key, or a response is recorded under it, a call with another hash throws,
      and changes nothing else. -/
  refused : ∀ w, (Mutations.system R digestOf).Reachable w → ∀ request uuid,
    ((∃ hash response, w.Recorded request hash response ∧ hash ≠ request.requestHash) ∨
      ∃ (i : Nat) (c : MutationCall R), w.InFlight i request ∧ w.calls[i]? = some c ∧
        c.request.requestHash ≠ request.requestHash) →
      ∃ err, w.executeMutation request uuid
        = { w with calls := w.calls ++ [⟨request, .threw err⟩] }
  /-- A recorded response is not overwritten, and no call under its key is in flight again. -/
  recorded : ∀ w, (Mutations.system R digestOf).Reachable w → ∀ request hash response,
    w.Recorded request hash response →
      ∀ w', ((Mutations.system R digestOf).startingAt w).Reachable w' →
        w'.Recorded request hash response ∧ ∀ i, ¬ w'.InFlight i request

end Premise.Server
