import Premise.Server.Idempotency

/-!
# HTTP idempotency in PostgreSQL

The idempotency table of `PostgresRuntimeStore`, and the calls of `executeMutation` over it. Every
transaction is one step. A claim that is older than its lease is taken over by the next call. Responses
are compared as they are stored.
-/

namespace Premise.Postgres

open Collections Js Server

/-- The primary key of the table. -/
structure HttpIdempotencyKey where
  tenantId : String
  operation : MutationOperation
  key : IdempotencyKey
deriving DecidableEq

structure HttpIdempotencyRow (R : Type) where
  requestHash : String
  leaseToken : String
  /-- The stored response of a row that is `COMPLETED`. -/
  response : Option R
  /-- In microseconds. -/
  updatedAt : Int
  /-- The tokens that have completed the row. -/
  completedBy : List String := []
deriving DecidableEq

abbrev HttpIdempotencyTable (R : Type) := OrderedMap HttpIdempotencyKey (HttpIdempotencyRow R)

def rowKey (request : HttpIdempotencyRequest) : HttpIdempotencyKey :=
  ⟨request.tenantId, request.operation, request.key⟩

/-- `HTTP_IDEMPOTENCY_LEASE_MS`. -/
def httpIdempotencyLeaseMs : Int := 60000

namespace HttpIdempotencyTable

variable {R : Type} (table : HttpIdempotencyTable R)

/-- `claimHttpIdempotency(input)`. `timestamp` is `CURRENT_TIMESTAMP`, `now` is `Date.now()`, and `uuid` is
the answer of `randomUUID`. -/
def claimHttpIdempotency (request : HttpIdempotencyRequest) (uuid : String) (timestamp now : Int) :
    HttpIdempotencyTable R × HttpIdempotencyClaim R :=
  match table.get? (rowKey request) with
  | none => (table.set (rowKey request) ⟨request.requestHash, uuid, none, timestamp, []⟩, .new uuid)
  | some row =>
    if row.requestHash ≠ request.requestHash then (table, .conflict)
    else match row.response with
      | some response => (table, .replay response)
      | none =>
        -- `Date.parse` cuts the text off at milliseconds
        if now - row.updatedAt / 1000 ≤ httpIdempotencyLeaseMs then (table, .inProgress)
        else (table.set (rowKey request) { row with leaseToken := uuid, updatedAt := timestamp }, .new uuid)

/-- The row that the `WHERE` of a completion or of a release selects. -/
def owned (request : HttpIdempotencyRequest) (token : String) : Option (HttpIdempotencyRow R) :=
  (table.get? (rowKey request)).filter (fun row =>
    row.requestHash = request.requestHash && row.response.isNone && row.leaseToken = token)

/-- `completeHttpIdempotency(input)` with a response that can be stored. -/
def completeHttpIdempotency (request : HttpIdempotencyRequest) (token : String) (response : R) (timestamp : Int) :
    Except JsError (HttpIdempotencyTable R) :=
  match table.owned request token with
  | some row =>
    .ok (table.set (rowKey request)
      { row with response := some response, updatedAt := timestamp, completedBy := row.completedBy ++ [token] })
  | none =>
    if (table.get? (rowKey request)).any (fun row => row.response.isSome && row.requestHash = request.requestHash) then
      .ok table
    else .error (.error ("HTTP idempotency claim is no longer owned: " ++ request.key.text))

def releaseHttpIdempotency (request : HttpIdempotencyRequest) (token : String) : HttpIdempotencyTable R :=
  if (table.owned request token).isSome then table.erase (rowKey request) else table

end HttpIdempotencyTable

structure HttpIdempotencyPruneOptions where
  maxAgeMs : Int := 7 * 24 * 60 * 60 * 1000
  inProgressMaxAgeMs : Int := 2 * httpIdempotencyLeaseMs
  limit : Int := 1000

/-- The checks of `pruneHttpIdempotency`. -/
def HttpIdempotencyPruneOptions.check (options : HttpIdempotencyPruneOptions) : Except JsError Unit :=
  if !isSafeInteger options.maxAgeMs || options.maxAgeMs ≤ 0 then
    .error (.typeError "HTTP idempotency maxAgeMs must be a positive safe integer")
  else if !isSafeInteger options.inProgressMaxAgeMs || options.inProgressMaxAgeMs < httpIdempotencyLeaseMs then
    .error (.typeError "HTTP idempotency inProgressMaxAgeMs is too short")
  else if !isSafeInteger options.limit || options.limit < 1 || 10000 < options.limit then
    .error (.typeError "HTTP idempotency prune limit must be between 1 and 10000")
  else .ok ()

namespace HttpIdempotencyTable

variable {R : Type} (table : HttpIdempotencyTable R)

/-- The row is selected as `expired` at `timestamp`. -/
def expired (options : HttpIdempotencyPruneOptions) (timestamp : Int) (row : HttpIdempotencyRow R) : Bool :=
  let maxAge := if row.response.isSome then options.maxAgeMs else options.inProgressMaxAgeMs
  row.updatedAt < timestamp - maxAge * 1000

/-- The keys of the rows that are deleted, the oldest first. -/
def expiredKeys (tenantId : String) (options : HttpIdempotencyPruneOptions) (timestamp : Int) : List HttpIdempotencyKey :=
  (((table.entries.filter (fun p => p.1.tenantId = tenantId && expired options timestamp p.2)).mergeSort
    (fun p q => p.2.updatedAt ≤ q.2.updatedAt)).take options.limit.toNat).map Prod.fst

/-- `pruneHttpIdempotency(options)` of the store of a tenant: the table, and how many rows were deleted. -/
def pruneHttpIdempotency (tenantId : String) (options : HttpIdempotencyPruneOptions) (timestamp : Int) :
    Except JsError (HttpIdempotencyTable R × Nat) := do
  options.check
  let keys := table.expiredKeys tenantId options timestamp
  return (keys.foldl OrderedMap.erase table, keys.length)

end HttpIdempotencyTable

/-- The table, and the calls made so far in their order. -/
structure HttpMutations (R : Type) where
  table : HttpIdempotencyTable R := ∅
  calls : List (MutationCall R) := []
deriving DecidableEq

namespace HttpMutations

variable {R : Type} (w : HttpMutations R)

/-- `executeMutation(input)` up to the end of its claim. -/
def executeMutation (request : HttpIdempotencyRequest) (uuid : String) (timestamp now : Int) : HttpMutations R :=
  let (table, claim) := w.table.claimHttpIdempotency request uuid timestamp now
  { table, calls := w.calls ++ [⟨request, claimPhase request claim⟩] }

def setPhase (i : Nat) (phase : MutationPhase R) : HttpMutations R :=
  { w with calls := w.calls.modify i (fun c => { c with phase := phase }) }

/-- The completion of the claim; `written` is an error when the response cannot be copied or stored, or the
transaction fails. -/
def complete (i : Nat) (request : HttpIdempotencyRequest) (token : String) (result : R) (timestamp : Int)
    (written : Except JsError Unit) : HttpMutations R :=
  match written with
  | .error err => w.setPhase i (.failing token (.thrown err))
  | .ok () =>
    match w.table.completeHttpIdempotency request token result timestamp with
    | .error err => w.setPhase i (.failing token (.thrown err))
    | .ok table => { w.setPhase i (.returned result) with table }

/-- The `catch` branch: the claim is released unless that fails, and the error is thrown again. -/
def release (i : Nat) (request : HttpIdempotencyRequest) (token : String) (err : MutationError) (released : Bool) :
    HttpMutations R :=
  { w.setPhase i (.threw err) with
    table := if released then w.table.releaseHttpIdempotency request token else w.table }

end HttpMutations

/-!
# What HTTP idempotency over PostgreSQL promises

Calls of `executeMutation`, their jobs and prunings in any order, at any times of the two clocks.
-/

open Control

inductive HttpStep (R : Type)
  | call (input : MutationInput) (uuid : String) (timestamp now : Int)
  /-- The transaction of the claim fails. -/
  | refuse (input : MutationInput) (err : JsError)
  | act (i : Nat)
  | settle (i : Nat) (result : Except MutationError R)
  | awaitDurability (i : Nat) (result : Except MutationError Unit)
  | complete (i : Nat) (timestamp : Int) (written : Except JsError Unit)
  | release (i : Nat) (released : Bool)
  | prune (tenantId : String) (options : HttpIdempotencyPruneOptions) (timestamp : Int)

variable {R : Type}

namespace HttpMutations

/-- A step of the call `i` in its phase. -/
def callStep (w : HttpMutations R) (i : Nat) (step : MutationCall R → Option (HttpMutations R)) :
    Option (HttpMutations R) :=
  (w.calls[i]?).bind step

def step (digestOf : Json → String) (w : HttpMutations R) : HttpStep R → Option (HttpMutations R)
  | .call input uuid timestamp now => some (w.executeMutation (input.request digestOf) uuid timestamp now)
  | .refuse input err => some { w with calls := w.calls ++ [⟨input.request digestOf, .threw (.thrown err)⟩] }
  | .act i => w.callStep i (fun c => match c.phase with
    | .claimed token => some (w.setPhase i (.acting token))
    | _ => none)
  | .settle i result => w.callStep i (fun c => match c.phase, result with
    | .acting token, .ok r => some (w.setPhase i (.acted token r))
    | .acting token, .error err => some (w.setPhase i (.failing token err))
    | _, _ => none)
  | .awaitDurability i result => w.callStep i (fun c => match c.phase, result with
    | .acted token r, .ok () => some (w.setPhase i (.durable token r))
    | .acted token _, .error err => some (w.setPhase i (.failing token err))
    | _, _ => none)
  | .complete i timestamp written => w.callStep i (fun c => match c.phase with
    | .durable token r => some (w.complete i c.request token r timestamp written)
    | _ => none)
  | .release i released => w.callStep i (fun c => match c.phase with
    | .failing token err => some (w.release i c.request token err released)
    | _ => none)
  | .prune tenantId options timestamp => match w.table.pruneHttpIdempotency tenantId options timestamp with
    | .ok (table, _) => some { w with table }
    | .error _ => some w

def system (R : Type) (digestOf : Json → String) : System (HttpMutations R) (HttpStep R) where
  init := fun w => w = {}
  step := fun w i w' => w.step digestOf i = some w'

def Keeps (key : HttpIdempotencyKey) (w : HttpMutations R) (_ : HttpStep R) (w' : HttpMutations R) : Prop :=
  (w.table.get? key).isSome → (w'.table.get? key).isSome

/-- A call that completes finds no other response stored for its request. -/
def Undisputed (w : HttpMutations R) (i : HttpStep R) (_ : HttpMutations R) : Prop :=
  ∀ n timestamp, i = .complete n timestamp (.ok ()) → ∀ request token r, w.calls[n]? = some ⟨request, .durable token r⟩ →
    ∀ row, w.table.get? (rowKey request) = some row → row.requestHash = request.requestHash →
      ∀ response ∈ row.response, response = r

/-- An action starts while its key has no row of another request, and a row is inserted while no action of
another request with its key is running. -/
def Exclusive (digestOf : Json → String) (w : HttpMutations R) (i : HttpStep R) (_ : HttpMutations R) : Prop :=
  (∀ n, i = .act n → ∀ c, w.calls[n]? = some c → ∀ row, w.table.get? (rowKey c.request) = some row →
    row.requestHash = c.request.requestHash) ∧
  (∀ input uuid timestamp now, i = .call input uuid timestamp now →
    w.table.get? (rowKey (input.request digestOf)) = none → ∀ c ∈ w.calls, ∀ token, c.phase = .acting token →
      rowKey c.request = rowKey (input.request digestOf) → c.request.requestHash = (input.request digestOf).requestHash)

end HttpMutations

def received (c : MutationCall R) : Option R :=
  match c.phase with
  | .returned response => some response
  | _ => none

/-- What idempotency keys promise over a table in PostgreSQL. -/
structure HttpIdempotent (R : Type) (digestOf : Json → String) : Prop where
  /-- A stored response does not change while its row exists. -/
  stored : ∀ w, (HttpMutations.system R digestOf).Reachable w → ∀ key row response,
    w.table.get? key = some row → row.response = some response → ∀ w',
      (((HttpMutations.system R digestOf).restrict (HttpMutations.Keeps key)).startingAt w).Reachable w' →
      w'.table.get? key = some row
  /-- One token at most completes a row. -/
  once : ∀ w, (HttpMutations.system R digestOf).Reachable w → ∀ key row, w.table.get? key = some row →
    row.completedBy.length ≤ 1
  /-- A call with another hash than the row throws, and never acts. -/
  refused : ∀ w, (HttpMutations.system R digestOf).Reachable w → ∀ request row,
    w.table.get? (rowKey request) = some row → row.requestHash ≠ request.requestHash →
    ∀ uuid timestamp now, ∃ err, w.executeMutation request uuid timestamp now
        = { w with calls := w.calls ++ [⟨request, .threw err⟩] } ∧
      ∀ w', ((HttpMutations.system R digestOf).startingAt (w.executeMutation request uuid timestamp now)).Reachable w' →
        w'.calls[w.calls.length]? = some ⟨request, .threw err⟩
  /-- An action that runs has the hash of the row. -/
  acting : ∀ w, ((HttpMutations.system R digestOf).restrict (HttpMutations.Exclusive digestOf)).Reachable w →
    ∀ c ∈ w.calls, ∀ token, c.phase = .acting token → ∀ row, w.table.get? (rowKey c.request) = some row →
      row.requestHash = c.request.requestHash
  /-- What calls receive for a request while the row exists is the stored response. -/
  answered : ∀ key w, (HttpMutations.system R digestOf).Reachable w → ∀ w',
    (((HttpMutations.system R digestOf).restrict (fun w i w' => w.Keeps key i w' ∧ w.Undisputed i w')).startingAt
      w).Reachable w' →
    ∀ (i : Nat) (c : MutationCall R) (response : R), w'.calls[i]? = some c → received c = some response →
      rowKey c.request = key → (∀ c₀, w.calls[i]? = some c₀ → received c₀ = none) →
      ∀ row, w'.table.get? key = some row → row.requestHash = c.request.requestHash → row.response = some response

end Premise.Postgres
