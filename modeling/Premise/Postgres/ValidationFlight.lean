import Premise.Control.System
import Premise.Postgres.Driver
import Premise.ValidationScope.Scope

/-!
# `PostgresValidationFlightStore`

The flights table, and what the calls of a store do with it. Each call is one transaction: it leaves the
table as it was when it throws. The hexadecimal digest of a text is a parameter, and so is the document
that the receipt column makes of a receipt.
-/

namespace Premise.Postgres

open Collections Js ValidationScope

/-- What `json(receipt)` and the `jsonb` column make of a receipt. -/
inductive ReceiptColumn (D : Type)
  | stored (document : D)
  /-- `JSON.stringify` gives no text. -/
  | notSerializable
  /-- PostgreSQL refuses the document. -/
  | refused
deriving DecidableEq

inductive FlightState
  | inProgress
  | completed
deriving DecidableEq

structure FlightRow (D : Type) where
  tenantId : String
  scope : PremiseValidationScope
  owner : String
  flightId : String
  fencingToken : Int
  state : FlightState
  receipt : Option D
  updatedAt : Int
  expiresAt : Int
deriving DecidableEq

/-- The rows under their `scope_digest`. -/
structure FlightTable (D : Type) where
  rows : OrderedMap String (FlightRow D) := ∅

inductive ValidationFlightClaim (D : Type)
  | leader (fencingToken expiresAt : Int)
  | follower (fencingToken expiresAt : Int)
  | completed (fencingToken : Int) (receipt : D)
  | invalid
  | storeUnavailable
deriving DecidableEq

inductive ValidationFlightCompletion
  | completed
  | missing
  | expired
  | fenced
  | invalid
  | storeUnavailable
deriving DecidableEq

inductive ValidationFlightRead (D : Type)
  | missing
  | inProgress (fencingToken expiresAt : Int)
  | completed (fencingToken : Int) (receipt : D)
  | expired (fencingToken : Int)
  /-- The call throws. -/
  | threw
deriving DecidableEq

/-! ## Input checks -/

/-- `nonNegativeInteger(value, name)` lets the value through. -/
def nonNegativeInteger (value : Int) : Bool := isSafeInteger value && decide (0 ≤ value)

/-- `positiveInteger(value, name)` lets the value through. -/
def positiveInteger (value : Int) : Bool := isSafeInteger value && decide (0 < value)

/-- `assertExpiry(now, duration)` lets the values through. -/
def expiryFits (now duration : Int) : Bool := decide (now ≤ maxSafeInteger - duration)

def scopeStorable (scope : PremiseValidationScope) : Bool :=
  ([scope.tenantId, scope.resourceId, scope.incarnationId, scope.versionScheme, scope.versionToken,
      scope.validatorId, scope.authorizationContextDigest, scope.policyDigest, scope.queryDigest]
    ++ scope.scopes ++ scope.changeSetDigest.toList ++ scope.causalFrontier).all storable

/-- The normal form of a scope and its key, `scopePayload(scope)` and `validationFlightScopeDigest`. -/
def scopeIdentity (digest : String → String) (scope : PremiseValidationScope) :
    Except JsError (PremiseValidationScope × String) := do
  let normalized ← normalizePremiseValidationScope scope
  let key ← premiseValidationScopeKey digest normalized
  return (normalized, key)

namespace FlightTable

variable {D : Type}

/-- What `current(client, scope, digest)` reads of a row. -/
structure CurrentFlight (D : Type) where
  state : FlightState
  fencingToken : Int
  expiresAt : Int
  receipt : Option D

/-- `current(client, scope, digest)`; `none` is a throw, `some none` a missing row. -/
def current (t : FlightTable D) (digest : String → String) (tenantId key : String) :
    Option (Option (CurrentFlight D)) :=
  match t.rows.get? key with
  | none => some none
  | some row =>
    if row.tenantId ≠ tenantId then some none
    else if premiseValidationScopeKey digest row.scope ≠ .ok key then none
    else if !positiveInteger row.fencingToken || !positiveInteger row.expiresAt then none
    else if row.state = .completed ∧ row.receipt = none then none
    else some (some ⟨row.state, row.fencingToken, row.expiresAt, row.receipt⟩)

/-- The row after `INSERT … ON CONFLICT (scope_digest) DO UPDATE … WHERE expires_at <= now`, if one is
    returned. -/
def claimedRow (t : FlightTable D) (key : String) (scope : PremiseValidationScope)
    (owner flightId : String) (now expiresAt : Int) : Option (FlightRow D) :=
  match t.rows.get? key with
  | none => some ⟨scope.tenantId, scope, owner, flightId, 1, .inProgress, none, now, expiresAt⟩
  | some row =>
    if row.expiresAt ≤ now then
      some ⟨scope.tenantId, scope, owner, flightId, row.fencingToken + 1, .inProgress, none, now,
        expiresAt⟩
    else none

/-- The answer of `claim` when no row is returned. -/
def joinFlight (t : FlightTable D) (digest : String → String) (tenantId key : String) (now : Int) :
    ValidationFlightClaim D :=
  match t.current digest tenantId key with
  | some (some flight) =>
    if flight.expiresAt ≤ now then .storeUnavailable
    else
      match flight.state, flight.receipt with
      | .inProgress, _ => .follower flight.fencingToken flight.expiresAt
      | .completed, some receipt => .completed flight.fencingToken receipt
      | .completed, none => .storeUnavailable
  | _ => .storeUnavailable

def claim (t : FlightTable D) (digest : String → String)
    (scope : PremiseValidationScope) (owner flightId : String) (now leaseMs : Int) :
    FlightTable D × ValidationFlightClaim D :=
  match scopeIdentity digest scope with
  | .error _ => (t, .invalid)
  | .ok (normalized, key) =>
    if !(validText owner && validText flightId && nonNegativeInteger now && positiveInteger leaseMs
        && expiryFits now leaseMs) then (t, .invalid)
    else if !(scopeStorable normalized && storable owner && storable flightId) then
      (t, .storeUnavailable)
    -- row level security hides the row of another tenant, and the update of a hidden row fails
    else if (t.rows.get? key).any (fun row => decide (row.tenantId ≠ normalized.tenantId)) then
      (t, .storeUnavailable)
    else
      match t.claimedRow key normalized owner flightId now (now + leaseMs) with
      | some row =>
        if !positiveInteger row.fencingToken then (t, .invalid)
        else (⟨t.rows.set key row⟩, .leader row.fencingToken row.expiresAt)
      | none => (t, t.joinFlight digest normalized.tenantId key now)

/-- The condition of the `UPDATE` in `complete`. -/
def Completes (row : FlightRow D) (tenantId owner flightId : String) (fencingToken now : Int) : Prop :=
  row.tenantId = tenantId ∧ row.owner = owner ∧ row.flightId = flightId
    ∧ row.fencingToken = fencingToken ∧ row.state = .inProgress ∧ now < row.expiresAt

instance (row : FlightRow D) (tenantId owner flightId : String) (fencingToken now : Int) :
    Decidable (Completes row tenantId owner flightId fencingToken now) :=
  inferInstanceAs (Decidable (_ ∧ _))

/-- The answer of `complete` when no row is updated. -/
def refuseCompletion (t : FlightTable D) (digest : String → String) (tenantId key : String)
    (now : Int) : ValidationFlightCompletion :=
  match t.current digest tenantId key with
  | none => .storeUnavailable
  | some none => .missing
  | some (some flight) => if flight.expiresAt ≤ now then .expired else .fenced

def complete (t : FlightTable D) (digest : String → String) {R : Type} (column : R → ReceiptColumn D)
    (scope : PremiseValidationScope) (owner flightId : String) (fencingToken : Int) (receipt : R)
    (now retentionMs : Int) : FlightTable D × ValidationFlightCompletion :=
  match scopeIdentity digest scope with
  | .error _ => (t, .invalid)
  | .ok (normalized, key) =>
    if !(validText owner && validText flightId && positiveInteger fencingToken
        && nonNegativeInteger now && positiveInteger retentionMs && expiryFits now retentionMs) then
      (t, .invalid)
    else
      match column receipt with
      | .notSerializable => (t, .invalid)
      | .refused => (t, .storeUnavailable)
      | .stored document =>
        if !(storable normalized.tenantId && storable owner && storable flightId) then
          (t, .storeUnavailable)
        else
          match t.rows.get? key with
          | none => (t, t.refuseCompletion digest normalized.tenantId key now)
          | some row =>
            if Completes row normalized.tenantId owner flightId fencingToken now then
              (⟨t.rows.set key { row with
                  state := .completed
                  receipt := some document
                  updatedAt := now
                  expiresAt := now + retentionMs }⟩, .completed)
            else (t, t.refuseCompletion digest normalized.tenantId key now)

def read (t : FlightTable D) (digest : String → String) (scope : PremiseValidationScope) (now : Int) :
    ValidationFlightRead D :=
  match scopeIdentity digest scope with
  | .error _ => .missing
  | .ok (normalized, key) =>
    if !nonNegativeInteger now then .missing
    else if !storable normalized.tenantId then .threw
    else
      match t.current digest normalized.tenantId key with
      | none => .threw
      | some none => .missing
      | some (some flight) =>
        if flight.expiresAt ≤ now then .expired flight.fencingToken
        else
          match flight.state, flight.receipt with
          | .inProgress, _ => .inProgress flight.fencingToken flight.expiresAt
          | .completed, some receipt => .completed flight.fencingToken receipt
          | .completed, none => .threw

end FlightTable

/-!
# What the flights table promises

The calls of any number of clients in any order, watched from outside: which leaders were elected, and
which completions were accepted, each under the key of its scope.
-/

open Control

structure Leader where
  key : String
  owner : String
  flightId : String
  fencingToken : Int
  expiresAt : Int

structure Completion (D : Type) where
  key : String
  /-- The normal form of the scope that was completed. -/
  scope : PremiseValidationScope
  fencingToken : Int
  receipt : D

structure Flights (D : Type) where
  table : FlightTable D := {}
  leaders : List Leader := []
  completions : List (Completion D) := []

/-- The calls, with the clock of the client. -/
inductive FlightCall (R : Type)
  | claim (scope : PremiseValidationScope) (owner flightId : String) (now leaseMs : Int)
  | complete (scope : PremiseValidationScope) (owner flightId : String) (fencingToken : Int)
      (receipt : R) (now retentionMs : Int)
  | read (scope : PremiseValidationScope) (now : Int)

variable {R D : Type}

def FlightCall.scope : FlightCall R → PremiseValidationScope
  | .claim scope _ _ _ _ => scope
  | .complete scope _ _ _ _ _ _ => scope
  | .read scope _ => scope

def FlightCall.now : FlightCall R → Int
  | .claim _ _ _ now _ => now
  | .complete _ _ _ _ _ now _ => now
  | .read _ now => now

namespace Flights

/-- The leaders that were elected under a key, in their order. -/
def leadersOf (w : Flights D) (key : String) : List Leader :=
  w.leaders.filter (fun l => decide (l.key = key))

/-- The completions that were accepted under a key, in their order. -/
def completionsOf (w : Flights D) (key : String) : List (Completion D) :=
  w.completions.filter (fun c => decide (c.key = key))

def claim (w : Flights D) (digest : String → String) (scope : PremiseValidationScope)
    (owner flightId : String) (now leaseMs : Int) : Flights D :=
  let (table, answer) := w.table.claim digest scope owner flightId now leaseMs
  match scopeIdentity digest scope, answer with
  | .ok (_, key), .leader fencingToken expiresAt =>
    { w with
      table := table
      leaders := w.leaders ++ [⟨key, owner, flightId, fencingToken, expiresAt⟩] }
  | _, _ => { w with table := table }

def complete (w : Flights D) (digest : String → String) (column : R → ReceiptColumn D)
    (scope : PremiseValidationScope) (owner flightId : String) (fencingToken : Int) (receipt : R)
    (now retentionMs : Int) : Flights D :=
  let (table, answer) :=
    w.table.complete digest column scope owner flightId fencingToken receipt now retentionMs
  match scopeIdentity digest scope, column receipt, answer with
  | .ok (normalized, key), .stored document, .completed =>
    { w with
      table := table
      completions := w.completions ++ [⟨key, normalized, fencingToken, document⟩] }
  | _, _, _ => { w with table := table }

def call (w : Flights D) (digest : String → String) (column : R → ReceiptColumn D) :
    FlightCall R → Flights D
  | .claim scope owner flightId now leaseMs => w.claim digest scope owner flightId now leaseMs
  | .complete scope owner flightId fencingToken receipt now retentionMs =>
    w.complete digest column scope owner flightId fencingToken receipt now retentionMs
  | .read _ _ => w

def system (digest : String → String) (column : R → ReceiptColumn D) :
    System (Flights D) (FlightCall R) where
  init := fun w => w = {}
  step := fun w c w' => w' = w.call digest column c

end Flights

/-- The client at `now` is given this receipt, by a `read` or by a `claim`. -/
def FlightTable.Gives (t : FlightTable D) (digest : String → String) (scope : PremiseValidationScope)
    (now fencingToken : Int) (receipt : D) : Prop :=
  t.read digest scope now = .completed fencingToken receipt ∨
    ∃ owner flightId leaseMs,
      (t.claim digest scope owner flightId now leaseMs).2 = .completed fencingToken receipt

/-- What the table promises in every run. -/
structure FlightSafe (digest : String → String) (column : R → ReceiptColumn D) : Prop where
  leaders_increase : ∀ w, (Flights.system digest column).Reachable w → ∀ key,
    ((w.leadersOf key).map Leader.fencingToken).Pairwise (· < ·)
  completed_once : ∀ w, (Flights.system digest column).Reachable w → ∀ key,
    ((w.completionsOf key).map Completion.fencingToken).Pairwise (· < ·)
  /-- Only the leader that was elected last completes, before its flight expires. -/
  completed_by_leader : ∀ w, (Flights.system digest column).Reachable w →
    ∀ scope owner flightId fencingToken receipt now retentionMs,
      (w.table.complete digest column scope owner flightId fencingToken receipt now retentionMs).2
        = .completed →
      ∃ normalized key leader, scopeIdentity digest scope = .ok (normalized, key) ∧
        (w.leadersOf key).getLast? = some leader ∧ leader.owner = owner ∧
        leader.flightId = flightId ∧ leader.fencingToken = fencingToken ∧ now < leader.expiresAt
  /-- A completed flight stays as it is as long as no client of its scope sees it expired. -/
  receipt_kept : ∀ w, (Flights.system digest column).Reachable w →
    ∀ (key : String) (row : FlightRow D), w.table.rows.get? key = some row →
      row.state = .completed →
      ∀ w', (((Flights.system digest column).restrict
          (fun _ c _ => (∃ normalized, scopeIdentity digest c.scope = .ok (normalized, key)) →
            c.now < row.expiresAt)).startingAt w).Reachable w' →
        w'.table.rows.get? key = some row
  /-- A receipt is the one of the last completion, for the same scope unless the digest takes two
      scopes for one. -/
  receipt_given : ∀ w, (Flights.system digest column).Reachable w →
    ∀ scope now fencingToken receipt, w.table.Gives digest scope now fencingToken receipt →
      ∃ normalized key completion, scopeIdentity digest scope = .ok (normalized, key) ∧
        (w.completionsOf key).getLast? = some completion ∧
        completion.fencingToken = fencingToken ∧ completion.receipt = receipt ∧
        (Set.InjOn digest {String.ofList (scopeText completion.scope),
            String.ofList (scopeText normalized)} → completion.scope = normalized)

end Premise.Postgres
