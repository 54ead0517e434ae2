import Premise.Control.System
import Premise.Lease.Manager

/-!
# What leases promise

A lease service is anything that answers lease calls against a clock: the store and the manager are two
of them, and the promises are stated once for both.
-/

namespace Premise.Lease

open Collections Control Js

/-- What makes a holder of a lease: owner, lease id and fencing token. -/
structure LeaseIdentity where
  owner : String
  leaseId : String
  fencingToken : Int
deriving DecidableEq

def ValidationLease.identity (lease : ValidationLease) : LeaseIdentity :=
  ⟨lease.claim.owner, lease.claim.leaseId, lease.fencingToken⟩

def LeaseClaim.scope (claim : LeaseClaim) : String × String := (claim.tenantId, claim.resourceId)

namespace LeaseCall

variable {α : Type}

def claim : LeaseCall α → LeaseClaim
  | .acquire claim _ => claim
  | .renew claim _ _ => claim
  | .release claim _ => claim
  | .validate claim _ => claim

def scope (call : LeaseCall α) : String × String := call.claim.scope

/-- The identity that a `renew`, `release` or `validate` presents. -/
def identity : LeaseCall α → Option LeaseIdentity
  | .acquire _ _ => none
  | .renew claim fencingToken _ => some ⟨claim.owner, claim.leaseId, fencingToken⟩
  | .release claim fencingToken => some ⟨claim.owner, claim.leaseId, fencingToken⟩
  | .validate claim fencingToken => some ⟨claim.owner, claim.leaseId, fencingToken⟩

end LeaseCall

/-- What an answer comes down to. -/
inductive Verdict
  | granted (lease : ValidationLease)
  | accepted
  | refused
deriving DecidableEq

def storeVerdict : Except JsError StoreResult → Verdict
  | .ok (.acquired lease) => .granted lease
  | .ok (.updated _) => .accepted
  | .ok .released => .accepted
  | .ok (.valid _) => .accepted
  | .ok (.held _) => .refused
  | .ok (.rejected _) => .refused
  | .error _ => .refused

def decisionVerdict (decision : LeaseDecision) : Verdict :=
  if !decision.accepted then .refused
  else
    match decision.decision, decision.lease with
    | .acquired, some lease => .granted lease
    | _, _ => .accepted

/-- A service that answers lease calls; `ρ` is what it reads of the clock in a call. -/
structure LeaseService (σ α ρ β : Type) where
  init : σ → Prop
  perform : σ → ρ → LeaseCall α → σ × β
  verdict : β → Verdict
  /-- The lease that is stored for a scope. -/
  stored : σ → String × String → Option ValidationLease
  /-- The last time that was read. -/
  observed : σ → Option Int
  /-- The time of a reading. -/
  time : ρ → Option Int

namespace LeaseService

variable {σ α ρ β : Type}

def system (S : LeaseService σ α ρ β) : System σ (ρ × LeaseCall α) where
  init := S.init
  step := fun s i s' => s' = (S.perform s i.1 i.2).1

/-- `s'` comes after `s`. -/
def Later (S : LeaseService σ α ρ β) (s s' : σ) : Prop := (S.system.startingAt s).Reachable s'

def answer (S : LeaseService σ α ρ β) (s : σ) (reading : ρ) (call : LeaseCall α) : Verdict :=
  S.verdict (S.perform s reading call).2

/-- From `s` on, no call that presents `identity` for `scope` is accepted. -/
def Over (S : LeaseService σ α ρ β) (s : σ) (scope : String × String) (identity : LeaseIdentity) :
    Prop :=
  ∀ s', S.Later s s' → ∀ reading call, call.scope = scope → call.identity = some identity →
    S.answer s' reading call = .refused

/-- The answers to a history of calls, each with its call. -/
def outcomes (S : LeaseService σ α ρ β) : σ → List (ρ × LeaseCall α) → List (LeaseCall α × β)
  | _, [] => []
  | s, (reading, call) :: rest =>
    (call, (S.perform s reading call).2) :: S.outcomes (S.perform s reading call).1 rest

/-- The readings of a history are times, and none is before the one before it. -/
def Steady (S : LeaseService σ α ρ β) : Option Int → List (ρ × LeaseCall α) → Prop
  | _, [] => True
  | last, (reading, _) :: rest => ∃ now, S.time reading = some now ∧ validTime now = true ∧
      (∀ t ∈ last, t ≤ now) ∧ S.Steady (some now) rest

/-- The promises of leases. -/
structure Safe (S : LeaseService σ α ρ β) : Prop where
  /-- At most one identity is valid for a scope. -/
  one_valid : ∀ s, S.system.Reachable s → ∀ reading claim token claim' token',
    claim.scope = claim'.scope → S.answer s reading (.validate claim token) = .accepted →
    S.answer s reading (.validate claim' token') = .accepted →
    (claim.owner, claim.leaseId, token) = (claim'.owner, claim'.leaseId, token')
  tokens_increase : ∀ s, S.system.Reachable s → ∀ reading call lease,
    S.answer s reading call = .granted lease → ∀ s', S.Later (S.perform s reading call).1 s' →
    ∀ reading' call' lease', call'.scope = call.scope →
      S.answer s' reading' call' = .granted lease' → lease.fencingToken < lease'.fencingToken
  released_over : ∀ s, S.system.Reachable s → ∀ reading claim token,
    S.answer s reading (.release claim token) = .accepted →
    S.Over (S.perform s reading (.release claim token)).1 claim.scope
      ⟨claim.owner, claim.leaseId, token⟩
  superseded_over : ∀ s, S.system.Reachable s → ∀ reading call lease,
    S.answer s reading call = .granted lease → ∀ s', S.Later (S.perform s reading call).1 s' →
    ∀ reading' call' lease', call'.scope = call.scope →
      S.answer s' reading' call' = .granted lease' →
      S.Over (S.perform s' reading' call').1 call.scope lease.identity
  /-- A lease is over from the first call on whose reading has reached its expiry. -/
  expired_over : ∀ s, S.system.Reachable s → ∀ scope lease, S.stored s scope = some lease →
    ∀ reading call, (∃ now ∈ S.observed (S.perform s reading call).1, lease.expiresAt ≤ now) →
      (call.scope = scope → call.identity = some lease.identity →
        S.answer s reading call = .refused) ∧
      S.Over (S.perform s reading call).1 scope lease.identity
  /-- With a clock that does not go backwards, the calls on other scopes change no answer. -/
  independent : ∀ s, S.system.Reachable s → ∀ history, S.Steady (S.observed s) history →
    ∀ scope : String × String, (S.outcomes s history).filter (fun o => o.1.scope = scope)
      = S.outcomes s (history.filter (fun i => i.2.scope = scope))

end LeaseService

/-- An `InMemoryValidationLeaseStore` as a service. -/
def storeService : LeaseService InMemoryValidationLeaseStore Int Int (Except JsError StoreResult) where
  init := fun s => s = .create
  perform := fun s now call => s.perform now call
  verdict := storeVerdict
  stored := fun s scope => s.leases.get? (scopeKey scope.1 scope.2)
  observed := fun s => s.lastObservedAt
  time := some

/-- A `ValidationLeaseManager` as a service. -/
def managerService : LeaseService ValidationLeaseManager (Option Int) (Option Int) LeaseDecision where
  init := fun m => ∃ leaseDurationMs, ValidationLeaseManager.create leaseDurationMs = .ok m
  perform := fun m clock call => m.perform clock call
  verdict := decisionVerdict
  stored := fun m scope => m.store.leases.get? (scopeKey scope.1 scope.2)
  observed := fun m => m.lastObservedAt
  time := fun clock => clock

/-!
# One scope at a time

What a lease service does to one scope: a cell holds the lease of the scope and the last fencing token.
A service that acts on the cell of the call and on no other one keeps the promises of leases.
-/

structure LeaseCell where
  lease : Option ValidationLease
  counter : Int

/-- What a call does to the cell of its scope at the time `now`, and its verdict. -/
inductive CellStep {α : Type} (now : Int) (call : LeaseCall α) :
    LeaseCell → LeaseCell → Verdict → Prop
  | refuse (cell : LeaseCell) : CellStep now call cell cell .refused
  | expire {cell : LeaseCell} {lease : ValidationLease} : cell.lease = some lease →
      lease.expiresAt ≤ now → CellStep now call cell ⟨none, cell.counter⟩ .refused
  | grant {cell : LeaseCell} {lease : ValidationLease} :
      (∀ current ∈ cell.lease, current.expiresAt ≤ now) → call.identity = none →
      lease.fencingToken = cell.counter + 1 →
      CellStep now call cell ⟨some lease, cell.counter + 1⟩ (.granted lease)
  | confirm {cell : LeaseCell} {lease : ValidationLease} : cell.lease = some lease →
      now < lease.expiresAt → call.identity = some lease.identity → (∃ claim token,
        call = .validate claim token) →
      CellStep now call cell cell .accepted
  | renew {cell : LeaseCell} {lease renewed : ValidationLease} : cell.lease = some lease →
      now < lease.expiresAt → call.identity = some lease.identity →
      renewed.identity = lease.identity → now < renewed.expiresAt → (∃ claim token term,
        call = .renew claim token term) →
      CellStep now call cell ⟨some renewed, cell.counter⟩ .accepted
  | release {cell : LeaseCell} {lease : ValidationLease} : cell.lease = some lease →
      now < lease.expiresAt → call.identity = some lease.identity → (∃ claim token,
        call = .release claim token) →
      CellStep now call cell ⟨none, cell.counter⟩ .accepted

namespace LeaseService

variable {σ α ρ β γ : Type}

/-- The service acts on cells: a call is refused before the clock is read, or acts on the cell of its
    scope at a time that does not go backwards; the service may refuse what the cell has granted. -/
structure ActsOn (S : LeaseService σ α ρ β) (cell : σ → String × String → LeaseCell)
    (config : σ → γ) (proper : σ → Prop) : Prop where
  init : ∀ s, S.init s → proper s ∧ ∀ scope, cell s scope = ⟨none, 0⟩
  stored : ∀ s scope, S.stored s scope = (cell s scope).lease
  kept : ∀ s reading call, config (S.perform s reading call).1 = config s
  stays : ∀ s reading call, proper s → proper (S.perform s reading call).1
  step : ∀ s reading call,
    (cell (S.perform s reading call).1 = cell s ∧
      S.observed (S.perform s reading call).1 = S.observed s ∧
      S.answer s reading call = .refused) ∨
    ∃ now verdict, S.observed (S.perform s reading call).1 = some now ∧
      (∀ t ∈ S.observed s, t ≤ now) ∧
      (∀ scope, scope ≠ call.scope → cell (S.perform s reading call).1 scope = cell s scope) ∧
      CellStep now call (cell s call.scope) (cell (S.perform s reading call).1 call.scope) verdict ∧
      (S.answer s reading call = verdict ∨ S.answer s reading call = .refused)
  /-- Where the clock is accepted, the answer and the new cell depend on the cell alone. -/
  congr : ∀ s s' reading call now, proper s → proper s' → S.time reading = some now →
    validTime now = true → (∀ t ∈ S.observed s, t ≤ now) → (∀ t ∈ S.observed s', t ≤ now) →
    config s = config s' → cell s call.scope = cell s' call.scope →
    (S.perform s reading call).2 = (S.perform s' reading call).2 ∧
      cell (S.perform s reading call).1 call.scope = cell (S.perform s' reading call).1 call.scope
  /-- A reading is the only time that a call observes. -/
  reads : ∀ s reading call now, S.time reading = some now →
    ∀ t ∈ S.observed (S.perform s reading call).1, t = now ∨ t ∈ S.observed s

end LeaseService

end Premise.Lease
