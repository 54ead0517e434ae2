import Premise.Collections.CountedMap
import Premise.Control.System
import Premise.Js.JsonText
import Premise.ValidationScope.Scope

/-!
# `RuntimeNegativeCache` and `NegativePremiseStore`

Two caches of negative facts with a cap on the entries of all tenants and one on those of every tenant. They keep
their entries, counters and caps in the same way; the digest of a text and `Date.parse` are parameters.
-/

namespace Premise.RuntimeCore

open Collections Control Js ValidationScope

structure NegativeStats where
  hits : Nat := 0
  misses : Nat := 0
  expirations : Nat := 0
  evictions : Nat := 0
  peakEntries : Nat := 0
deriving DecidableEq

structure CacheBounds where
  maxEntries : ℕ+
  maxEntriesPerTenant : Option ℕ+
deriving DecidableEq

/-- `Number.isSafeInteger(value) && value >= 1`, with the value. -/
def positiveInteger (name : String) (value : Int) : Except JsError ℕ+ :=
  if h : isSafeInteger value = true ∧ 1 ≤ value then .ok ⟨value.toNat, by omega⟩
  else .error (.rangeError (name ++ " must be a positive integer"))

def CacheBounds.ofOptions (maxEntries maxEntriesPerTenant : Option Int) : Except JsError CacheBounds := do
  let total ← positiveInteger "maxEntries" (maxEntries.getD 1024)
  let own ← maxEntriesPerTenant.mapM (positiveInteger "maxEntriesPerTenant")
  return ⟨total, own⟩

/-- The fields of a cache. -/
structure BoundedCache (α : Type) where
  bounds : CacheBounds
  held : CountedMap String α String := {}
  stats : NegativeStats := {}
deriving DecidableEq

namespace BoundedCache

variable {α : Type} (tenantOf : α → String)

def remove (c : BoundedCache α) (key : String) : BoundedCache α × Bool :=
  let removed := c.held.remove tenantOf key
  ({ c with held := removed.1 }, removed.2)

/-- An entry is written in the place of the entry of its key. -/
def write (c : BoundedCache α) (key : String) (entry : α) : BoundedCache α :=
  let held := (c.held.remove tenantOf key).1.add tenantOf key entry
  { c with
    held := held
    stats := { c.stats with peakEntries := max c.stats.peakEntries held.entries.size } }

def afterEvictions (c : BoundedCache α) (evicted : CountedMap String α String × Nat) : BoundedCache α :=
  { c with
    held := evicted.1
    stats := { c.stats with evictions := c.stats.evictions + evicted.2 } }

/-- `while (this.entries.size > this.maxEntries) this.evictOldest()`. -/
def enforceTotal (c : BoundedCache α) : Option (BoundedCache α) :=
  (c.held.evictWhile tenantOf (fun _ => true) (fun m => decide (c.bounds.maxEntries < m.entries.size))).map
    c.afterEvictions

/-- The entries of one tenant are evicted while it has more than its cap. -/
def enforceOwn (tenantId : String) (c : BoundedCache α) : Option (BoundedCache α) :=
  match c.bounds.maxEntriesPerTenant with
  | none => some c
  | some cap =>
    (c.held.evictWhile tenantOf (fun entry => decide (tenantOf entry = tenantId))
      (fun m => decide (cap < m.count tenantId))).map c.afterEvictions

def enforceBounds (tenantId : String) (c : BoundedCache α) : Option (BoundedCache α) :=
  (c.enforceTotal tenantOf).bind (enforceOwn tenantOf tenantId)

def store (c : BoundedCache α) (key : String) (entry : α) : Option (BoundedCache α) :=
  (c.write tenantOf key entry).enforceBounds tenantOf (tenantOf entry)

def clear (c : BoundedCache α) : BoundedCache α := { c with held := {} }

def miss (c : BoundedCache α) : BoundedCache α := { c with stats := { c.stats with misses := c.stats.misses + 1 } }

def hit (c : BoundedCache α) : BoundedCache α := { c with stats := { c.stats with hits := c.stats.hits + 1 } }

def expire (c : BoundedCache α) (key : String) : BoundedCache α :=
  let removed := c.remove tenantOf key
  { removed.1 with
    stats := { c.stats with expirations := c.stats.expirations + removed.2.toNat } }

end BoundedCache

variable (digest : String → String) (dateParse : String → Option Int)

/-- `Date.parse(now) < Date.parse(expiry)`. -/
def sameOrBefore (now expiry : String) : Bool :=
  match dateParse now, dateParse expiry with
  | some now, some expiry => decide (now < expiry)
  | _, _ => false

structure NegativeEntry where
  tenantId : String
  reason : String
  expiresAt : String
deriving DecidableEq

abbrev RuntimeNegativeCache := BoundedCache NegativeEntry

/-- What `get` returns. -/
inductive NegativeLookup
  | negative (reason : String)
  | miss
deriving DecidableEq

namespace RuntimeNegativeCache

def create (maxEntries maxEntriesPerTenant : Option Int) : Except JsError RuntimeNegativeCache := do
  let bounds ← CacheBounds.ofOptions maxEntries maxEntriesPerTenant
  return { bounds := bounds }

/-- `assertTimestamp(value, name)`. -/
def checkTimestamp (value name : String) : Except JsError Unit :=
  if (dateParse value).isSome then .ok () else .error (.typeError (name ++ " must be an ISO timestamp"))

def putKey (scope : PremiseValidationScope) (reason expiresAt : String) : Except JsError String :=
  if reason = "" then .error (.typeError "negative-cache reason must be non-empty")
  else do
    checkTimestamp dateParse expiresAt "expiresAt"
    premiseValidationScopeKey digest scope

def put (c : RuntimeNegativeCache) (scope : PremiseValidationScope) (reason expiresAt : String) :
    Option (RuntimeNegativeCache × Except JsError String) :=
  match putKey digest dateParse scope reason expiresAt with
  | .error err => some (c, .error err)
  | .ok key => (c.store NegativeEntry.tenantId key ⟨scope.tenantId, reason, expiresAt⟩).map (fun c => (c, .ok key))

def get (c : RuntimeNegativeCache) (scope : PremiseValidationScope) (now : String) :
    RuntimeNegativeCache × Except JsError NegativeLookup :=
  match checkTimestamp dateParse now "now" with
  | .error err => (c, .error err)
  | .ok () =>
    match premiseValidationScopeKey digest scope with
    | .error _ => (c.miss, .ok .miss)
    | .ok key =>
      match c.held.entries.get? key with
      | none => (c.miss, .ok .miss)
      | some entry =>
        if sameOrBefore dateParse now entry.expiresAt then (c.hit, .ok (.negative entry.reason))
        else ((c.expire NegativeEntry.tenantId key).miss, .ok .miss)

inductive Call
  | put (scope : PremiseValidationScope) (reason expiresAt : String)
  | get (scope : PremiseValidationScope) (now : String)
  | clear

/-- The cache after a call; `none` when the call does not end. -/
def perform (c : RuntimeNegativeCache) : Call → Option RuntimeNegativeCache
  | .put scope reason expiresAt => (put digest dateParse c scope reason expiresAt).map Prod.fst
  | .get scope now => some (get digest dateParse c scope now).1
  | .clear => some c.clear

def system : System RuntimeNegativeCache Call where
  init := fun c => ∃ maxEntries maxEntriesPerTenant, create maxEntries maxEntriesPerTenant = .ok c
  step := fun c call c' => perform digest dateParse c call = some c'

end RuntimeNegativeCache

structure NegativePremiseIdentity where
  tenantId : String
  resource : String
  incarnationId : String
  queryDigest : String
  frontierDigest : String
  authorizationContextDigest : String
deriving DecidableEq

structure NegativePremise extends NegativePremiseIdentity where
  reason : String
  observedAt : String
  expiresAt : String
deriving DecidableEq

structure StoredNegativePremise extends NegativePremise where
  key : String
deriving DecidableEq

/-- What the source says about a premise; an absent field is not a signal. -/
structure NegativePremiseObservation where
  entityPresent : Option Bool := none
  frontierDigest : Option String := none
  incarnationId : Option String := none

inductive NegativePremiseState
  | absent
  | stale
  | unknown
deriving DecidableEq

inductive NegativePremiseDecision
  | use
  | revalidate
  | reject
deriving DecidableEq

inductive NegativePremiseReason
  | absent
  | notFound
  | expired
  | frontierChanged
  | entityPresent
  | incarnationChanged
  | invalidScope
deriving DecidableEq

structure NegativePremiseCheck where
  state : NegativePremiseState
  decision : NegativePremiseDecision
  reason : NegativePremiseReason
deriving DecidableEq

namespace NegativePremiseStore

/-- `required(value, name)`. -/
def checkRequired (value name : String) : Except JsError Unit :=
  if nonEmpty value then .ok () else .error (.typeError (name ++ " must be a non-empty string"))

/-- `timestamp(value, name)`, with the instant. -/
def timestamp (value name : String) : Except JsError Int := do
  checkRequired value name
  match dateParse value with
  | none => .error (.typeError (name ++ " must be an ISO timestamp"))
  | some instant => .ok instant

def assertScope (scope : NegativePremiseIdentity) : Except JsError Unit := do
  checkRequired scope.tenantId "tenantId"
  checkRequired scope.resource "resource"
  checkRequired scope.incarnationId "incarnationId"
  checkRequired scope.queryDigest "queryDigest"
  checkRequired scope.frontierDigest "frontierDigest"
  checkRequired scope.authorizationContextDigest "authorizationContextDigest"

def assertObservation : Option NegativePremiseObservation → Except JsError NegativePremiseObservation
  | none => .error (.typeError "an authoritative negative-premise observation is required")
  | some observation => do
    observation.frontierDigest.forM (fun value => checkRequired value "frontierDigest")
    observation.incarnationId.forM (fun value => checkRequired value "incarnationId")
    if observation.entityPresent = none ∧ observation.frontierDigest = none ∧ observation.incarnationId = none then
      .error (.typeError "an authoritative negative-premise signal is required")
    else .ok observation

/-- `canonical({ domain, ...scope })`: the keys are sorted. -/
def canonicalText (scope : NegativePremiseIdentity) : String :=
  String.ofList (Json.stringify (.object
    [("authorizationContextDigest", .string scope.authorizationContextDigest),
      ("domain", .string "premise-negative/1"), ("frontierDigest", .string scope.frontierDigest),
      ("incarnationId", .string scope.incarnationId), ("queryDigest", .string scope.queryDigest),
      ("resource", .string scope.resource), ("tenantId", .string scope.tenantId)]))

def negativePremiseKey (scope : NegativePremiseIdentity) : Except JsError String := do
  assertScope scope
  return "sha256:" ++ digest (canonicalText scope)

def decision : NegativePremiseState → NegativePremiseDecision
  | .absent => .use
  | .stale => .revalidate
  | .unknown => .reject

/-- `check(state, reason)`. -/
def checkOf (state : NegativePremiseState) (reason : NegativePremiseReason) : NegativePremiseCheck :=
  ⟨state, decision state, reason⟩

end NegativePremiseStore

abbrev NegativePremiseStore := BoundedCache StoredNegativePremise

namespace NegativePremiseStore

def tenantOf (entry : StoredNegativePremise) : String := entry.tenantId

def create (maxEntries maxEntriesPerTenant : Option Int) : Except JsError NegativePremiseStore := do
  let bounds ← CacheBounds.ofOptions maxEntries maxEntriesPerTenant
  return { bounds := bounds }

/-- The key of a premise, when it passes the checks of `putAbsent`. -/
def putKey (input : NegativePremise) : Except JsError String := do
  assertScope input.toNegativePremiseIdentity
  let observedAt ← timestamp dateParse input.observedAt "observedAt"
  let expiresAt ← timestamp dateParse input.expiresAt "expiresAt"
  checkRequired input.reason "reason"
  if expiresAt ≤ observedAt then .error (.rangeError "expiresAt must be after observedAt")
  else negativePremiseKey digest input.toNegativePremiseIdentity

def putAbsent (c : NegativePremiseStore) (input : NegativePremise) :
    Option (NegativePremiseStore × Except JsError String) :=
  match putKey digest dateParse input with
  | .error err => some (c, .error err)
  | .ok key => (c.store tenantOf key ⟨input, key⟩).map (fun c => (c, .ok key))

/-- The instant and the observation of a check, when its arguments pass the checks. -/
def checkArguments (scope : NegativePremiseIdentity) (now : String)
    (observation : Option NegativePremiseObservation) : Except JsError (Int × NegativePremiseObservation) := do
  assertScope scope
  let instant ← timestamp dateParse now "now"
  let observation ← assertObservation observation
  return (instant, observation)

/-- What an observation says about an entry that has not expired. -/
def observed (entry : StoredNegativePremise) (observation : NegativePremiseObservation) : NegativePremiseCheck :=
  if observation.incarnationId.any (fun id => decide (id ≠ entry.incarnationId)) then
    checkOf .stale .incarnationChanged
  else if observation.frontierDigest.any (fun digest => decide (digest ≠ entry.frontierDigest)) then
    checkOf .stale .frontierChanged
  else if observation.entityPresent = some true then checkOf .stale .entityPresent
  else checkOf .absent .absent

def check (c : NegativePremiseStore) (scope : NegativePremiseIdentity) (now : String)
    (observation : Option NegativePremiseObservation) : NegativePremiseStore × Except JsError NegativePremiseCheck :=
  match checkArguments dateParse scope now observation with
  | .error _ => (c.miss, .ok (checkOf .unknown .invalidScope))
  | .ok (now, observation) =>
    match negativePremiseKey digest scope with
    | .error err => (c, .error err)
    | .ok key =>
      match c.held.entries.get? key with
      | none => (c.miss, .ok (checkOf .unknown .notFound))
      | some entry =>
        if (dateParse entry.observedAt).any (fun observedAt => decide (now < observedAt)) then
          (c.miss, .ok (checkOf .unknown .invalidScope))
        else if (dateParse entry.expiresAt).any (fun expiresAt => decide (expiresAt ≤ now)) then
          ((c.expire tenantOf key).miss, .ok (checkOf .unknown .expired))
        else (c.hit, .ok (observed entry observation))

/-- The entries of a tenant's resource are removed, with the number of them. -/
def removeAll (c : NegativePremiseStore) (keys : List String) : NegativePremiseStore × Nat :=
  keys.foldl (fun s key => ((s.1.remove tenantOf key).1, s.2 + (s.1.remove tenantOf key).2.toNat)) (c, 0)

def invalidateOnAppearance (c : NegativePremiseStore) (tenantId resource incarnationId : String) :
    NegativePremiseStore × Except JsError Nat :=
  match (do checkRequired tenantId "tenantId"; checkRequired resource "resource"
            checkRequired incarnationId "incarnationId" : Except JsError Unit) with
  | .error err => (c, .error err)
  | .ok () =>
    let removed := removeAll c ((c.held.entries.entries.filter (fun e =>
      decide (e.2.tenantId = tenantId ∧ e.2.resource = resource))).map Prod.fst)
    (removed.1, .ok removed.2)

inductive Call
  | putAbsent (input : NegativePremise)
  | check (scope : NegativePremiseIdentity) (now : String) (observation : Option NegativePremiseObservation)
  | invalidateOnAppearance (tenantId resource incarnationId : String)
  | clear

/-- The store after a call; `none` when the call does not end. -/
def perform (c : NegativePremiseStore) : Call → Option NegativePremiseStore
  | .putAbsent input => (putAbsent digest dateParse c input).map Prod.fst
  | .check scope now observation => some (check digest dateParse c scope now observation).1
  | .invalidateOnAppearance tenantId resource incarnationId =>
    some (invalidateOnAppearance c tenantId resource incarnationId).1
  | .clear => some c.clear

def system : System NegativePremiseStore Call where
  init := fun c => ∃ maxEntries maxEntriesPerTenant, create maxEntries maxEntriesPerTenant = .ok c
  step := fun c call c' => perform digest dateParse c call = some c'

end NegativePremiseStore

namespace BoundedCache

variable {α : Type} (tenantOf : α → String)

/-- The counters are right, and no cap is exceeded. -/
structure Within (c : BoundedCache α) : Prop where
  tallied : c.held.Tallied tenantOf
  own : ∀ cap, c.bounds.maxEntriesPerTenant = some cap → ∀ tenantId, c.held.count tenantId ≤ cap
  total : c.held.entries.size ≤ c.bounds.maxEntries

/-- An entry of another tenant, under another key than the one that is written, is gone. -/
def EvictsOther (c c' : BoundedCache α) (key tenantId : String) : Prop :=
  ∃ k entry, k ≠ key ∧ c.held.entries.get? k = some entry ∧ tenantOf entry ≠ tenantId ∧
    c'.held.entries.get? k = none

/-- The cap of all tenants is exceeded once the entry is written and the cap of its tenant has been enforced. -/
def ExceedsAfterOwn (c : BoundedCache α) (key : String) (entry : α) : Prop :=
  ∃ c', (c.write tenantOf key entry).enforceOwn tenantOf (tenantOf entry) = some c' ∧
    c.bounds.maxEntries < c'.held.entries.size

/-- The key is new, both caps are reached, and the oldest entry is another tenant's. -/
def ReachesBothCaps (c : BoundedCache α) (key tenantId : String) : Prop :=
  c.held.entries.get? key = none ∧ c.held.entries.size = c.bounds.maxEntries ∧
    (∃ cap : ℕ+, c.bounds.maxEntriesPerTenant = some cap ∧ c.held.count tenantId = cap) ∧
    ∃ e, c.held.entries.entries.head? = some e ∧ tenantOf e.2 ≠ tenantId

end BoundedCache

def RuntimeNegativeCache.Puts (c : RuntimeNegativeCache) (key : String) (entry : NegativeEntry)
    (c' : RuntimeNegativeCache) : Prop :=
  ∃ scope reason expiresAt, entry = ⟨scope.tenantId, reason, expiresAt⟩ ∧
    RuntimeNegativeCache.put digest dateParse c scope reason expiresAt = some (c', .ok key)

def NegativePremiseStore.Puts (c : NegativePremiseStore) (key : String) (entry : StoredNegativePremise)
    (c' : NegativePremiseStore) : Prop :=
  ∃ input, entry = ⟨input, key⟩ ∧ NegativePremiseStore.putAbsent digest dateParse c input = some (c', .ok key)

/-- In every run every call ends, the counters are right and no cap is exceeded, and a put evicts another tenant's
    entry without need exactly when it reaches both caps. -/
structure TenantFair {α ι : Type} (tenantOf : α → String) (M : System (BoundedCache α) ι)
    (puts : BoundedCache α → String → α → BoundedCache α → Prop) : Prop where
  ends : ∀ c call, M.Reachable c → ∃ c', M.step c call c'
  within : ∀ c, M.Reachable c → c.Within tenantOf
  spares : ∀ c key entry c', M.Reachable c → puts c key entry c' →
    ((c.EvictsOther tenantOf c' key (tenantOf entry) → c.ExceedsAfterOwn tenantOf key entry) ↔
      ¬ c.ReachesBothCaps tenantOf key (tenantOf entry))

end Premise.RuntimeCore
