import Premise.Collections.OrderedMap
import Premise.Control.System
import Premise.Webhook.Parse

/-!
# `WebhookConnector`

The deliveries that a connector receives and handles, in any order. Each of them claims its key in the
duplicate store, and a delivery whose handler throws gives its key up. The store evicts nothing.
-/

namespace Premise.Webhook

open Collections Control Js

structure WebhookDeliveryRecord where
  key : String
  receivedAt : ℚ
  deliveryId : Option String
  signature : String

/-- A `WebhookDedupStore` that keeps every record until its key is released. -/
abbrev WebhookDedupStore := OrderedMap String WebhookDeliveryRecord

namespace WebhookDedupStore

def claim (store : WebhookDedupStore) (key : String) (record : WebhookDeliveryRecord) : WebhookDedupStore × Bool :=
  if store.has key then (store, false) else (OrderedMap.set store key record, true)

def release (store : WebhookDedupStore) (key : String) : WebhookDedupStore := OrderedMap.erase store key

end WebhookDedupStore

/-- `deliveryId ?? (timestamp ?? "raw") + ":" + signature`. -/
def ParsedWebhook.key (p : ParsedWebhook) : String :=
  p.deliveryId.getD (p.timestamp.getD "raw" ++ ":" ++ p.signature)

def ParsedWebhook.record (p : ParsedWebhook) (receivedAt : ℚ) : WebhookDeliveryRecord :=
  ⟨p.key, receivedAt, p.deliveryId, p.signature⟩

/-- Where a call stands. -/
inductive DeliveryPhase
  /-- It waits for the claim of its key. -/
  | claiming
  /-- Its handler runs. -/
  | handling
  /-- Its handler has thrown; it waits for the release of its key. -/
  | releasing
  /-- Its handler has returned. -/
  | completed
  /-- The error of its handler is thrown. -/
  | threw
  /-- Its key was claimed, and no handler was asked for. -/
  | received
  | duplicate
deriving DecidableEq

/-- A call of `receive` or `handle` whose request was parsed. -/
structure DeliveryCall where
  webhook : ParsedWebhook
  record : WebhookDeliveryRecord
  handles : Bool
  phase : DeliveryPhase

/-- A connector with its calls. -/
structure WebhookConnector where
  options : WebhookParseOptions
  store : WebhookDedupStore := ∅
  calls : List DeliveryCall := []

inductive ConnectorStep
  /-- `receive(body, headers)`, or `handle(body, headers, handler)`. The clock is read twice. -/
  | deliver (body : Octets) (headers : WebhookHeaders) (now receivedAt : ℚ) (handles : Bool)
  | claim (i : Nat)
  | settle (i : Nat) (returned : Bool)
  | release (i : Nat)

namespace WebhookConnector

variable (host : WebhookHost)

def setPhase (w : WebhookConnector) (i : Nat) (call : DeliveryCall) (phase : DeliveryPhase) : WebhookConnector :=
  { w with calls := w.calls.set i { call with phase } }

def deliver (w : WebhookConnector) (body : Octets) (headers : WebhookHeaders) (now receivedAt : ℚ)
    (handles : Bool) : Except JsError WebhookConnector := do
  let webhook ← parseWebhook host w.options now body headers
  return { w with calls := w.calls ++ [⟨webhook, webhook.record receivedAt, handles, .claiming⟩] }

/-- `await this.dedupStore.claim(key, record)` is answered. -/
def claim (w : WebhookConnector) (i : Nat) (call : DeliveryCall) : WebhookConnector :=
  let (store, claimed) := WebhookDedupStore.claim w.store call.webhook.key call.record
  { w with store }.setPhase i call
    (if !claimed then .duplicate else if call.handles then .handling else .received)

/-- `await this.dedupStore.release?.(key)` is answered. -/
def release (w : WebhookConnector) (i : Nat) (call : DeliveryCall) : WebhookConnector :=
  { w with store := WebhookDedupStore.release w.store call.webhook.key }.setPhase i call .threw

inductive Step (w : WebhookConnector) : ConnectorStep → WebhookConnector → Prop
  | deliver {body : Octets} {headers : WebhookHeaders} {now receivedAt : ℚ} {handles : Bool}
      {w' : WebhookConnector} :
      w.deliver host body headers now receivedAt handles = .ok w' →
      Step w (.deliver body headers now receivedAt handles) w'
  | claim {i : Nat} {call : DeliveryCall} :
      w.calls[i]? = some call → call.phase = .claiming → Step w (.claim i) (w.claim i call)
  | settle {i : Nat} {call : DeliveryCall} {returned : Bool} :
      w.calls[i]? = some call → call.phase = .handling →
      Step w (.settle i returned) (w.setPhase i call (if returned then .completed else .releasing))
  | release {i : Nat} {call : DeliveryCall} :
      w.calls[i]? = some call → call.phase = .releasing → Step w (.release i) (w.release i call)

/-- The runs of a connector whose store is empty. A request that is rejected changes nothing. -/
def system : System WebhookConnector ConnectorStep where
  init w := ∃ options, w = { options }
  step := Step host

end WebhookConnector

/-!
# What a webhook connector promises

A handler completes once for what a signature covers: the timestamp and the body.
-/

def ParsedWebhook.authenticated (p : ParsedWebhook) : Option String × String := (p.timestamp, p.rawBody)

namespace DeliveryPhase

def live : DeliveryPhase → Bool
  | .claiming | .handling | .completed => true
  | .releasing | .threw | .received | .duplicate => false

def holds : DeliveryPhase → Bool
  | .handling | .releasing | .completed | .received => true
  | .claiming | .threw | .duplicate => false

end DeliveryPhase

namespace WebhookConnector

/-- The handler completes at most once for what a signature covers. -/
def HandledOnce (w : WebhookConnector) : Prop :=
  ∀ (i j : Nat) (c d : DeliveryCall), w.calls[i]? = some c → w.calls[j]? = some d →
    c.phase = .completed → d.phase = .completed → c.webhook.authenticated = d.webhook.authenticated → i = j

/-- A delivery has the delivery id, or without one the text of the signature header, of those that were
signed with it and whose handler has returned or may still return. -/
def SameKeyAsBefore (host : WebhookHost) (w : WebhookConnector) : ConnectorStep → WebhookConnector → Prop
  | .deliver body headers now _ true, _ => ∀ webhook,
      parseWebhook host w.options now body headers = .ok webhook →
      ∀ c ∈ w.calls, c.handles = true → c.phase.live = true →
        c.webhook.authenticated = webhook.authenticated → c.webhook.key = webhook.key
  | _, _ => True

end WebhookConnector

end Premise.Webhook
