import Premise.Control.Except
import Premise.Webhook.Connector

/-!
# Proofs: a handler completes once

A key in the store has one call that holds it, and the calls that were signed together have one key.
-/

namespace Premise.Webhook

open Collections Control Js

variable {host : WebhookHost} {w w' : WebhookConnector} {call : DeliveryCall} {i : Nat}

variable {phase : DeliveryPhase}

namespace WebhookConnector

/-- Who holds the keys of the store. -/
structure Held (w : WebhookConnector) : Prop where
  /-- The key of a call that holds it is stored. -/
  stored : ∀ c ∈ w.calls, c.phase.holds = true → c.webhook.key ∈ OrderedMap.keys w.store
  /-- A key is held by one call. -/
  once : ∀ (i j : Nat) (c d : DeliveryCall), w.calls[i]? = some c → w.calls[j]? = some d →
    c.phase.holds = true → d.phase.holds = true → c.webhook.key = d.webhook.key → i = j
  /-- A handler runs for the calls of `handle` only. -/
  handles : ∀ c ∈ w.calls, c.phase = .handling ∨ c.phase = .completed → c.handles = true
  /-- The deliveries that were signed together have one key. -/
  agree : ∀ c ∈ w.calls, ∀ d ∈ w.calls, c.handles = true → d.handles = true → c.phase.live = true →
    d.phase.live = true → c.webhook.authenticated = d.webhook.authenticated → c.webhook.key = d.webhook.key

@[simp] theorem setPhase_store (phase : DeliveryPhase) : (w.setPhase i call phase).store = w.store := rfl

theorem getElem?_setPhase {j : Nat} {d : DeliveryCall} (h : (w.setPhase i call phase).calls[j]? = some d) :
    (j = i ∧ d = { call with phase }) ∨ (j ≠ i ∧ w.calls[j]? = some d) := by
  simp only [setPhase, List.getElem?_set] at h
  split at h
  · rename_i hij
    split at h
    · exact .inl ⟨hij.symm, (Option.some.inj h).symm⟩
    · exact absurd h (by simp)
  · rename_i hij
    exact .inr ⟨fun e => hij e.symm, h⟩

theorem mem_setPhase {d : DeliveryCall} (h : d ∈ (w.setPhase i call phase).calls) :
    d = { call with phase } ∨ d ∈ w.calls := by
  obtain ⟨j, hj⟩ := List.getElem?_of_mem h
  obtain ⟨-, rfl⟩ | ⟨-, hj⟩ := getElem?_setPhase hj
  · exact .inl rfl
  · exact .inr (List.mem_of_getElem? hj)

theorem Held.turn {store : WebhookDedupStore} (hw : w.Held) (hcall : w.calls[i]? = some call)
    (hothers : ∀ (j : Nat) (c : DeliveryCall), j ≠ i → w.calls[j]? = some c → c.phase.holds = true → c.webhook.key ∈ OrderedMap.keys store)
    (hown : phase.holds = true → call.webhook.key ∈ OrderedMap.keys store ∧ ∀ (j : Nat) (c : DeliveryCall), j ≠ i → w.calls[j]? = some c → c.phase.holds = true → c.webhook.key ≠ call.webhook.key)
    (hhandles : phase = .handling ∨ phase = .completed → call.handles = true)
    (hlive : phase.live = true → call.phase.live = true) :
    ({ w with store }.setPhase i call phase).Held where
  stored := by
    intro c hc hholds
    obtain ⟨j, hj⟩ := List.getElem?_of_mem hc
    obtain ⟨-, rfl⟩ | ⟨hji, hj⟩ := getElem?_setPhase hj
    · exact (hown hholds).1
    · exact hothers j c hji hj hholds
  once := by
    intro j k c d hj hk hcholds hdholds hkey
    obtain ⟨hji, hc⟩ | ⟨hji, hj⟩ := getElem?_setPhase hj <;> obtain ⟨hki, hd⟩ | ⟨hki, hk⟩ := getElem?_setPhase hk
    · exact hji.trans hki.symm
    · subst hc
      exact absurd hkey.symm ((hown hcholds).2 k d hki hk hdholds)
    · subst hd
      exact absurd hkey ((hown hdholds).2 j c hji hj hcholds)
    · exact hw.once j k c d hj hk hcholds hdholds hkey
  handles := by
    intro c hc hphase
    obtain rfl | hc := mem_setPhase hc
    · exact hhandles hphase
    · exact hw.handles c hc hphase
  agree := by
    intro c hc d hd hch hdh hcl hdl
    have hmem := List.mem_of_getElem? hcall
    obtain rfl | hc := mem_setPhase hc <;> obtain rfl | hd := mem_setPhase hd
    · exact fun _ => rfl
    · exact hw.agree call hmem d hd hch hdh (hlive hcl) hdl
    · exact hw.agree c hc call hmem hch hdh hcl (hlive hdl)
    · exact hw.agree c hc d hd hch hdh hcl hdl

/-! ## Steps -/

theorem Held.init (options : WebhookParseOptions) : Held { options } where
  stored := List.forall_mem_nil _
  once := fun i j c d hi => by simp at hi
  handles := List.forall_mem_nil _
  agree := List.forall_mem_nil _

theorem Held.deliver {body : Octets} {headers : WebhookHeaders} {now receivedAt : ℚ} {handles : Bool}
    (hw : w.Held) (h : w.deliver host body headers now receivedAt handles = .ok w')
    (hsame : w.SameKeyAsBefore host (.deliver body headers now receivedAt handles) w') : w'.Held := by
  unfold WebhookConnector.deliver at h
  obtain ⟨webhook, hparse, h⟩ := of_bind_ok h
  cases h
  have hagree : ∀ c ∈ w.calls, c.handles = true → handles = true → c.phase.live = true →
      c.webhook.authenticated = webhook.authenticated → c.webhook.key = webhook.key := by
    intro c hc hch hh hlive hauth
    subst hh
    exact hsame webhook hparse c hc hch hlive hauth
  refine ⟨?_, ?_, ?_, ?_⟩
  · intro c hc hholds
    obtain hc | hc := List.mem_append.1 hc
    · exact hw.stored c hc hholds
    · obtain rfl := List.mem_singleton.1 hc
      exact absurd hholds (by simp [DeliveryPhase.holds])
  · intro j k c d hj hk hcholds hdholds hkey
    have hold : ∀ {j : Nat} {c : DeliveryCall},
        (w.calls ++ [⟨webhook, webhook.record receivedAt, handles, .claiming⟩])[j]? = some c →
        c.phase.holds = true → w.calls[j]? = some c := by
      intro j c hj hc
      rw [List.getElem?_append] at hj
      split at hj
      · exact hj
      · obtain rfl := List.mem_singleton.1 (List.mem_of_getElem? hj)
        exact absurd hc (by simp [DeliveryPhase.holds])
    exact hw.once j k c d (hold hj hcholds) (hold hk hdholds) hcholds hdholds hkey
  · intro c hc hphase
    obtain hc | hc := List.mem_append.1 hc
    · exact hw.handles c hc hphase
    · obtain rfl := List.mem_singleton.1 hc
      exact absurd hphase (by simp)
  · intro c hc d hd hch hdh hcl hdl hauth
    obtain hc | hc := List.mem_append.1 hc <;> obtain hd | hd := List.mem_append.1 hd
    · exact hw.agree c hc d hd hch hdh hcl hdl hauth
    · obtain rfl := List.mem_singleton.1 hd
      exact hagree c hc hch hdh hcl hauth
    · obtain rfl := List.mem_singleton.1 hc
      exact (hagree d hd hdh hch hdl hauth.symm).symm
    · obtain rfl := List.mem_singleton.1 hc
      obtain rfl := List.mem_singleton.1 hd
      rfl

theorem Held.claim (hw : w.Held) (hcall : w.calls[i]? = some call) (hphase : call.phase = .claiming) :
    (w.claim i call).Held := by
  unfold WebhookConnector.claim WebhookDedupStore.claim
  by_cases hstored : call.webhook.key ∈ OrderedMap.keys w.store
  · have hhas : OrderedMap.has w.store call.webhook.key = true := (OrderedMap.has_eq_true w.store).2 hstored
    simp only [hhas, if_true, Bool.not_false]
    exact hw.turn hcall (fun j c _ hj hc => hw.stored c (List.mem_of_getElem? hj) hc)
      (fun h => absurd h (by decide)) (fun h => absurd h (by decide)) (fun h => absurd h (by decide))
  · have hhas : OrderedMap.has w.store call.webhook.key = false := (OrderedMap.has_eq_false w.store).2 hstored
    simp only [hhas, Bool.not_true, Bool.false_eq_true, if_false]
    refine hw.turn hcall ?_ ?_ ?_ ?_
    · intro j c _ hj hc
      exact OrderedMap.mem_keys_set w.store |>.2 (Or.inr (hw.stored c (List.mem_of_getElem? hj) hc))
    · intro _
      refine ⟨OrderedMap.mem_keys_set w.store |>.2 (Or.inl rfl), ?_⟩
      intro j c _ hj hc hkey
      exact hstored (hkey ▸ hw.stored c (List.mem_of_getElem? hj) hc)
    · intro h
      by_contra hh
      simp [hh] at h
    · intro _
      rw [hphase]
      rfl

theorem Held.release (hw : w.Held) (hcall : w.calls[i]? = some call) (hphase : call.phase = .releasing) :
    (w.release i call).Held := by
  have hholds : call.phase.holds = true := by rw [hphase]; rfl
  refine hw.turn hcall ?_ (fun h => absurd h (by decide)) (fun h => absurd h (by decide))
    (fun h => absurd h (by decide))
  intro j c hji hj hc
  refine (OrderedMap.mem_keys_erase w.store).2 ⟨?_, hw.stored c (List.mem_of_getElem? hj) hc⟩
  intro hkey
  exact hji (hw.once j i c call hj hcall hc hholds hkey)

theorem Held.step {step : ConnectorStep} (hw : w.Held) (h : Step host w step w')
    (hsame : w.SameKeyAsBefore host step w') : w'.Held := by
  cases h with
  | deliver h => exact hw.deliver h hsame
  | claim hcall hphase => exact hw.claim hcall hphase
  | @settle i call returned hcall hphase =>
    have hmem := List.mem_of_getElem? hcall
    refine hw.turn hcall (fun j c _ hj hc => hw.stored c (List.mem_of_getElem? hj) hc) ?_ ?_ ?_
    · intro _
      have hholds : call.phase.holds = true := by rw [hphase]; rfl
      refine ⟨hw.stored call hmem hholds, ?_⟩
      intro j c hji hj hc hkey
      exact hji (hw.once j i c call hj hcall hc hholds hkey)
    · intro _
      exact hw.handles call hmem (Or.inl hphase)
    · intro _
      rw [hphase]
      rfl
  | release hcall hphase => exact hw.release hcall hphase

theorem Held.reachable (h : ((system host).restrict (SameKeyAsBefore host)).Reachable w) : w.Held := by
  refine h.invariant Held ?_ ?_
  · rintro w ⟨options, rfl⟩
    exact Held.init options
  · intro w step w' hw hstep
    exact hw.step hstep.1 hstep.2

theorem Held.handledOnce (hw : w.Held) : w.HandledOnce := by
  intro i j c d hi hj hc hd hauth
  have hcmem := List.mem_of_getElem? hi
  have hdmem := List.mem_of_getElem? hj
  have hkey := hw.agree c hcmem d hdmem (hw.handles c hcmem (Or.inr hc)) (hw.handles d hdmem (Or.inr hd))
    (by rw [hc]; rfl) (by rw [hd]; rfl) hauth
  exact hw.once i j c d hi hj (by rw [hc]; rfl) (by rw [hd]; rfl) hkey

/-- The secret is `secret`, and the message `1700000000.\x7b\x7d`. -/
def signingHost : WebhookHost where
  hmac := fun _ _ => "b8569b78799ff9e3cbff0fc2d63a33a2b57f3282abd07c37ae5e8e7d79a5f163"
  toLowerCase := String.toLower

def signedHeaders (deliveryId : String) : WebhookHeaders :=
  .record [("x-webhook-id", .one deliveryId), ("x-webhook-timestamp", .one "1700000000"),
    ("x-webhook-signature", .one "sha256=b8569b78799ff9e3cbff0fc2d63a33a2b57f3282abd07c37ae5e8e7d79a5f163")]

def signedWebhook (deliveryId : String) : ParsedWebhook where
  payload := .object []
  rawBody := "\x7b\x7d"
  signature := "sha256=b8569b78799ff9e3cbff0fc2d63a33a2b57f3282abd07c37ae5e8e7d79a5f163"
  timestamp := some "1700000000"
  deliveryId := some deliveryId

def connectorAfter (store : List String) (calls : List (String × DeliveryPhase)) : WebhookConnector where
  options := { secret := .text "secret" }
  store := OrderedMap.ofList (store.map (fun id => (id, (signedWebhook id).record 1700000001000)))
  calls := calls.map (fun call =>
    ⟨signedWebhook call.1, (signedWebhook call.1).record 1700000001000, true, call.2⟩)

theorem parse_signed : ∀ id ∈ ["a", "b"],
    parseWebhook signingHost { secret := .text "secret" } 1700000001000 (.text "\x7b\x7d") (signedHeaders id)
      = .ok (signedWebhook id) := by
  decide +kernel

section Handling

variable {P : WebhookConnector → ConnectorStep → WebhookConnector → Prop} {store store' : List String}
  {id : String} {phase : DeliveryPhase} (calls : List (String × DeliveryPhase))

theorem getElem?_connectorAfter : (connectorAfter store (calls ++ [(id, phase)])).calls[calls.length]?
    = some ⟨signedWebhook id, (signedWebhook id).record 1700000001000, true, phase⟩ := by
  simp [connectorAfter]

theorem delivered (h : ((system signingHost).restrict P).Reachable (connectorAfter store calls))
    (hid : id ∈ ["a", "b"])
    (hP : ∀ w', P (connectorAfter store calls)
      (.deliver (.text "\x7b\x7d") (signedHeaders id) 1700000001000 1700000001000 true) w') :
    ((system signingHost).restrict P).Reachable (connectorAfter store (calls ++ [(id, .claiming)])) := by
  refine h.step ⟨Step.deliver ?_, hP _⟩
  show parseWebhook _ _ _ _ _ >>= _ = _
  rw [show (connectorAfter store calls).options = { secret := .text "secret" } from rfl, parse_signed id hid]
  simp [connectorAfter]

theorem claimed
    (h : ((system signingHost).restrict P).Reachable (connectorAfter store (calls ++ [(id, .claiming)])))
    (hclaim : (connectorAfter store (calls ++ [(id, .claiming)])).claim calls.length
        ⟨signedWebhook id, (signedWebhook id).record 1700000001000, true, .claiming⟩
      = connectorAfter store' (calls ++ [(id, phase)]))
    (hP : ∀ w i w', P w (.claim i) w') :
    ((system signingHost).restrict P).Reachable (connectorAfter store' (calls ++ [(id, phase)])) :=
  hclaim ▸ h.step ⟨Step.claim (getElem?_connectorAfter calls) rfl, hP _ _ _⟩

theorem settled
    (h : ((system signingHost).restrict P).Reachable (connectorAfter store (calls ++ [(id, .handling)])))
    (hP : ∀ w i w', P w (.settle i true) w') :
    ((system signingHost).restrict P).Reachable (connectorAfter store (calls ++ [(id, .completed)])) := by
  have hphase : (connectorAfter store (calls ++ [(id, .handling)])).setPhase calls.length
      ⟨signedWebhook id, (signedWebhook id).record 1700000001000, true, .handling⟩ .completed
      = connectorAfter store (calls ++ [(id, .completed)]) := by
    simp [connectorAfter, setPhase]
  rw [← hphase]
  exact h.step ⟨@Step.settle _ _ _ _ true (getElem?_connectorAfter calls) rfl, hP _ _ _⟩

end Handling

/-- In a run whose deliveries keep the delivery id, or without one the signature header, of the deliveries
that were signed with them, the handler completes at most once for a timestamp and a body. -/
theorem handled_once (host : WebhookHost) (w : WebhookConnector)
    (h : ((system host).restrict (SameKeyAsBefore host)).Reachable w) : w.HandledOnce :=
  (Held.reachable h).handledOnce

/-- A delivery that comes twice is handled once. -/
theorem handled_once_twice : HandledOnce (connectorAfter ["a"] [("a", .completed), ("a", .duplicate)]) := by
  have hinit : ((system signingHost).restrict (SameKeyAsBefore signingHost)).Reachable (connectorAfter [] []) :=
    .init ⟨_, rfl⟩
  have hfirst : ((system signingHost).restrict (SameKeyAsBefore signingHost)).Reachable
      (connectorAfter ["a"] [("a", .completed)]) := by
    refine settled [] (claimed [] (delivered [] hinit (by decide) ?_) (by rfl) ?_) ?_
    · exact fun w' webhook _ => List.forall_mem_nil _
    · exact fun _ _ _ => trivial
    · exact fun _ _ _ => trivial
  refine handled_once signingHost _
    (claimed [("a", .completed)] (delivered [("a", .completed)] hfirst (by decide) ?_) (by rfl) ?_)
  · intro w' webhook hparse c hc _ _ _
    obtain rfl : signedWebhook "a" = webhook :=
      Except.ok.inj ((parse_signed "a" (by decide)).symm.trans hparse)
    obtain rfl := List.mem_singleton.1 hc
    rfl
  · exact fun _ _ _ => trivial

/-- The handler completes for a request, and again when the request comes with another delivery id. -/
theorem not_handled_once : ¬ ∀ (host : WebhookHost) (w : WebhookConnector),
    (system host).Reachable w → w.options.replayProtection.getD true = true → w.HandledOnce := by
  intro h
  have hinit : ((system signingHost).restrict (fun _ _ _ => True)).Reachable (connectorAfter [] []) :=
    .init ⟨_, rfl⟩
  have hfirst : ((system signingHost).restrict (fun _ _ _ => True)).Reachable
      (connectorAfter ["a"] [("a", .completed)]) :=
    settled [] (claimed [] (delivered [] hinit (by decide) (fun _ => trivial)) (by rfl) (fun _ _ _ => trivial))
      (fun _ _ _ => trivial)
  have hsecond : ((system signingHost).restrict (fun _ _ _ => True)).Reachable
      (connectorAfter ["a", "b"] [("a", .completed), ("b", .completed)]) :=
    settled [("a", .completed)] (claimed [("a", .completed)]
      (delivered [("a", .completed)] hfirst (by decide) (fun _ => trivial)) (by rfl) (fun _ _ _ => trivial))
      (fun _ _ _ => trivial)
  exact absurd (h signingHost _ hsecond.of_restrict rfl 0 1 _ _ rfl rfl rfl rfl rfl) (by decide)

end WebhookConnector

end Premise.Webhook
