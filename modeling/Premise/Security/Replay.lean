import Premise.Collections.OrderedMap
import Premise.Control.System
import Premise.Security.Canonical

/-!
# `ReplayGuard`

A claim of a key is stored until it expires, and is refused while it is stored. A timestamp that comes
with the key has to lie near the time of the claim. What `Date.parse` makes of a text is a parameter.
-/

namespace Premise.Security

open Collections Js

structure MemoryReplayStore where
  /-- The instant at which the claim of a key expires. -/
  entries : OrderedMap String ℚ := ∅

namespace MemoryReplayStore

/-- `for (const [storedKey, storedExpiry] of entries) if (storedExpiry <= now) entries.delete(storedKey)`. -/
def deleteExpired (s : MemoryReplayStore) (now : ℚ) : MemoryReplayStore where
  entries := (s.entries.entries.filter (fun entry => decide (entry.2 ≤ now))).foldl
    (fun entries entry => entries.erase entry.1) s.entries

def claim (s : MemoryReplayStore) (key : String) (expiresAt now : ℚ) : MemoryReplayStore × Bool :=
  let s := s.deleteExpired now
  if (s.entries.get? key).any (fun existing => decide (now < existing)) then (s, false)
  else (⟨s.entries.set key expiresAt⟩, true)

end MemoryReplayStore

/-- `Number.isSafeInteger(value)`. -/
def isSafeNumber (value : ℚ) : Bool := value.den = 1 && isSafeInteger value.num

/-- A guard with the timing values that its constructor accepts. -/
structure ReplayGuard where
  ttlMs : ℚ
  maxClockSkewMs : ℚ
  ttl_safe : isSafeNumber ttlMs = true ∧ 0 < ttlMs
  skew_safe : isSafeNumber maxClockSkewMs = true ∧ 0 ≤ maxClockSkewMs

structure ReplayGuardOptions where
  ttlMs : Option ℚ := none
  maxClockSkewMs : Option ℚ := none

/-- The timestamp of a claim. -/
inductive Timestamp
  /-- A number, unless it is `NaN` or infinite. -/
  | number (value : Option ℚ)
  | text (value : String)
deriving DecidableEq

/-- `typeof timestamp === "number" ? timestamp : Date.parse(timestamp)`, when it is finite. -/
def Timestamp.occurredAt (parse : String → Option ℚ) : Timestamp → Option ℚ
  | .number value => value
  | .text value => parse value

namespace ReplayGuard

/-- `new ReplayGuard(options)`. -/
def create (options : ReplayGuardOptions) : Except SecurityError ReplayGuard :=
  let ttlMs := options.ttlMs.getD 300000
  let maxClockSkewMs := options.maxClockSkewMs.getD 300000
  if h : (isSafeNumber ttlMs = true ∧ 0 < ttlMs) ∧ isSafeNumber maxClockSkewMs = true ∧ 0 ≤ maxClockSkewMs
  then .ok ⟨ttlMs, maxClockSkewMs, h.1, h.2⟩
  else configuration "replay timing values are invalid"

/-- `claim(key, timestamp)` at the time `now`, unless the clock reads no finite number. -/
def claim (g : ReplayGuard) (parse : String → Option ℚ) (s : MemoryReplayStore) (key : String)
    (timestamp : Option Timestamp) (now : Option ℚ) : MemoryReplayStore × Bool :=
  match identifier key "replay key" with
  | .error _ => (s, false)
  | .ok replayKey =>
    match now with
    | none => (s, false)
    | some now =>
      match (timestamp.elim (some now) (Timestamp.occurredAt parse)) with
      | none => (s, false)
      | some occurredAt =>
        if |now - occurredAt| > g.maxClockSkewMs then (s, false)
        else s.claim replayKey (now + g.ttlMs) now

end ReplayGuard

/-!
# What the replay guard promises

Claims against one guard, at times that do not decrease.
-/

open Control

/-- A call of `claim`. -/
structure ReplayClaim where
  key : String
  timestamp : Option Timestamp
  /-- What the clock reads, when it is a finite number. -/
  now : Option ℚ

/-- The store, the pairs of a key and a timestamp that have been accepted, and the time of the last
    call. -/
structure ReplayHistory where
  store : MemoryReplayStore := {}
  accepted : List (String × Timestamp) := []
  last : Option ℚ := none

namespace ReplayHistory

def claim (w : ReplayHistory) (g : ReplayGuard) (parse : String → Option ℚ) (call : ReplayClaim) :
    ReplayHistory :=
  let claimed := g.claim parse w.store call.key call.timestamp call.now
  { store := claimed.1
    accepted := w.accepted ++ (if claimed.2 then call.timestamp.toList.map (Prod.mk call.key) else [])
    last := call.now.or w.last }

def system (g : ReplayGuard) (parse : String → Option ℚ) : System ReplayHistory ReplayClaim where
  init := fun w => w = {}
  step := fun w call w' => (∀ now ∈ call.now, ∀ last ∈ w.last, last ≤ now) ∧ w' = w.claim g parse call

end ReplayHistory

def ReplayGuard.AcceptsOnce (g : ReplayGuard) (parse : String → Option ℚ) : Prop :=
  ∀ w, (ReplayHistory.system g parse).Reachable w → w.accepted.Nodup

end Premise.Security
