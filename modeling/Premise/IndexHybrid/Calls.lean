import Premise.Control.System
import Premise.IndexHybrid.Index

/-!
# Calls that run at the same time

The calls of one index, in the order in which they were started. `delete` and `clear` take effect at once; an
`upsert` or `update` that passed its checks waits for the embedding, and the answers may arrive in any order.
-/

namespace Premise.IndexHybrid

open Collections Control Js

variable {T : Type}

inductive Call (T : Type)
  | upsert (document : HybridDocument T)
  | update (document : HybridDocument T)
  | delete (id : String)
  | clear

inductive Outcome
  | waiting
  | succeeded
  | failed
deriving DecidableEq

/-- A call that was started, and what became of it. -/
structure Started (T : Type) where
  call : Call T
  outcome : Outcome

/-- An index and the calls on it; a call that waits is known by its place in the history. -/
structure Calls (T : Type) where
  index : HybridIndex T
  history : List (Started T) := []
  pending : OrderedMap Nat (HybridIndex.Prepared T) := ∅

namespace Calls

def finish (s : Calls T) (call : Call T) (outcome : Outcome) (index : HybridIndex T) : Calls T :=
  { s with index := index, history := s.history ++ [⟨call, outcome⟩] }

/-- `upsert`, as `call` or from `update`, up to its call of the provider. -/
def startUpsert (s : Calls T) (call : Call T) (document : HybridDocument T) : Calls T :=
  match s.index.prepare document with
  | .error _ => s.finish call .failed s.index
  | .ok prepared =>
    { s with
      history := s.history ++ [⟨call, .waiting⟩]
      pending := s.pending.set s.history.length prepared }

def start (s : Calls T) : Call T → Calls T
  | .upsert document => s.startUpsert (.upsert document) document
  | .update document =>
    match s.index.checkUpdate document with
    | .error _ => s.finish (.update document) .failed s.index
    | .ok _ => s.startUpsert (.update document) document
  | .delete id => s.finish (.delete id) .succeeded (s.index.delete id).1
  | .clear => s.finish .clear .succeeded s.index.clear

def settled (history : List (Started T)) (place : Nat) (outcome : Outcome) : List (Started T) :=
  history.modify place (fun started => { started with outcome := outcome })

def settle (s : Calls T) (place : Nat) (answer : Except JsError (List Number)) : Calls T :=
  match s.pending.get? place with
  | none => s
  | some prepared =>
    match s.index.commit prepared answer with
    | .error _ =>
      { s with history := settled s.history place .failed, pending := s.pending.erase place }
    | .ok index =>
      { index := index
        history := settled s.history place .succeeded
        pending := s.pending.erase place }

end Calls

inductive CallEvent (T : Type)
  | start (call : Call T)
  | settle (place : Nat) (answer : Except JsError (List Number))

def Calls.next (s : Calls T) : CallEvent T → Calls T
  | .start call => s.start call
  | .settle place answer => s.settle place answer

def calls (options : HybridIndexOptions) : System (Calls T) (CallEvent T) where
  init := fun s => ∃ index, HybridIndex.new options = .ok index ∧ s = { index := index }
  step := fun s event s' => s' = s.next event

def Started.apply (id : String) (held : Option (HybridDocument T)) (started : Started T) : Option (HybridDocument T) :=
  match started.call with
  | .upsert document => if started.outcome = .succeeded ∧ document.id = id then some document else held
  | .update document => if started.outcome = .succeeded ∧ document.id = id then some document else held
  | .delete id' => if id' = id then none else held
  | .clear => none

/-- The document of the last-started call that set it, unless a later one removed it. -/
def expected (history : List (Started T)) (id : String) : Option (HybridDocument T) :=
  history.foldl (Started.apply id) none

def HybridIndex.held (index : HybridIndex T) (id : String) : Option (HybridDocument T) :=
  (index.documents.get? id).map StoredDocument.document

/-- The call sets the document of an id with success, or removes it. -/
def Started.Touches (id : String) (started : Started T) : Prop :=
  match started.call with
  | .upsert document => started.outcome = .succeeded ∧ document.id = id
  | .update document => started.outcome = .succeeded ∧ document.id = id
  | .delete id' => id' = id
  | .clear => True

/-- An embedding that the index accepts, and no call that was started later has set or removed the document of
the same id in the meantime. -/
def Unchallenged (s : Calls T) : CallEvent T → Calls T → Prop
  | .start _, _ => True
  | .settle place answer, _ =>
    ∀ prepared vector, s.pending.get? place = some prepared → embed answer = .ok vector →
      (∀ dimensions, s.index.vectorDimensions = some dimensions → vector.length = dimensions) →
      ∀ started ∈ s.history.drop (place + 1), ¬ started.Touches prepared.snapshot.id

end Premise.IndexHybrid
