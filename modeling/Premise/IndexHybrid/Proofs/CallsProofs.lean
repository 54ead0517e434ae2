import Premise.IndexHybrid.Calls
import Premise.IndexHybrid.Proofs.StatisticsProofs

/-!
# Overlapping calls

A write that no later call has overtaken leaves the index as the history of the calls asks for; a write that
comes late does not.
-/

namespace Premise.IndexHybrid

open Collections Control Js

variable {T : Type}

theorem held_write (index : HybridIndex T) (pending : HybridIndex.Prepared T) (vector : List ℚ) (id : String) :
    (index.write pending vector).held id = if id = pending.snapshot.id then some pending.snapshot else index.held id := by
  rw [HybridIndex.held, documents_write, OrderedMap.get?_set]
  split_ifs
  · rfl
  · rfl

theorem held_delete (index : HybridIndex T) (id id' : String) :
    (index.delete id').1.held id = if id' = id then none else index.held id := by
  cases hget : index.documents.get? id' with
  | none =>
    unfold HybridIndex.delete
    rw [hget]
    split_ifs with hid
    · rw [HybridIndex.held, ← hid, hget]
      rfl
    · rfl
  | some stored =>
    rw [delete_of_get? hget, HybridIndex.held]
    rw [OrderedMap.get?_erase]
    by_cases hid : id = id'
    · rw [if_pos hid, if_pos hid.symm]
      rfl
    · rw [if_neg hid, if_neg (Ne.symm hid)]
      rfl

variable {document : HybridDocument T} {prepared : HybridIndex.Prepared T} {started : Started T}

theorem snapshot_of_prepare {index : HybridIndex T} (h : index.prepare document = .ok prepared) :
    prepared.snapshot = document := by
  obtain ⟨snapshot, hsnapshot, h⟩ := of_bind_ok h
  obtain ⟨tokens, -, h⟩ := of_bind_ok h
  cases h
  unfold snapshotDocument at hsnapshot
  split_ifs at hsnapshot
  · cases hsnapshot
  · split at hsnapshot
    · exact (Except.ok.inj hsnapshot).symm
    · split at hsnapshot
      · cases hsnapshot
      · exact (Except.ok.inj hsnapshot).symm

theorem expected_append (history : List (Started T)) (started : Started T) (id : String) :
    expected (history ++ [started]) id = started.apply id (expected history id) := by
  rw [expected, List.foldl_append]
  rfl

theorem foldl_untouched {history : List (Started T)} {id : String} (h : ∀ started ∈ history, ¬ started.Touches id)
    (held : Option (HybridDocument T)) : history.foldl (Started.apply id) held = held := by
  induction history generalizing held with
  | nil => rfl
  | cons started history ih =>
    have hfirst : started.apply id held = held := by
      have hnot := h started List.mem_cons_self
      unfold Started.Touches at hnot
      unfold Started.apply
      cases hcall : started.call with
      | upsert document =>
        rw [hcall] at hnot
        exact if_neg hnot
      | update document =>
        rw [hcall] at hnot
        exact if_neg hnot
      | delete id' =>
        rw [hcall] at hnot
        exact if_neg hnot
      | clear =>
        rw [hcall] at hnot
        exact absurd trivial hnot
    rw [List.foldl_cons, hfirst]
    exact ih (fun started' hstarted' => h started' (List.mem_cons_of_mem _ hstarted')) held

theorem expected_split {history : List (Started T)} {place : Nat} (hplace : history[place]? = some started)
    (id : String) :
    expected history id = (history.drop (place + 1)).foldl (Started.apply id)
      (started.apply id (expected (history.take place) id)) := by
  obtain ⟨hlt, hstarted⟩ := List.getElem?_eq_some_iff.mp hplace
  have hsplit : history.take place ++ started :: history.drop (place + 1) = history := by
    rw [← hstarted, List.getElem_cons_drop, List.take_append_drop]
  conv_lhs => rw [← hsplit]
  rw [expected, List.foldl_append, List.foldl_cons]
  rfl

theorem expected_settled {history : List (Started T)} {place : Nat} (hplace : history[place]? = some started)
    (outcome : Outcome) (id : String) :
    expected (Calls.settled history place outcome) id = (history.drop (place + 1)).foldl (Started.apply id)
      (({ started with outcome := outcome } : Started T).apply id (expected (history.take place) id)) := by
  obtain ⟨hlt, hstarted⟩ := List.getElem?_eq_some_iff.mp hplace
  rw [Calls.settled, List.modify_eq_take_cons_drop hlt, hstarted, expected, List.foldl_append, List.foldl_cons]
  rfl

theorem apply_idle {call : Call T} (hcall : call = .upsert document ∨ call = .update document) {outcome : Outcome}
    (houtcome : outcome ≠ .succeeded) (id : String) (held : Option (HybridDocument T)) :
    (⟨call, outcome⟩ : Started T).apply id held = held := by
  unfold Started.apply
  rcases hcall with rfl | rfl
  · exact if_neg fun hsuccess => houtcome hsuccess.1
  · exact if_neg fun hsuccess => houtcome hsuccess.1

def Waits (prepared : HybridIndex.Prepared T) (started : Started T) : Prop :=
  started.outcome = .waiting ∧ (started.call = .upsert prepared.snapshot ∨ started.call = .update prepared.snapshot)

section

variable (h : Waits prepared started) (id : String) (held : Option (HybridDocument T))
include h id held

theorem Waits.apply : started.apply id held = held :=
  apply_idle h.2 (by rw [h.1]; decide) id held

theorem Waits.apply_failed : ({ started with outcome := .failed } : Started T).apply id held = held :=
  apply_idle h.2 (by decide) id held

theorem Waits.apply_succeeded : ({ started with outcome := .succeeded } : Started T).apply id held
      = if id = prepared.snapshot.id then some prepared.snapshot else held := by
  have hsame : (prepared.snapshot.id = id) = (id = prepared.snapshot.id) := propext eq_comm
  unfold Started.apply
  rcases h.2 with hcall | hcall
  · dsimp only
    rw [hcall]
    simp [hsame]
  · dsimp only
    rw [hcall]
    simp [hsame]

end

/-! ## Steps -/

/-- The index holds what the history asks for, and every waiting call is in its place. -/
structure Coherent (s : Calls T) : Prop where
  held : ∀ id, s.index.held id = expected s.history id
  waiting : ∀ place prepared, s.pending.get? place = some prepared →
    ∃ started, s.history[place]? = some started ∧ Waits prepared started

theorem Coherent.finish {s : Calls T} (h : Coherent s) {call : Call T} {outcome : Outcome} {index : HybridIndex T}
    (heffect : ∀ id, index.held id = (⟨call, outcome⟩ : Started T).apply id (s.index.held id)) :
    Coherent (s.finish call outcome index) := by
  constructor
  · intro id
    unfold Calls.finish
    rw [expected_append, ← h.held]
    exact heffect id
  · intro place prepared hget
    obtain ⟨started, hplace, hwaits⟩ := h.waiting place prepared hget
    obtain ⟨hlt, -⟩ := List.getElem?_eq_some_iff.mp hplace
    refine ⟨started, ?_, hwaits⟩
    unfold Calls.finish
    rw [List.getElem?_append_left hlt]
    exact hplace

theorem Coherent.startUpsert {s : Calls T} (h : Coherent s) {call : Call T}
    (hcall : call = .upsert document ∨ call = .update document) : Coherent (s.startUpsert call document) := by
  unfold Calls.startUpsert
  cases hprepare : s.index.prepare document with
  | error error => exact h.finish (fun id => (apply_idle hcall (by decide) id _).symm)
  | ok prepared =>
    have hsnapshot : prepared.snapshot = document := snapshot_of_prepare hprepare
    constructor
    · intro id
      rw [expected_append, apply_idle hcall (by decide)]
      exact h.held id
    · intro place prepared' hget
      rw [OrderedMap.get?_set] at hget
      split_ifs at hget with hplace
      · cases hget
        refine ⟨⟨call, .waiting⟩, ?_, rfl, ?_⟩
        · rw [hplace]
          exact List.getElem?_concat_length
        · rwa [hsnapshot]
      · obtain ⟨started, hold, hwaits⟩ := h.waiting place prepared' hget
        obtain ⟨hlt, -⟩ := List.getElem?_eq_some_iff.mp hold
        exact ⟨started, by rw [List.getElem?_append_left hlt]; exact hold, hwaits⟩

theorem Coherent.start {s : Calls T} (h : Coherent s) (call : Call T) : Coherent (s.start call) := by
  unfold Calls.start
  cases call with
  | upsert document => exact h.startUpsert (.inl rfl)
  | update document =>
    dsimp only
    cases s.index.checkUpdate document with
    | error error => exact h.finish (fun id => (apply_idle (.inr rfl) (by decide) id _).symm)
    | ok _ => exact h.startUpsert (.inr rfl)
  | delete id' => exact h.finish (fun id => held_delete s.index id id')
  | clear => exact h.finish (fun id => rfl)

theorem Coherent.others {s : Calls T} (h : Coherent s) {place : Nat} (outcome : Outcome) {place' : Nat}
    (hget : (s.pending.erase place).get? place' = some prepared) :
    ∃ started, (Calls.settled s.history place outcome)[place']? = some started ∧ Waits prepared started := by
  rw [OrderedMap.get?_erase] at hget
  split_ifs at hget with hplace
  obtain ⟨started, hold, hwaits⟩ := h.waiting place' prepared hget
  refine ⟨started, ?_, hwaits⟩
  rw [Calls.settled, List.getElem?_modify_ne _ _ (Ne.symm hplace)]
  exact hold

theorem Coherent.settle {s : Calls T} (h : Coherent s) {place : Nat} {answer : Except JsError (List Number)}
    (hunchallenged : Unchallenged s (.settle place answer) (s.settle place answer)) : Coherent (s.settle place answer) := by
  unfold Calls.settle
  cases hpending : s.pending.get? place with
  | none => exact h
  | some prepared =>
    obtain ⟨started, hplace, hwaits⟩ := h.waiting place prepared hpending
    dsimp only
    cases hcommit : s.index.commit prepared answer with
    | error error =>
      refine ⟨fun id => ?_, fun place' prepared' hget => h.others .failed hget⟩
      rw [expected_settled hplace, hwaits.apply_failed, h.held, expected_split hplace, hwaits.apply]
    | ok index =>
      obtain ⟨vector, hvector, hdimension, rfl⟩ := commit_ok hcommit
      refine ⟨fun id => ?_, fun place' prepared' hget => h.others .succeeded hget⟩
      rw [expected_settled hplace, hwaits.apply_succeeded, held_write]
      split_ifs with hid
      · subst hid
        exact (foldl_untouched (hunchallenged prepared vector hpending hvector hdimension) _).symm
      · rw [h.held, expected_split hplace, hwaits.apply]

theorem coherent_init {options : HybridIndexOptions} {s : Calls T} (h : (calls options).init s) : Coherent s := by
  obtain ⟨index, hnew, rfl⟩ := h
  obtain ⟨weights, -, hindex⟩ := of_bind_ok hnew
  cases hindex
  exact ⟨fun id => rfl, fun place prepared hget => nomatch hget⟩

/-- In every run whose writes are not overtaken, the index holds, under every id, the document of the
last-started call that set it with success, unless a later call removed it. -/
theorem held_eq_expected {options : HybridIndexOptions} {s : Calls T}
    (h : ((calls (T := T) options).restrict Unchallenged).Reachable s) (id : String) :
    s.index.held id = expected s.history id := by
  have hcoherent : Coherent s := by
    refine System.Reachable.invariant Coherent (M := (calls (T := T) options).restrict Unchallenged)
      (fun _ hinit => coherent_init hinit) ?_ h
    rintro s event s' hcoherent ⟨rfl, hunchallenged⟩
    cases event with
    | start call => exact hcoherent.start call
    | settle place answer => exact hcoherent.settle hunchallenged
  exact hcoherent.held id

/-- Two texts for one id, whose embeddings arrive in the given order. -/
def twoUpserts (first second : Nat) : Calls Unit :=
  (((({ index := wordIndex } : Calls Unit).next (.start (.upsert { id := "a", text := "one" }))).next
    (.start (.upsert { id := "a", text := "two" }))).next (.settle first (.ok [.finite 1]))).next
    (.settle second (.ok [.finite 1]))

theorem held_eq_expected_two : (twoUpserts 0 1).index.held "a" = some { id := "a", text := "two" } := by
  have hrun : ((calls (T := Unit) wordOptions).restrict Unchallenged).Reachable (twoUpserts 0 1) := by
    refine .step (i := .settle 1 (.ok [.finite 1])) (.step (i := .settle 0 (.ok [.finite 1]))
      (.step (i := .start (.upsert { id := "a", text := "two" })) (.step (i := .start (.upsert { id := "a", text := "one" }))
        (.init ⟨wordIndex, new_wordOptions, rfl⟩) ⟨rfl, trivial⟩) ⟨rfl, trivial⟩) ⟨rfl, ?_⟩) ⟨rfl, ?_⟩
    · rintro prepared vector hpending - - started hstarted htouches
      obtain rfl := List.mem_singleton.mp hstarted
      cases htouches.1
    · rintro prepared vector hpending - - started hstarted
      cases hstarted
  exact (held_eq_expected hrun "a").trans rfl

/-- The embedding of the first text arrives last, and overwrites the second text. -/
theorem not_held_eq_expected :
    ¬ ∀ s : Calls Unit, (calls wordOptions).Reachable s → s.pending.size = 0 →
      ∀ id, s.index.held id = expected s.history id := by
  intro h
  have hrun : (calls (T := Unit) wordOptions).Reachable (twoUpserts 1 0) :=
    .step (i := .settle 0 (.ok [.finite 1])) (.step (i := .settle 1 (.ok [.finite 1]))
      (.step (i := .start (.upsert { id := "a", text := "two" })) (.step (i := .start (.upsert { id := "a", text := "one" }))
        (.init ⟨wordIndex, new_wordOptions, rfl⟩) rfl) rfl) rfl) rfl
  have hheld := h _ hrun (by decide +kernel) "a"
  revert hheld
  decide +kernel

end Premise.IndexHybrid
