import Premise.Graph.Search
import Premise.Vectors.Check

/-!
# Proofs: the check of the reference vectors

On an acyclic vector the memories on the way do not matter, so the recursion answers what its loops make of the
answers for the dependencies. That is the greatest state when what ends the loops is the worst that there is.
-/

namespace Premise.Vectors

open Graph Protocol.V1 Relation

theorem fresh_le (s : MemoryStatus) : MemoryStatus.fresh ≤ s := by cases s <;> decide

theorem eq_invalid_of_le {s : MemoryStatus} (h : MemoryStatus.invalid ≤ s) : s = .invalid := by
  cases s with
  | invalid => rfl
  | _ => exact absurd h (by decide)

theorem dependencyState_eq (stale : Bool) (states : List MemoryStatus) :
    dependencyState stale states = (states.find? (fun s => decide (MemoryStatus.unknown ≤ s))).getD
      (if stale = true ∨ MemoryStatus.stale ∈ states then .stale else .fresh) := by
  induction states generalizing stale with
  | nil => cases stale <;> rfl
  | cons s rest ih =>
    cases s with
    | fresh =>
      rw [dependencyState, ih, List.find?_cons_of_neg (by decide)]
      simp
    | stale =>
      rw [dependencyState, ih, List.find?_cons_of_neg (by decide)]
      simp
    | unknown | invalid => rw [dependencyState, List.find?_cons_of_pos (by decide)]; rfl

theorem evidenceState_eq (evidence : List MemoryStatus) :
    evidenceState evidence = (evidence.find? (fun s => decide (s ≠ .fresh))).getD .fresh := by
  induction evidence with
  | nil => rfl
  | cons s rest ih =>
    cases s with
    | fresh => rw [evidenceState, ih, List.find?_cons_of_neg (by decide)]
    | _ => rfl

variable {entry : Entry} {memoryId : String}

/-- The loops end with the greatest state when nothing is greater than what ends them. -/
theorem combine_eq_iff (h : entry.invalidated = false) (states : List MemoryStatus) :
    combine entry states = maxOf entry.own states ↔ FirstIsWorst entry.evidence states := by
  have hmax : ∀ s, s = .fresh ∨ s ∈ states ++ entry.evidence →
      (s = maxOf entry.own states ↔ ∀ t ∈ states ++ entry.evidence, t ≤ s) := by
    intro s hs
    have hle : maxOf entry.own states ≤ s ↔ ∀ t ∈ states ++ entry.evidence, t ≤ s := by
      rw [maxOf_le_iff, Entry.own, h, maxOf_le_iff, List.forall_mem_append]
      simp only [Bool.false_eq_true, if_false, fresh_le, true_and]
      exact and_comm
    rw [← hle]
    refine ⟨fun heq => heq.ge, fun hge => le_antisymm ?_ hge⟩
    rcases hs with rfl | hs
    · exact fresh_le _
    · rcases List.mem_append.mp hs with hs | hs
      · exact le_maxOf_of_mem _ hs
      · exact (le_maxOf_of_mem _ hs).trans (le_maxOf _ _)
  unfold combine
  rw [h, dependencyState_eq]
  cases hbad : states.find? (fun s => decide (MemoryStatus.unknown ≤ s)) with
  | some s =>
    have hmem := List.mem_of_find?_eq_some hbad
    have hs : MemoryStatus.unknown ≤ s := by simpa using List.find?_some hbad
    have hne : s ≠ .fresh := fun hfresh => absurd (hfresh ▸ hs) (by decide)
    rw [Option.getD_some, if_neg Bool.false_ne_true, if_neg hne, hmax s (Or.inr (List.mem_append_left _ hmem))]
    constructor
    · intro hall
      refine ⟨fun s' hs' => ?_, fun hle => absurd (hs.trans (hle s hmem)) (by decide),
        fun hfresh => absurd ((hfresh s hmem) ▸ hs) (by decide)⟩
      obtain rfl := Option.some.inj (hbad.symm.trans hs')
      exact hall
    · exact fun hfirst => hfirst.dependency s hbad
  | none =>
    have hle : ∀ s ∈ states, s ≤ .stale := by
      intro s hs
      have hnot := List.find?_eq_none.mp hbad s hs
      cases s with
      | fresh | stale => decide
      | unknown | invalid => exact absurd rfl hnot
    by_cases hstale : MemoryStatus.stale ∈ states
    · simp only [Option.getD_none, hstale, or_true, if_true, Bool.false_eq_true, if_false, reduceCtorEq]
      rw [hmax _ (Or.inr (List.mem_append_left _ hstale)), List.forall_mem_append]
      constructor
      · rintro ⟨-, hall⟩
        exact ⟨fun s hs => (by rw [hbad] at hs; cases hs), fun _ _ => hall,
          fun hfresh => absurd (hfresh _ hstale) (by decide)⟩
      · exact fun hfirst => ⟨hle, hfirst.stale hle hstale⟩
    · simp only [Option.getD_none, hstale, or_false, Bool.false_eq_true, if_false, if_true]
      have hfresh : ∀ s ∈ states, s = .fresh := by
        intro s hs
        have hs' := hle s hs
        cases s with
        | fresh => rfl
        | stale => exact absurd hs hstale
        | unknown | invalid => exact absurd hs' (by decide)
      have hstates : ∀ s, ∀ t ∈ states, t ≤ s := fun s t ht => (hfresh t ht) ▸ fresh_le s
      rw [evidenceState_eq]
      cases hfound : entry.evidence.find? (fun s => decide (s ≠ .fresh)) with
      | some s =>
        rw [Option.getD_some, hmax s (Or.inr (List.mem_append_right _ (List.mem_of_find?_eq_some hfound))),
          List.forall_mem_append]
        constructor
        · rintro ⟨-, hall⟩
          refine ⟨fun s hs => (by rw [hbad] at hs; cases hs), fun _ hmem => absurd hmem hstale, fun _ s' hs' => ?_⟩
          obtain rfl := Option.some.inj (hfound.symm.trans hs')
          exact hall
        · exact fun hfirst => ⟨hstates s, hfirst.evidence hfresh s hfound⟩
      | none =>
        rw [Option.getD_none, hmax _ (Or.inl rfl), List.forall_mem_append]
        refine iff_of_true ⟨hstates _, fun t ht => ?_⟩ ⟨fun s hs => (by rw [hbad] at hs; cases hs),
          fun _ hmem => absurd hmem hstale, fun _ s hs => (by rw [hfound] at hs; cases hs)⟩
        have hnot := List.find?_eq_none.mp hfound t ht
        exact (by simpa using hnot : t = .fresh).le

/-! ## The recursion -/

theorem stateFor_eq (entries : List Entry) (seen : List String) (memoryId : String) : stateFor entries seen memoryId =
      match lookup entries memoryId with
      | none => .unknown
      | some entry =>
        if entry.permitted = false ∨ memoryId ∈ seen then .unknown
        else combine entry (entry.dependencies.map (stateFor entries (memoryId :: seen))) := by
  rw [stateFor]
  split
  · rename_i hlookup
    rw [hlookup]
  · rename_i entry hlookup
    rw [hlookup]
    rfl

variable {entries : List Entry}

theorem dependsOn_of_lookup (h : lookup entries memoryId = some entry) :
    dependsOn entries memoryId = entry.dependencies := by
  rw [dependsOn, h]
  rfl

theorem ownOf_of_lookup (h : lookup entries memoryId = some entry) : ownOf entries memoryId = entry.own := by
  rw [ownOf, h]
  rfl

theorem stateFor_seen (h : Complete entries) (memoryId : String) : ∀ seen,
    (∀ s ∈ seen, TransGen (fun n d => d ∈ dependsOn entries n) s memoryId) →
      stateFor entries seen memoryId = stateFor entries [] memoryId := by
  induction memoryId using h.acyclic.induction with
  | _ memoryId ih =>
    intro seen hseen
    rw [stateFor_eq, stateFor_eq entries []]
    cases hlookup : lookup entries memoryId with
    | none => rfl
    | some entry =>
      have hnot : memoryId ∉ seen := fun hmem => not_transGen_self h.acyclic memoryId (hseen memoryId hmem)
      simp only [hnot, List.not_mem_nil, or_false]
      have hstates : entry.dependencies.map (stateFor entries (memoryId :: seen)) =
          entry.dependencies.map (stateFor entries [memoryId]) := by
        refine List.map_congr_left fun d hd => ?_
        rw [← dependsOn_of_lookup hlookup] at hd
        have hself : TransGen (fun n d => d ∈ dependsOn entries n) memoryId d := TransGen.single hd
        rw [ih d hd (memoryId :: seen) (List.forall_mem_cons.mpr ⟨hself, fun s hs => (hseen s hs).tail hd⟩),
          ih d hd [memoryId] (List.forall_mem_singleton.mpr hself)]
      rw [hstates]

/-- A memory is answered with what the loops make of the answers for its dependencies. -/
theorem stateFor_of_lookup (h : Complete entries) (hlookup : lookup entries memoryId = some entry)
    (hpermitted : entry.permitted = true) :
    stateFor entries [] memoryId = combine entry (entry.dependencies.map (stateFor entries [])) := by
  rw [stateFor_eq, hlookup]
  simp only [hpermitted, Bool.true_eq_false, List.not_mem_nil, or_self, if_false]
  congr 1
  refine List.map_congr_left fun d hd => ?_
  rw [← dependsOn_of_lookup hlookup] at hd
  exact stateFor_seen h d [memoryId] (List.forall_mem_singleton.mpr (TransGen.single hd))

theorem eq_map_of_effective {answer : String → MemoryStatus} {dependencies : List String} {states : List MemoryStatus}
    (h : List.Forall₂ (Effective entries) dependencies states)
    (hanswer : ∀ d ∈ dependencies, Effective entries d (answer d)) : states = dependencies.map answer := by
  induction h with
  | nil => rfl
  | cons hstate _ ih =>
    obtain ⟨hfirst, hrest⟩ := List.forall_mem_cons.mp hanswer
    rw [List.map_cons, ← ih hrest, hstate.unique hfirst]

theorem effective_iff (h : Complete entries) :
    (∀ memoryId entry, lookup entries memoryId = some entry → entry.permitted = true →
      Effective entries memoryId (stateFor entries [] memoryId)) ↔ EndsWithWorst entries := by
  constructor
  · intro hall memoryId entry hlookup hpermitted hvalid states hstates
    have hdeps : ∀ d ∈ entry.dependencies, Effective entries d (stateFor entries [] d) := by
      intro d hd
      obtain ⟨entry', hlookup', hpermitted'⟩ := h.present memoryId d (by rwa [dependsOn_of_lookup hlookup])
      exact hall d entry' hlookup' hpermitted'
    obtain rfl := eq_map_of_effective hstates hdeps
    rw [← combine_eq_iff hvalid, ← stateFor_of_lookup h hlookup hpermitted]
    refine (hall memoryId entry hlookup hpermitted).unique ?_
    have hanswer : Aggregate (ownOf entries) (dependsOn entries) memoryId _ :=
      .intro (stateFor entries []) (by rw [dependsOn_of_lookup hlookup]; exact hdeps)
    rwa [dependsOn_of_lookup hlookup, ownOf_of_lookup hlookup] at hanswer
  · intro hfirst memoryId
    induction memoryId using h.acyclic.induction with
    | _ memoryId ih =>
      intro entry hlookup hpermitted
      have hdeps : ∀ d ∈ dependsOn entries memoryId, Effective entries d (stateFor entries [] d) := by
        intro d hd
        obtain ⟨entry', hlookup', hpermitted'⟩ := h.present memoryId d hd
        exact ih d hd entry' hlookup' hpermitted'
      have hanswer : Aggregate (ownOf entries) _ memoryId _ := .intro (stateFor entries []) hdeps
      rw [dependsOn_of_lookup hlookup, ownOf_of_lookup hlookup] at hanswer
      rw [stateFor_of_lookup h hlookup hpermitted]
      cases hinvalid : entry.invalidated with
      | true =>
        have hcombine : combine entry (entry.dependencies.map (stateFor entries [])) = .invalid := by
          rw [combine, hinvalid]
          rfl
        have hle : MemoryStatus.invalid ≤ maxOf entry.own (entry.dependencies.map (stateFor entries [])) := by
          refine le_trans ?_ (le_maxOf _ _)
          rw [Entry.own, hinvalid]
          exact le_maxOf _ _
        rw [hcombine]
        rwa [eq_invalid_of_le hle] at hanswer
      | false =>
        rw [(combine_eq_iff hinvalid _).mpr ?_]
        · exact hanswer
        · refine hfirst memoryId entry hlookup hpermitted hinvalid _ ?_
          rw [List.forall₂_map_right_iff]
          rw [dependsOn_of_lookup hlookup] at hdeps
          exact List.forall₂_same.mpr hdeps

/-! ## The order does not matter -/

namespace Vector

variable {vector vector' : Vector}

section

variable (h : vector.Reorders vector')
include h

theorem lookup_of_reorders (memoryId : String) :
    (lookup vector.entries memoryId = none ∧ lookup vector'.entries memoryId = none) ∨
      ∃ entry entry', lookup vector.entries memoryId = some entry ∧ lookup vector'.entries memoryId = some entry' ∧
        entry.own = entry'.own ∧ entry.permitted = entry'.permitted ∧
          entry.dependencies.Perm entry'.dependencies := by
  obtain ⟨htenant, hobservations, hmemories⟩ := h
  have hstate : vector.stateOf = vector'.stateOf := by
    funext entry
    rw [stateOf, stateOf, hobservations]
  unfold entries
  rw [← hstate, ← htenant]
  generalize vector.memoriesIn = memories, vector'.memoriesIn = memories' at hmemories
  induction hmemories with
  | nil => exact .inl ⟨rfl, rfl⟩
  | @cons memory memory' memories memories' hmemory _ ih =>
    unfold lookup at ih ⊢
    rw [List.map_cons, List.map_cons]
    by_cases hid : memory.memoryId = memoryId
    · have hid' : memory'.memoryId = memoryId := hmemory.memoryId ▸ hid
      rw [List.find?_cons_of_pos (by simpa using hid), List.find?_cons_of_pos (by simpa using hid')]
      refine .inr ⟨_, _, rfl, rfl, ?_, ?_, hmemory.dependencies⟩
      · unfold Entry.own
        rw [hmemory.invalidation]
        exact maxOf_congr fun s => (hmemory.evidence.map vector.stateOf).mem_iff
      · rw [hmemory.tenantId]
    · have hid' : ¬ memory'.memoryId = memoryId := hmemory.memoryId ▸ hid
      rw [List.find?_cons_of_neg (by simpa using hid), List.find?_cons_of_neg (by simpa using hid')]
      exact ih

theorem ownOf_of_reorders (memoryId : String) : ownOf vector.entries memoryId = ownOf vector'.entries memoryId := by
  obtain ⟨hlookup, hlookup'⟩ | ⟨entry, entry', hlookup, hlookup', hown, -⟩ := lookup_of_reorders h memoryId
  · rw [ownOf, ownOf, hlookup, hlookup']
  · rw [ownOf_of_lookup hlookup, ownOf_of_lookup hlookup', hown]

theorem dependsOn_of_reorders (memoryId : String) :
    (dependsOn vector.entries memoryId).Perm (dependsOn vector'.entries memoryId) := by
  obtain ⟨hlookup, hlookup'⟩ | ⟨entry, entry', hlookup, hlookup', -, -, hdependencies⟩ := lookup_of_reorders h memoryId
  · rw [dependsOn, dependsOn, hlookup, hlookup']
  · rw [dependsOn_of_lookup hlookup, dependsOn_of_lookup hlookup']
    exact hdependencies

theorem effective_of_reorders {state : MemoryStatus}
    (heffective : Effective vector.entries memoryId state) : Effective vector'.entries memoryId state := by
  induction heffective with
  | @intro memoryId answer _ ih =>
    have hperm := dependsOn_of_reorders h memoryId
    rw [ownOf_of_reorders h, maxOf_congr (fun s => (hperm.map answer).mem_iff)]
    exact Aggregate.intro answer fun d hd => ih d (hperm.mem_iff.mpr hd)

theorem complete_of_reorders (hcomplete : Complete vector.entries) : Complete vector'.entries := by
  refine ⟨Subrelation.wf (fun {d n} hd => (dependsOn_of_reorders h n).mem_iff.mpr hd) hcomplete.acyclic, ?_⟩
  intro memoryId d hd
  obtain ⟨entry, hentry, hpermitted⟩ := hcomplete.present memoryId d ((dependsOn_of_reorders h memoryId).mem_iff.mpr hd)
  obtain ⟨hnone, -⟩ | ⟨e, entry', hlookup, hlookup', -, hpermitted', -⟩ := lookup_of_reorders h d
  · rw [hentry] at hnone
    cases hnone
  · obtain rfl := Option.some.inj (hentry.symm.trans hlookup)
    exact ⟨entry', hlookup', hpermitted' ▸ hpermitted⟩

end

/-- One memory, with an evidence item that the source no longer has. -/
def single : Vector where
  memories := some [{ memoryId := "m", evidence := [{ source := some "s", version := some "1" }] }]
  observations := [("s", { available := some true, version := some "2" })]

theorem dependsOn_single (memoryId : String) : dependsOn single.entries memoryId = [] := by
  by_cases hid : memoryId = "m"
  · subst hid
    rfl
  · have hnone : lookup single.entries memoryId = none := List.find?_eq_none.mpr (by simpa [single, entries, memoriesIn] using Ne.symm hid)
    rw [dependsOn, hnone]
    rfl

/-- A memory that depends on an unknown one and on an invalid one. -/
def conflicting : Vector where
  memories := some
    [{ memoryId := "m", dependencies := ["unknown", "invalid"] },
     { memoryId := "unknown", evidence := [{ validity := some "UNKNOWN", source := none, version := none }] },
     { memoryId := "invalid", evidence := [{ validity := some "INVALID", source := none, version := none }] }]

end Vector

end Premise.Vectors
